import LocalMeetingStt.Assets.Killed

/-!
# Trying a download again (`download_assets.py`, `download_url`)

A download is tried any number of times. Each attempt may be killed after any of its
actions, and its connection may be cut off after any byte (`attempts`). Then comes one
attempt that nothing interrupts (`Uncut`).

What a kill leaves is a beginning of the content, and a 206 goes on from it. There is one
beginning from which nothing goes on: **the whole content**, which a kill between the last
write and the rename leaves. The request then starts where the content ends, a server that
honours `Range` refuses it, and so it does every time. `retry_iff` says that this and the
file a cut connection was taken for are all that can go wrong.
-/

namespace LocalMeetingStt
namespace Assets

open LittleEndian

/-! ## The server -/

/-- What a standard server answers: all of the content, or the part from `start` on where
    that is within it, of which the connection delivers a beginning. -/
def Standard (urlopen : Request → Except Text Response) (url : Text) (content : Bytes) : Prop :=
  ∀ request response, request.url = url → urlopen request = .ok response →
    (response.status = 200 ∨
      response.status = 206 ∧ ∃ start, request.range = some start ∧ start < content.length) ∧
    response.delivered <+: bodyOf content request response.status

/-- The response comes to its end with all of the body. -/
structure Sends (response : Response) (status : Nat) (body : Bytes) : Prop where
  status : response.status = status
  ended : response.ended = true
  delivered : response.delivered = body

/-- Nothing interrupts a standard server, which honours `Range` or ignores it. -/
structure Uncut (urlopen : Request → Except Text Response) (url : Text) (content : Bytes)
    (ranges : Bool) : Prop where
  plain : ∃ response, urlopen ⟨url, none⟩ = .ok response ∧ Sends response 200 content
  ignored : ranges = false → ∀ start,
    ∃ response, urlopen ⟨url, some start⟩ = .ok response ∧ Sends response 200 content
  suffix : ranges = true → ∀ start, start < content.length →
    ∃ response, urlopen ⟨url, some start⟩ = .ok response ∧
      Sends response 206 (content.drop start)
  /-- 416, which `urlopen` raises. -/
  refused : ranges = true → ∀ start, content.length ≤ start →
    ∃ error, urlopen ⟨url, some start⟩ = .error error

theorem Sends.of_answer {answer : Except Text Response} {status : Nat} {body : Bytes}
    (h : ∃ response, answer = .ok response ∧ Sends response status body) {response : Response}
    (hresponse : answer = .ok response) : Sends response status body := by
  obtain ⟨expected, hexpected, hsends⟩ := h
  obtain rfl := Except.ok.inj (hexpected.symm.trans hresponse)
  exact hsends

/-- An attempt that nothing interrupts is one of the attempts. -/
theorem Uncut.standard {urlopen : Request → Except Text Response} {url : Text} {content : Bytes}
    {ranges : Bool} (h : Uncut urlopen url content ranges) : Standard urlopen url content := by
  rintro ⟨_, range⟩ response rfl hresponse
  cases range with
  | none =>
    have hsends := Sends.of_answer h.plain hresponse
    refine ⟨.inl hsends.status, ?_⟩
    rw [hsends.delivered]
    exact List.prefix_refl content
  | some start =>
    cases ranges with
    | false =>
      have hsends := Sends.of_answer (h.ignored rfl start) hresponse
      refine ⟨.inl hsends.status, ?_⟩
      rw [hsends.delivered, hsends.status]
      exact List.prefix_refl content
    | true =>
      by_cases hstart : start < content.length
      · have hsends := Sends.of_answer (h.suffix rfl start hstart) hresponse
        refine ⟨.inr ⟨hsends.status, start, rfl, hstart⟩, ?_⟩
        rw [hsends.delivered, hsends.status]
        exact List.prefix_refl (content.drop start)
      · obtain ⟨error, herror⟩ := h.refused rfl start (by omega)
        rw [herror] at hresponse
        cases hresponse

/-! ## The attempts -/

/-- Any number of attempts, each left as it is after any of its actions. -/
def attempts (url : Text) (content : Bytes) (destination : Path) : Transition.System Folder where
  init f := f.lookup destination = none ∧ f.lookup (partOf destination) = none
  next f g := ∃ urlopen force, Standard urlopen url content ∧
    g ∈ (downloadUrl urlopen url destination force).trail f

theorem Remote.no_members (_ : Bytes) (files : List (Path × Bytes)) (h : none = some files) :
    ∀ file ∈ files, file.1 ≠ [] := by
  cases h

/-- One file on a server, over connections that may be cut off. -/
def Remote.ofContent (content : Bytes) : Remote where
  snapshot _ := []
  named _ _ h := absurd h List.not_mem_nil
  distinct _ := List.nodup_nil
  content _ := content
  releaseUrl _ _ := []
  members _ := none
  membersNamed := Remote.no_members
  cutsShort := true

theorem Standard.connects {urlopen : Request → Except Text Response} {url : Text}
    {content : Bytes} (h : Standard urlopen url content) :
    (Remote.ofContent content).Connects url urlopen where
  serves request response hrequest hresponse := by
    obtain ⟨hstatus, hpre⟩ := h request response hrequest hresponse
    refine ⟨hstatus.imp_right fun hsuffix => ⟨hsuffix.1, ?_⟩, hpre⟩
    obtain ⟨start, hstart, -⟩ := hsuffix.2
    rw [hstart]
    rfl
  whole hshort := by cases hshort

section

variable {url : Text} {content : Bytes} {d : Path} {f : Folder}

/-- The part file is a beginning of the content at any time, and so is what is finished. -/
theorem attempts_inv (hd : d ≠ []) (h : (attempts url content d).Reachable f) :
    FileInv (Remote.ofContent content) url d f := by
  induction h with
  | start hinit => exact .of_nothing hinit.1 hinit.2
  | next _ hnext ih =>
    obtain ⟨urlopen, force, hstandard, hcut⟩ := hnext
    exact Script.wp_trail (downloadUrl_wp hstandard.connects hd force ih) _ hcut

/-! ## One more attempt -/

/-- What there is to go on from, and a server to go on with. -/
def Finishable (ranges force : Bool) (content : Bytes) (d : Path) (f : Folder) : Prop :=
  force = true ∨ f.lookup d = some (.file content) ∨
    f.lookup d = none ∧ (ranges = false ∨ content = [] ∨ f.fileAt (partOf d) ≠ some content)

/-- The request starts where the content ends. -/
def Refused (ranges : Bool) (content left : Bytes) : Prop :=
  ranges = true ∧ left = content ∧ content ≠ []

theorem finishable_iff_of_starts {ranges force : Bool} (hstarts : Starts force f d) :
    Finishable ranges force content d f ↔ ¬Refused ranges content (leftOver f d force) := by
  cases force with
  | true =>
    refine iff_of_true (.inl rfl) ?_
    rintro ⟨-, hleft, hne⟩
    exact hne hleft.symm
  | false =>
    have hnone : f.lookup d = none := hstarts.resolve_left Bool.false_ne_true
    have hpart : f.fileAt (partOf d) = some content ∨ content = [] ↔
        leftOver f d false = content ∨ content = [] := by
      unfold leftOver
      cases f.fileAt (partOf d) <;> simp [eq_comm]
    by_cases hempty : content = []
    · simp [Finishable, Refused, hnone, hempty]
    · have hpart := by simpa [hempty] using hpart
      simp [Finishable, Refused, hnone, hempty, hpart, imp_iff_not_or]

/-- A file that is there is not downloaded again. -/
theorem downloadUrl_skips (urlopen : Request → Except Text Response) (url : Text)
    (hsome : (f.lookup d).isSome = true) :
    (downloadUrl urlopen url d false).run f = (.ok (), f) := by
  simp [downloadUrl, resetPath_keep, Script.run_bind, pathExists, hsome]

section

variable {urlopen : Request → Except Text Response} {ranges force : Bool}
  (hserver : Uncut urlopen url content ranges)

include hserver

theorem Uncut.refuses (h : Refused ranges content (leftOver f d force)) :
    ∃ error, urlopen (requestFor url d force f) = .error error := by
  obtain ⟨hranges, hwhole, hne⟩ := h
  have hlength : (leftOver f d force).length ≠ 0 := by simpa [hwhole] using hne
  rw [requestFor, if_neg hlength, hwhole]
  exact hserver.refused hranges content.length (Nat.le_refl _)

/-- What the server sends completes what there is. -/
theorem Uncut.completes (hleft : leftOver f d force <+: content)
    (h : ¬Refused ranges content (leftOver f d force)) :
    ∃ response, urlopen (requestFor url d force f) = .ok response ∧ response.ended = true ∧
      response.kept (leftOver f d force) ++ response.delivered = content := by
  have hall : ∀ {response : Response} {left : Bytes}, Sends response 200 content →
      response.kept left ++ response.delivered = content := by
    intro response left hsends
    rw [Response.kept, hsends.status, if_neg (by decide), hsends.delivered, List.nil_append]
  by_cases hnil : leftOver f d force = []
  · obtain ⟨response, hresponse, hsends⟩ := hserver.plain
    refine ⟨response, ?_, hsends.ended, hall hsends⟩
    rw [requestFor, hnil, List.length_nil, if_pos rfl, hresponse]
  · have hlength : (leftOver f d force).length ≠ 0 := by simpa using hnil
    have hrequest : requestFor url d force f = ⟨url, some (leftOver f d force).length⟩ := by
      rw [requestFor, if_neg hlength]
    rw [hrequest]
    cases ranges with
    | false =>
      obtain ⟨response, hresponse, hsends⟩ := hserver.ignored rfl (leftOver f d force).length
      exact ⟨response, hresponse, hsends.ended, hall hsends⟩
    | true =>
      have hlt : (leftOver f d force).length < content.length := by
        refine lt_of_le_of_ne hleft.length_le fun heq => h ?_
        have hwhole := hleft.eq_of_length heq
        exact ⟨rfl, hwhole, by rwa [← hwhole]⟩
      obtain ⟨response, hresponse, hsends⟩ := hserver.suffix rfl _ hlt
      refine ⟨response, hresponse, hsends.ended, ?_⟩
      rw [Response.kept, hsends.status, if_pos rfl, hsends.delivered]
      exact List.prefix_iff_eq_append.mp hleft

theorem finishes_iff (hd : d ≠ []) (h : FileInv (Remote.ofContent content) url d f) :
    (∃ g, (downloadUrl urlopen url d force).run f = (.ok (), g) ∧
      g.lookup d = some (.file content)) ↔ Finishable ranges force content d f := by
  by_cases hstarts : Starts force f d
  · obtain ⟨result, g, hrun, hresult, -, hfile⟩ := downloadUrl_run urlopen url force hd hstarts
    rw [hrun, finishable_iff_of_starts hstarts]
    by_cases hrefused : Refused ranges content (leftOver f d force)
    · refine iff_of_false ?_ (not_not.mpr hrefused)
      rintro ⟨g', heq, -⟩
      obtain ⟨response, hresponse, -⟩ := hresult.mp (congrArg Prod.fst heq)
      obtain ⟨error, herror⟩ := hserver.refuses hrefused
      rw [herror] at hresponse
      cases hresponse
    · obtain ⟨response, hresponse, hended, hcontent⟩ :=
        hserver.completes (h.part.leftOver force) hrefused
      refine iff_of_true ⟨g, ?_, ?_⟩ hrefused
      · rw [hresult.mpr ⟨response, hresponse, hended⟩]
      · rw [hfile response hresponse hended, hcontent]
  · obtain ⟨hforce, hthere⟩ := not_or.mp hstarts
    obtain rfl : force = false := by simpa using hforce
    rw [downloadUrl_skips urlopen url (Option.isSome_iff_ne_none.mpr hthere)]
    constructor
    · rintro ⟨g, heq, hg⟩
      obtain rfl : f = g := congrArg Prod.snd heq
      exact .inr (.inl hg)
    · rintro (hforced | hcontent | ⟨hnone, -⟩)
      · cases hforced
      · exact ⟨f, rfl, hcontent⟩
      · exact absurd hnone hthere

end

end

/-- **An attempt that nothing interrupts finishes, exactly when** the file is not there yet or
    is the content, and the part file is not the whole content already; unless the server
    ignores `Range` or the run is forced, and so starts anew. -/
theorem retry_iff {url : Text} {content : Bytes} {folder : Path} {name : Text} {f : Folder}
    (h : (attempts url content (folder ++ [name])).Reachable f)
    {urlopen : Request → Except Text Response} {ranges : Bool}
    (hserver : Uncut urlopen url content ranges) (force : Bool) :
    (∃ g, (downloadUrl urlopen url (folder ++ [name]) force).run f = (.ok (), g) ∧
      g.lookup (folder ++ [name]) = some (.file content)) ↔
      Finishable ranges force content (folder ++ [name]) f := by
  have hd : folder ++ [name] ≠ [] := by simp
  exact finishes_iff hserver hd (attempts_inv hd h)

/-- A standard server that sends everything in one piece. -/
def standardServer (content : Bytes) (ranges : Bool) (request : Request) :
    Except Text Response :=
  match request.range with
  | some start =>
    if ranges then
      if start < content.length then
        .ok ⟨206, some (content.length - start), [content.drop start], none⟩
      else
        .error "HTTP Error 416: Range Not Satisfiable".toList
    else
      .ok ⟨200, some content.length, [content], none⟩
  | none => .ok ⟨200, some content.length, [content], none⟩

theorem sends_onePiece (status : Nat) (length : Option Nat) (body : Bytes) :
    Sends ⟨status, length, [body], none⟩ status body where
  status := rfl
  ended := by simp [Response.ended]
  delivered := by cases body <;> simp [Response.delivered]

theorem standardServer_uncut (url : Text) (content : Bytes) (ranges : Bool) :
    Uncut (standardServer content ranges) url content ranges where
  plain := ⟨_, rfl, sends_onePiece 200 _ content⟩
  ignored h start := by
    subst h
    exact ⟨_, rfl, sends_onePiece 200 _ content⟩
  suffix h start hstart := by
    subst h
    exact ⟨_, if_pos hstart, sends_onePiece 206 _ (content.drop start)⟩
  refused h start hstart := by
    subst h
    exact ⟨_, if_neg (Nat.not_lt.mpr hstart)⟩

/-- The whole content is written, and not yet renamed. -/
def allWritten : Folder := (Folder.mkdir ∅ []).insert ["m.bin.part".toList] (.file [1, 2, 3])

theorem allWritten_reachable :
    (attempts [] [1, 2, 3] ([] ++ ["m.bin".toList])).Reachable allWritten := by
  have hfresh : (attempts [] [1, 2, 3] ([] ++ ["m.bin".toList])).Reachable ∅ := .start ⟨rfl, rfl⟩
  refine .next hfresh ⟨_, false, (standardServer_uncut [] _ true).standard, ?_⟩
  exact List.mem_of_getElem? (i := 3) rfl

/-- The server ignores `Range`. -/
theorem retry_iff_anew :
    ∃ g, (downloadUrl (standardServer [1, 2, 3] false) [] ["m.bin".toList] false).run allWritten =
      (.ok (), g) ∧ g.lookup ["m.bin".toList] = some (.file [1, 2, 3]) :=
  (retry_iff allWritten_reachable (standardServer_uncut [] [1, 2, 3] false) false).mpr
    (.inr (.inr ⟨rfl, .inl rfl⟩))

theorem whole_part_refused :
    ¬ ∀ (url : Text) (content : Bytes) (folder : Path) (name : Text) (f : Folder)
      (urlopen : Request → Except Text Response) (ranges force : Bool),
      (attempts url content (folder ++ [name])).Reachable f → Uncut urlopen url content ranges →
      ∃ g, (downloadUrl urlopen url (folder ++ [name]) force).run f = (.ok (), g) ∧
        g.lookup (folder ++ [name]) = some (.file content) := by
  intro h
  obtain ⟨g, hrun, -⟩ := h [] [1, 2, 3] [] "m.bin".toList allWritten _ true false
    allWritten_reachable (standardServer_uncut [] [1, 2, 3] true)
  cases congrArg Prod.fst hrun

end Assets
end LocalMeetingStt
