import LocalMeetingStt.Assets.Files

/-!
# One file (`download_assets.py`, `download_url`)

A download goes to a part file next to its destination, and goes on from what an earlier
run has left there if the server answers the `Range` request with a 206. Where the reads
come to their end the part file is moved over the destination.

The file is then what was kept of the part file and what the reads delivered
(`downloadUrl_run`). An empty read ends the loop whether the response is complete or its
connection has gone, and nothing compares the two: `downloadUrl_whole_iff` says that the
file is whole exactly when the response was, and `total_eq_iff` that the size the function
computes for its progress lines would tell.
-/

namespace LocalMeetingStt
namespace Assets

open LittleEndian

/-! ## One file (`download_url`) -/

structure Request where
  url : Text
  /-- `N` of the header `Range: bytes=N-`, when it is sent. -/
  range : Option Nat
deriving DecidableEq, Repr

structure Response where
  status : Nat
  contentLength : Option Nat
  /-- What one `read(1024 * 1024)` after the other returns. -/
  reads : List Bytes
  /-- What the `read` after these raises; an empty read if nothing. -/
  broken : Option Text
deriving DecidableEq, Repr

/-- `destination.with_name(f"{destination.name}.part")` -/
def partOf (destination : Path) : Path :=
  destination.dropLast ++ [destination.getLastD [] ++ ".part".toList]

def resetPath (path : Path) (force : Bool) : Download Unit := do
  if force && (← pathExists path) then
    if ← isDir path then rmtree path else unlink path

/-- The loop around `response.read`. -/
def copy (part : Path) : List Bytes → Option Text → Download Unit
  | [], none => pure ()
  | [], some error => .raise error
  | chunk :: reads, broken =>
    if chunk.isEmpty then pure () else do
      append part chunk
      copy part reads broken

/-- What `download_url` does with the response to its request. -/
def receive (part : Path) (existingSize : Nat) (response : Response) : Download Unit := do
  let existingSize ←
    if existingSize ≠ 0 ∧ response.status ≠ 206 then do
      unlink part
      pure 0
    else
      pure existingSize
  if existingSize = 0 then
    create part
  copy part response.reads response.broken

def downloadUrl (urlopen : Request → Except Text Response) (url : Text) (destination : Path)
    (force : Bool) : Download Unit := do
  resetPath destination force
  if ← pathExists destination then
    return
  let part := partOf destination
  if force && (← pathExists part) then
    unlink part
  mkdir destination.dropLast
  let existingSize ← fileSize part
  match urlopen ⟨url, if existingSize = 0 then none else some existingSize⟩ with
  | .error error => .raise error
  | .ok response =>
    receive part existingSize response
    move part destination

namespace Response

/-- The bytes up to the first empty read. -/
def delivered (response : Response) : Bytes :=
  (response.reads.takeWhile fun chunk => !chunk.isEmpty).flatten

/-- The loop comes to an empty read. -/
def ended (response : Response) : Bool :=
  response.reads.any List.isEmpty || response.broken.isNone

/-- `total`, which only the progress lines use. -/
def total (response : Response) (existingSize : Nat) : Nat :=
  response.contentLength.getD 0 + if response.status = 206 then existingSize else 0

end Response

/-! ## What the file holds in the end -/

/-- The loop writes what is delivered, and comes to its end unless a read raises. -/
theorem copy_run {part : Path} (status : Nat) (contentLength : Option Nat) (reads : List Bytes)
    (broken : Option Text) {f : Folder} {old : Bytes} (h : f.lookup part = some (.file old)) :
    ∃ result g, (copy part reads broken).run f = (result, g) ∧
      (result = .ok () ↔ (Response.mk status contentLength reads broken).ended = true) ∧
      g.lookup part =
        some (.file (old ++ (Response.mk status contentLength reads broken).delivered)) ∧
      ∀ q, q ≠ part → g.lookup q = f.lookup q := by
  induction reads generalizing f old with
  | nil =>
    cases broken with
    | none =>
      refine ⟨.ok (), f, rfl, by simp [Response.ended], ?_, fun _ _ => rfl⟩
      simpa [Response.delivered]
    | some error =>
      refine ⟨.error error, f, rfl, by simp [Response.ended], ?_, fun _ _ => rfl⟩
      simpa [Response.delivered]
  | cons chunk reads ih =>
    by_cases hempty : chunk.isEmpty = true
    · refine ⟨.ok (), f, by simp [copy, hempty], ?_, ?_, fun _ _ => rfl⟩
      · simp [Response.ended, hempty]
      · simpa [Response.delivered, hempty] using h
    · have hnext : (f.insert part (.file (old ++ chunk))).lookup part =
          some (.file (old ++ chunk)) := AList.lookup_insert f
      obtain ⟨result, g, hrun, hresult, hpart, hothers⟩ := ih hnext
      refine ⟨result, g, ?_, ?_, ?_, ?_⟩
      · have hold : (f.fileAt part).getD [] = old := by rw [Folder.fileAt_eq_some.mpr h]; rfl
        simpa [copy, hempty, append, Script.run_bind, hold] using hrun
      · rw [hresult]
        simp [Response.ended, hempty]
      · rw [hpart]
        simp [Response.delivered, hempty]
      · intro q hq
        rw [hothers q hq]
        exact AList.lookup_insert_ne hq

/-- What of a file of which `old` is there a response goes on from. -/
def Response.kept (response : Response) (old : Bytes) : Bytes :=
  if response.status = 206 then old else []

theorem receive_run {part : Path} (response : Response) {f : Folder} {old : Bytes}
    (h : old = [] ∨ f.lookup part = some (.file old)) :
    ∃ result g, (receive part old.length response).run f = (result, g) ∧
      (result = .ok () ↔ response.ended = true) ∧
      g.lookup part = some (.file (response.kept old ++ response.delivered)) ∧
      ∀ q, q ≠ part → g.lookup q = f.lookup q := by
  obtain ⟨status, contentLength, reads, broken⟩ := response
  -- The file is made anew unless the response goes on from what is there.
  by_cases hfresh : old = [] ∨ status ≠ 206
  · have hkept : (Response.mk status contentLength reads broken).kept old = [] := by
      unfold Response.kept
      rcases hfresh with rfl | hstatus
      · exact ite_self _
      · exact if_neg hstatus
    have hcopy : ∀ f' : Folder, (∀ q, q ≠ part → f'.lookup q = f.lookup q) →
        ∃ result g, (do create part; copy part reads broken).run f' = (result, g) ∧
          (result = .ok () ↔ (Response.mk status contentLength reads broken).ended = true) ∧
          g.lookup part =
            some (.file ((Response.mk status contentLength reads broken).delivered)) ∧
          ∀ q, q ≠ part → g.lookup q = f.lookup q := by
      intro f' hf'
      obtain ⟨result, g, hrun, hresult, hpart, hothers⟩ := copy_run status contentLength reads
        broken (f := f'.insert part (.file [])) (AList.lookup_insert f')
      refine ⟨result, g, hrun, hresult, hpart, fun q hq => ?_⟩
      rw [hothers q hq, AList.lookup_insert_ne hq]
      exact hf' q hq
    rw [hkept, List.nil_append]
    by_cases hold : old = []
    · obtain ⟨result, g, hrun, hrest⟩ := hcopy f fun _ _ => rfl
      exact ⟨result, g, by simpa [receive, Script.run_bind, hold] using hrun, hrest⟩
    · have hstatus : status ≠ 206 := hfresh.resolve_left hold
      obtain ⟨result, g, hrun, hrest⟩ := hcopy (f.erase part)
        fun q hq => AList.lookup_erase_ne hq
      refine ⟨result, g, ?_, hrest⟩
      simpa [receive, Script.run_bind, hold, hstatus, unlink] using hrun
  · obtain ⟨hold, hstatus⟩ := not_or.mp hfresh
    obtain rfl : status = 206 := not_not.mp hstatus
    obtain ⟨result, g, hrun, hrest⟩ := copy_run 206 contentLength reads broken
      (h.resolve_left hold)
    refine ⟨result, g, ?_, hrest⟩
    simpa [receive, Script.run_bind, hold] using hrun

theorem resetPath_keep (path : Path) (f : Folder) :
    (resetPath path false).run f = (.ok (), f) := by
  simp [resetPath, Script.run_bind, pathExists]

theorem resetPath_run (path : Path) (force : Bool) (f : Folder) :
    ∃ g, (resetPath path force).run f = (.ok (), g) ∧
      (force = true ∨ f.lookup path = none → g.lookup path = none) ∧
      (∀ q, ¬ path <+: q → g.lookup q = f.lookup q) := by
  by_cases hreset : force = true ∧ (f.lookup path).isSome = true
  · obtain ⟨rfl, hsome⟩ := hreset
    by_cases hdir : f.lookup path = some .folder
    · refine ⟨f.rmtree path, ?_, fun _ => ?_, fun q hq => ?_⟩
      · simp [resetPath, Script.run_bind, pathExists, isDir, rmtree, hdir]
      · rw [Folder.lookup_rmtree, if_pos (List.prefix_refl path)]
      · rw [Folder.lookup_rmtree, if_neg hq]
    · refine ⟨f.erase path, ?_, fun _ => AList.lookup_erase path f, fun q hq => ?_⟩
      · simp [resetPath, Script.run_bind, pathExists, isDir, unlink, hsome, hdir]
      · rw [Folder.lookup_erase, if_neg]
        rintro rfl
        exact hq (List.prefix_refl q)
  · refine ⟨f, ?_, fun hstarts => ?_, fun _ _ => rfl⟩
    · rcases Bool.eq_false_or_eq_true force with rfl | rfl
      · have hnone : (f.lookup path).isSome = false := by simpa using hreset
        simp [resetPath, Script.run_bind, pathExists, hnone]
      · exact resetPath_keep path f
    · rcases hstarts with rfl | hnone
      · simpa using hreset
      · exact hnone

theorem partOf_length {d : Path} (hd : d ≠ []) : (partOf d).length = d.length := by
  have := List.length_pos_iff.mpr hd
  simp only [partOf, List.length_append, List.length_dropLast, List.length_singleton]
  omega

theorem partOf_ne (d : Path) : partOf d ≠ d := by
  intro heq
  have hlast := congrArg (fun q : Path => q.getLastD []) heq
  rw [partOf, List.getLastD_concat] at hlast
  simpa using congrArg List.length hlast

theorem not_prefix_partOf {d : Path} (hd : d ≠ []) : ¬ d <+: partOf d := fun h =>
  partOf_ne d (h.eq_of_length (partOf_length hd).symm).symm

theorem partOf_not_above {d : Path} (hd : d ≠ []) : ¬ partOf d <+: d.dropLast := by
  intro h
  have hle := h.length_le
  have := List.length_pos_iff.mpr hd
  rw [partOf_length hd, List.length_dropLast] at hle
  omega

theorem not_prefix_dropLast {d : Path} (hd : d ≠ []) : ¬ d <+: d.dropLast := by
  intro h
  have hle := h.length_le
  have := List.length_pos_iff.mpr hd
  rw [List.length_dropLast] at hle
  omega

/-- What an earlier run has left of the file. -/
def leftOver (f : Folder) (destination : Path) (force : Bool) : Bytes :=
  if force then [] else (f.fileAt (partOf destination)).getD []

/-- The request that will be made. -/
def requestFor (url : Text) (destination : Path) (force : Bool) (f : Folder) : Request :=
  ⟨url, if (leftOver f destination force).length = 0 then none
    else some (leftOver f destination force).length⟩

/-- What an earlier run has left of the file is the part file, if it counts. -/
theorem leftOver_cases {f f' : Folder} {d : Path} {force : Bool}
    (h : f'.lookup (partOf d) = if force then none else f.lookup (partOf d)) :
    leftOver f d force = [] ∨ f'.lookup (partOf d) = some (.file (leftOver f d force)) := by
  rw [h]
  cases force with
  | true => exact Or.inl rfl
  | false =>
    show (f.fileAt (partOf d)).getD [] = [] ∨
      f.lookup (partOf d) = some (.file ((f.fileAt (partOf d)).getD []))
    cases hfile : f.fileAt (partOf d) with
    | none => exact Or.inl rfl
    | some bytes => exact Or.inr (Folder.fileAt_eq_some.mp hfile)

/-- `download_url` from its request on. -/
def fetch (urlopen : Request → Except Text Response) (request : Request) (destination : Path)
    (existingSize : Nat) : Download Unit :=
  match urlopen request with
  | .error error => .raise error
  | .ok response => do
    receive (partOf destination) existingSize response
    move (partOf destination) destination

theorem fetch_run (urlopen : Request → Except Text Response) (request : Request) {d : Path}
    {f : Folder} {old : Bytes} (hold : old = [] ∨ f.lookup (partOf d) = some (.file old)) :
    ∃ result g, (fetch urlopen request d old.length).run f = (result, g) ∧
      (result = .ok () ↔ ∃ response, urlopen request = .ok response ∧ response.ended = true) ∧
      (result ≠ .ok () → g.lookup d = f.lookup d) ∧
      ∀ response, urlopen request = .ok response → response.ended = true →
        g.lookup d = some (.file (response.kept old ++ response.delivered)) := by
  unfold fetch
  cases hresponse : urlopen request with
  | error error => exact ⟨_, _, rfl, by simp, fun _ => rfl, by simp⟩
  | ok response =>
    obtain ⟨result, g, hrun, hresult, hpart, hothers⟩ := receive_run response hold
    cases result with
    | error error =>
      have hended : ¬ response.ended = true := fun h => by cases hresult.mpr h
      refine ⟨.error error, g, ?_, ?_, fun _ => hothers d (partOf_ne d).symm, ?_⟩
      · simp [Script.run_bind, hrun]
      · simp [hended]
      · rintro _ ⟨rfl⟩ hended'
        exact absurd hended' hended
    | ok a =>
      have hended : response.ended = true := hresult.mp rfl
      refine ⟨.ok (), g.move (partOf d) d, ?_, ?_, fun hfailed => absurd rfl hfailed, ?_⟩
      · simp [Script.run_bind, hrun, move]
      · simp [hended]
      · rintro _ ⟨rfl⟩ -
        unfold Folder.move
        rw [hpart]
        exact AList.lookup_insert _

/-- The run goes on to download: it is forced to, or there is no file yet. -/
def Starts (force : Bool) (f : Folder) (destination : Path) : Prop :=
  force = true ∨ f.lookup destination = none

/-- Up to its request `download_url` does away with what `force` does not want; the part
    file is otherwise as it was. -/
theorem downloadUrl_fetches (urlopen : Request → Except Text Response) (url : Text) {d : Path}
    (force : Bool) {f : Folder} (hd : d ≠ []) (starts : Starts force f d) :
    ∃ f' : Folder, f'.lookup d = none ∧
      f'.lookup (partOf d) = (if force then none else f.lookup (partOf d)) ∧
      (downloadUrl urlopen url d force).run f =
        (fetch urlopen (requestFor url d force f) d (leftOver f d force).length).run f' := by
  obtain ⟨f₁, hreset, habsent, hothers₁⟩ := resetPath_run d force f
  have hsome : (f₁.lookup d).isSome = false := by rw [habsent starts]; rfl
  have hpart₁ : f₁.lookup (partOf d) = f.lookup (partOf d) :=
    hothers₁ _ (not_prefix_partOf hd)
  -- The part file once `force` has had its say, and its folder.
  let f₂ : Folder :=
    if force = true ∧ (f₁.lookup (partOf d)).isSome then f₁.erase (partOf d) else f₁
  let f₃ : Folder := Folder.mkdir f₂ d.dropLast
  have hleft : f₃.lookup (partOf d) = if force then none else f.lookup (partOf d) := by
    show (Folder.mkdir f₂ d.dropLast).lookup (partOf d) = _
    rw [Folder.lookup_mkdir, if_neg (partOf_not_above hd)]
    show (if _ then f₁.erase (partOf d) else f₁ : Folder).lookup (partOf d) = _
    split_ifs with hforced hforce hforce
    · exact AList.lookup_erase _ f₁
    · exact absurd hforced.1 hforce
    · exact Option.not_isSome_iff_eq_none.mp fun hsome => hforced ⟨hforce, hsome⟩
    · exact hpart₁
  have hold : (Folder.fileAt f₃ (partOf d)).getD [] = leftOver f d force := by
    unfold Folder.fileAt leftOver
    rw [hleft]
    cases force <;> rfl
  have hthere : f₃.lookup d = none := by
    show (Folder.mkdir f₂ d.dropLast).lookup d = _
    rw [Folder.lookup_mkdir, if_neg (not_prefix_dropLast hd)]
    show (if _ then f₁.erase (partOf d) else f₁ : Folder).lookup d = _
    split_ifs
    · rw [AList.lookup_erase_ne (partOf_ne d).symm]
      exact habsent starts
    · exact habsent starts
  refine ⟨f₃, hthere, hleft, ?_⟩
  by_cases hforced : force = true ∧ (f₁.lookup (partOf d)).isSome = true
  · have hf₃ : Folder.mkdir (f₁.erase (partOf d)) d.dropLast = f₃ := by
      simp only [f₃, f₂, if_pos hforced]
    obtain ⟨rfl, hpresent⟩ := hforced
    simp [downloadUrl, fetch, Script.run_bind, hreset, pathExists, hsome, mkdir, fileSize,
      hpresent, unlink, hf₃, hold, requestFor]
  · have hf₃ : Folder.mkdir f₁ d.dropLast = f₃ := by
      simp only [f₃, f₂, if_neg hforced]
    simp [downloadUrl, fetch, Script.run_bind, hreset, pathExists, hsome, mkdir, fileSize,
      hforced, hf₃, hold, requestFor]

/-- A run that has something to do: it fails, and there is no file, or the finished file
    holds what was kept of the old one and what was delivered. -/
theorem downloadUrl_run (urlopen : Request → Except Text Response) (url : Text) {d : Path}
    (force : Bool) {f : Folder} (hd : d ≠ []) (starts : Starts force f d) :
    ∃ result g, (downloadUrl urlopen url d force).run f = (result, g) ∧
      (result = .ok () ↔ ∃ response, urlopen (requestFor url d force f) = .ok response ∧
        response.ended = true) ∧
      (result ≠ .ok () → g.lookup d = none) ∧
      ∀ response, urlopen (requestFor url d force f) = .ok response → response.ended = true →
        g.lookup d = some (.file (response.kept (leftOver f d force) ++ response.delivered)) := by
  obtain ⟨f', hthere, hpart, hrun⟩ := downloadUrl_fetches urlopen url force hd starts
  rw [hrun, ← hthere]
  exact fetch_run urlopen (requestFor url d force f) (leftOver_cases hpart)

/-! ## Whole files -/

/-- What the server has to send: the rest of the content, with a 206, or all of it. -/
def bodyOf (content : Bytes) (request : Request) (status : Nat) : Bytes :=
  match request.range with
  | some start => if status = 206 then content.drop start else content
  | none => content

/-- A server that honours `Range` or ignores it, and a connection that delivers its bytes
    in any pieces and may end early. -/
def Serves (urlopen : Request → Except Text Response) (url : Text) (content : Bytes) : Prop :=
  ∀ request response, request.url = url → urlopen request = .ok response →
    (response.status = 200 ∨ response.status = 206 ∧ request.range.isSome = true) ∧
      response.delivered <+: bodyOf content request response.status

/-- The part file, if there is one, is a beginning of the content. -/
def PartFits (f : Folder) (destination : Path) (content : Bytes) : Prop :=
  ∀ node, f.lookup (partOf destination) = some node →
    ∃ bytes, node = .file bytes ∧ bytes <+: content

theorem PartFits.leftOver {f : Folder} {d : Path} {content : Bytes} (h : PartFits f d content)
    (force : Bool) : leftOver f d force <+: content := by
  unfold Assets.leftOver
  cases force with
  | true => exact List.nil_prefix
  | false =>
    show (f.fileAt (partOf d)).getD [] <+: content
    cases hfile : f.fileAt (partOf d) with
    | none => exact List.nil_prefix
    | some bytes =>
      obtain ⟨bytes', hnode, hpre⟩ := h _ (Folder.fileAt_eq_some.mp hfile)
      obtain rfl := Node.file.inj hnode
      exact hpre

section

variable {url : Text} {d : Path} {force : Bool} {f : Folder} {content : Bytes}
  {response : Response}

/-- What is kept and what has to be sent make up the content. -/
theorem kept_append_body (hleft : leftOver f d force <+: content)
    (hstatus : response.status = 200 ∨
      response.status = 206 ∧ (requestFor url d force f).range.isSome = true) :
    response.kept (leftOver f d force) ++
      bodyOf content (requestFor url d force f) response.status = content := by
  obtain ⟨rest, rfl⟩ := hleft
  rcases hstatus with hstatus | ⟨hstatus, hrange⟩
  · rw [hstatus, Response.kept, hstatus, if_neg (by decide), List.nil_append]
    unfold bodyOf
    split <;> rfl
  · have hne : ¬ (leftOver f d force).length = 0 := by
      intro h
      simp [requestFor, h] at hrange
    rw [hstatus, Response.kept, hstatus, if_pos rfl]
    simp [bodyOf, requestFor, hne]

/-- The file is whole when everything that had to be sent was delivered. -/
theorem kept_append_delivered_iff (hleft : leftOver f d force <+: content)
    (hstatus : response.status = 200 ∨
      response.status = 206 ∧ (requestFor url d force f).range.isSome = true) :
    response.kept (leftOver f d force) ++ response.delivered = content ↔
      response.delivered = bodyOf content (requestFor url d force f) response.status := by
  constructor
  · intro h
    exact List.append_cancel_left (h.trans (kept_append_body hleft hstatus).symm)
  · intro h
    rw [h]
    exact kept_append_body hleft hstatus

end

/-- **When a finished download is whole.** For every content, every beginning of it an
    earlier run has left, and every way a response delivers its bytes: what a run leaves at
    `destination`, if anything, is the content if and only if the response, when it comes to
    its end, has delivered all it had to send. -/
theorem downloadUrl_whole_iff (urlopen : Request → Except Text Response) (url : Text)
    (content : Bytes) (folder : Path) (name : Text) (force : Bool) (f : Folder)
    (hserves : Serves urlopen url content) (hpart : PartFits f (folder ++ [name]) content) :
    (∀ result g, (downloadUrl urlopen url (folder ++ [name]) force).run f = (result, g) →
        Starts force f (folder ++ [name]) → g.lookup (folder ++ [name]) = none ∨
          g.lookup (folder ++ [name]) = some (.file content)) ↔
      (Starts force f (folder ++ [name]) →
        ∀ response, urlopen (requestFor url (folder ++ [name]) force f) = .ok response →
        response.ended = true →
        response.delivered =
          bodyOf content (requestFor url (folder ++ [name]) force f) response.status) := by
  have hne : folder ++ [name] ≠ [] := by simp
  have hleft := hpart.leftOver force
  constructor
  · intro hwhole starts response hresponse hended
    obtain ⟨result, g, hrun, -, -, hfile⟩ := downloadUrl_run urlopen url force hne starts
    have hstatus := (hserves _ response rfl hresponse).1
    refine (kept_append_delivered_iff hleft hstatus).mp ?_
    have hcontent := hwhole result g hrun starts
    rw [hfile response hresponse hended] at hcontent
    rcases hcontent with hnone | hcontent
    · cases hnone
    · exact Node.file.inj (Option.some.inj hcontent)
  · intro hall result' g' hrun' starts
    obtain ⟨result, g, hrun, hresult, hfailed, hfile⟩ :=
      downloadUrl_run urlopen url force hne starts
    obtain ⟨rfl, rfl⟩ := Prod.mk.inj (hrun.symm.trans hrun')
    by_cases hok : result = .ok ()
    · obtain ⟨response, hresponse, hended⟩ := hresult.mp hok
      have hstatus := (hserves _ response rfl hresponse).1
      right
      rw [hfile response hresponse hended,
        (kept_append_delivered_iff hleft hstatus).mpr (hall starts response hresponse hended)]
    · exact .inl (hfailed hok)

/-- The two sizes the progress lines compare would tell, where a `Content-Length` is sent:
    they are the same exactly when the file is whole. -/
theorem total_eq_iff {url : Text} {d : Path} {force : Bool} {f : Folder} {content : Bytes}
    {response : Response} (hleft : leftOver f d force <+: content)
    (hstatus : response.status = 200 ∨
      response.status = 206 ∧ (requestFor url d force f).range.isSome = true)
    (hdelivered : response.delivered <+: bodyOf content (requestFor url d force f) response.status)
    (hlength : response.contentLength =
      some (bodyOf content (requestFor url d force f) response.status).length) :
    (response.kept (leftOver f d force) ++ response.delivered).length =
        response.total (leftOver f d force).length ↔
      response.kept (leftOver f d force) ++ response.delivered = content := by
  have htotal : response.total (leftOver f d force).length = content.length := by
    rw [← congrArg List.length (kept_append_body hleft hstatus), List.length_append,
      Response.total, hlength, Option.getD_some, Nat.add_comm]
    unfold Response.kept
    split_ifs <;> rfl
  rw [htotal]
  refine ⟨fun h => ?_, fun h => by rw [h]⟩
  have hpre : response.kept (leftOver f d force) ++ response.delivered <+: content := by
    rw [← kept_append_body hleft hstatus]
    exact (List.prefix_append_right_inj _).mpr hdelivered
  exact hpre.eq_of_length h

/-- A server with three bytes. It honours a request for the last two; the connection of
    any other ends after the first byte. -/
def threeBytes (request : Request) : Except Text Response :=
  if request.range = some 1 then .ok ⟨206, some 2, [[2], [3]], none⟩
  else .ok ⟨200, some 3, [[1]], none⟩

theorem threeBytes_serves (url : Text) : Serves threeBytes url [1, 2, 3] := by
  rintro ⟨_, range⟩ response rfl hresponse
  unfold threeBytes at hresponse
  split_ifs at hresponse with hrange
  · obtain rfl := Except.ok.inj hresponse
    obtain rfl : range = some 1 := hrange
    exact ⟨Or.inr ⟨rfl, rfl⟩, List.prefix_refl [2, 3]⟩
  · obtain rfl := Except.ok.inj hresponse
    refine ⟨Or.inl rfl, ?_⟩
    cases range <;> exact ⟨[2, 3], rfl⟩

/-- The first byte is there. -/
def oneByteThere : Folder := (Folder.mkdir ∅ []).insert ["m.bin.part".toList] (.file [1])

theorem downloadUrl_whole_iff_resumed :
    ((downloadUrl threeBytes [] ["m.bin".toList] false).run oneByteThere).2.lookup
      ["m.bin".toList] = some (.file [1, 2, 3]) := by
  have hpart : PartFits oneByteThere ([] ++ ["m.bin".toList]) [1, 2, 3] := by
    intro node hnode
    obtain rfl : Node.file [1] = node := Option.some.inj hnode
    exact ⟨[1], rfl, by decide⟩
  have hwhole := (downloadUrl_whole_iff threeBytes [] [1, 2, 3] [] "m.bin".toList false
    oneByteThere (threeBytes_serves []) hpart).mpr ?_ _ _ rfl (Or.inr rfl)
  · rcases hwhole with hnone | hwhole
    · cases hnone
    · exact hwhole
  · intro _ response hresponse _
    obtain rfl := Except.ok.inj hresponse
    rfl

theorem truncated_transfer_finished :
    ¬ ∀ (urlopen : Request → Except Text Response) (url : Text) (content : Bytes)
      (folder : Path) (name : Text) (force : Bool) (f g : Folder) (result : Except Text Unit),
      Serves urlopen url content → PartFits f (folder ++ [name]) content →
      (downloadUrl urlopen url (folder ++ [name]) force).run f = (result, g) →
      Starts force f (folder ++ [name]) → g.lookup (folder ++ [name]) = none ∨
        g.lookup (folder ++ [name]) = some (.file content) := by
  intro h
  have hwhole := h threeBytes [] [1, 2, 3] [] "m.bin".toList false ∅ _ _ (threeBytes_serves [])
    (fun _ hnode => by cases hnode) rfl (Or.inr rfl)
  rcases hwhole with hnone | hwhole
  · cases hnone
  · exact absurd (Node.file.inj (Option.some.inj hwhole)) (by decide)

end Assets
end LocalMeetingStt
