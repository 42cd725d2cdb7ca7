import LocalMeetingStt.Lib.Transition
import Mathlib.Logic.Function.Basic

/-!
# Scripts that can be killed

A script changes a store one action at a time and may look at the store before it decides
what to do next. A kill leaves the store as the last finished action left it. So what a
script guarantees has two halves: what holds when it returns, and what holds **after every
action**, which is what the next script starts from when this one is killed. `Script.wp`
states both at once.

Several scripts may be running over one store. `Farm.interleaved` reduces that to the
script on its own: if the others leave alone the part of the store a script looks at, the
invariant it keeps alone it keeps among them.
-/

inductive Script (σ ε α : Type) where
  | pure (a : α)
  | raise (error : ε)
  | act (change : σ → σ) (rest : Script σ ε α)
  | look (next : σ → Script σ ε α)

namespace Script

variable {σ ε α β : Type}

def bind : Script σ ε α → (α → Script σ ε β) → Script σ ε β
  | .pure a, k => k a
  | .raise error, _ => .raise error
  | .act change rest, k => .act change (rest.bind k)
  | .look next, k => .look fun s => (next s).bind k

instance : Monad (Script σ ε) where
  pure := .pure
  bind := .bind

def change (f : σ → σ) : Script σ ε Unit := .act f (.pure ())

def get (f : σ → α) : Script σ ε α := .look fun s => .pure (f s)

/-- The script to its end. -/
def run : Script σ ε α → σ → Except ε α × σ
  | .pure a, s => (.ok a, s)
  | .raise error, s => (.error error, s)
  | .act f rest, s => rest.run (f s)
  | .look next, s => (next s).run s

/-- The stores a kill can leave behind. -/
def trail : Script σ ε α → σ → List σ
  | .pure _, s | .raise _, s => [s]
  | .act f rest, s => s :: rest.trail (f s)
  | .look next, s => (next s).trail s

theorem mem_trail_self (x : Script σ ε α) (s : σ) : s ∈ x.trail s := by
  induction x with
  | pure | raise => exact List.mem_singleton_self s
  | act => exact List.mem_cons_self
  | look next ih => exact ih s

theorem mem_trail_of_run {x : Script σ ε α} {s s' : σ} {result : Except ε α}
    (h : x.run s = (result, s')) : s' ∈ x.trail s := by
  induction x generalizing s with
  | pure | raise => exact List.mem_singleton.mpr (Prod.mk.inj h).2.symm
  | act f rest ih => exact List.mem_cons_of_mem _ (ih h)
  | look next ih => exact ih s h

/-! ## What a script guarantees -/

/-- After every action `cut` holds, and after a return `post`. -/
def wp (cut : σ → Prop) : Script σ ε α → (α → σ → Prop) → σ → Prop
  | .pure a, post, s => cut s ∧ post a s
  | .raise _, _, s => cut s
  | .act f rest, post, s => cut s ∧ wp cut rest post (f s)
  | .look next, post, s => wp cut (next s) post s

variable {cut : σ → Prop} {post : α → σ → Prop} {s : σ}

theorem wp_cut {x : Script σ ε α} (h : x.wp cut post s) : cut s := by
  induction x with
  | pure => exact h.1
  | raise => exact h
  | act => exact h.1
  | look next ih => exact ih s h

theorem wp_mono {x : Script σ ε α} {post' : α → σ → Prop} (h : x.wp cut post s)
    (hpost : ∀ a s, cut s → post a s → post' a s) : x.wp cut post' s := by
  induction x generalizing s with
  | pure a => exact ⟨h.1, hpost a s h.1 h.2⟩
  | raise => exact h
  | act f rest ih => exact ⟨h.1, ih h.2⟩
  | look next ih => exact ih s h

theorem wp_imp {cut' : σ → Prop} {x : Script σ ε α} (h : x.wp cut post s)
    (hcut : ∀ s, cut s → cut' s) : x.wp cut' post s := by
  induction x generalizing s with
  | pure => exact ⟨hcut s h.1, h.2⟩
  | raise => exact hcut s h
  | act f rest ih => exact ⟨hcut s h.1, ih h.2⟩
  | look next ih => exact ih s h

theorem wp_bind {x : Script σ ε α} {k : α → Script σ ε β} {post : β → σ → Prop} :
    (x >>= k).wp cut post s ↔ x.wp cut (fun a => (k a).wp cut post) s := by
  induction x generalizing s with
  | pure a =>
    show (k a).wp cut post s ↔ cut s ∧ (k a).wp cut post s
    exact ⟨fun h => ⟨wp_cut h, h⟩, fun h => h.2⟩
  | raise => exact Iff.rfl
  | act f rest ih => exact and_congr_right fun _ => ih
  | look next ih => exact ih s

@[simp] theorem wp_pure {a : α} :
    (Pure.pure a : Script σ ε α).wp cut post s ↔ cut s ∧ post a s :=
  Iff.rfl

@[simp] theorem wp_raise {error : ε} : (raise error : Script σ ε α).wp cut post s ↔ cut s :=
  Iff.rfl

@[simp] theorem wp_change {f : σ → σ} {post : Unit → σ → Prop} :
    (change f : Script σ ε Unit).wp cut post s ↔ cut s ∧ cut (f s) ∧ post () (f s) :=
  Iff.rfl

@[simp] theorem wp_get {f : σ → α} :
    (get f : Script σ ε α).wp cut post s ↔ cut s ∧ post (f s) s :=
  Iff.rfl

theorem wp_change_bind {f : σ → σ} {k : Unit → Script σ ε β} {post : β → σ → Prop} :
    (change f >>= k).wp cut post s ↔ cut s ∧ (k ()).wp cut post (f s) :=
  Iff.rfl

theorem wp_get_bind {f : σ → α} {k : α → Script σ ε β} {post : β → σ → Prop} :
    (get f >>= k).wp cut post s ↔ (k (f s)).wp cut post s :=
  Iff.rfl

theorem wp_trail {x : Script σ ε α} (h : x.wp cut post s) : ∀ s' ∈ x.trail s, cut s' := by
  induction x generalizing s with
  | pure =>
    intro s' hs
    rw [List.mem_singleton.mp hs]
    exact h.1
  | raise =>
    intro s' hs
    rw [List.mem_singleton.mp hs]
    exact h
  | act f rest ih =>
    intro s' hs
    rcases List.mem_cons.mp hs with rfl | hs
    · exact h.1
    · exact ih h.2 s' hs
  | look next ih => exact ih s h

/-- The two halves, proved apart. -/
theorem wp_and_run {x : Script σ ε α} (h : x.wp cut (fun _ _ => True) s)
    (hpost : ∀ a s', x.run s = (.ok a, s') → post a s') : x.wp cut post s := by
  induction x generalizing s with
  | pure a => exact ⟨h.1, hpost a s rfl⟩
  | raise => exact h
  | act f rest ih => exact ⟨h.1, ih h.2 hpost⟩
  | look next ih => exact ih s h hpost

theorem wp_trivial (x : Script σ ε α) (s : σ) :
    x.wp (fun _ => True) (fun _ _ => True) s := by
  induction x generalizing s with
  | pure => exact ⟨trivial, trivial⟩
  | raise => trivial
  | act f rest ih => exact ⟨trivial, ih (f s)⟩
  | look next ih => exact ih s s

/-! ## How a script composes -/

@[simp] theorem run_pure (a : α) (s : σ) : (Pure.pure a : Script σ ε α).run s = (.ok a, s) :=
  rfl

@[simp] theorem run_raise (error : ε) (s : σ) :
    (raise error : Script σ ε α).run s = (.error error, s) :=
  rfl

@[simp] theorem run_change (f : σ → σ) (s : σ) :
    (change f : Script σ ε Unit).run s = (.ok (), f s) :=
  rfl

@[simp] theorem run_get (f : σ → α) (s : σ) : (get f : Script σ ε α).run s = (.ok (f s), s) :=
  rfl

theorem run_bind (x : Script σ ε α) (k : α → Script σ ε β) (s : σ) :
    (x >>= k).run s =
      match x.run s with
      | (.ok a, s') => (k a).run s'
      | (.error error, s') => (.error error, s') := by
  induction x generalizing s with
  | pure | raise => rfl
  | act f rest ih => exact ih (f s)
  | look next ih => exact ih s s

@[simp] theorem bind_pure_unit (x : Script σ ε Unit) : (x >>= fun _ => Pure.pure ()) = x := by
  induction x with
  | pure | raise => rfl
  | act f rest ih => exact congrArg (Script.act f) ih
  | look next ih => exact congrArg Script.look (funext ih)

@[simp] theorem pure_bind (a : α) (k : α → Script σ ε β) :
    ((Pure.pure a : Script σ ε α) >>= k) = k a :=
  rfl

/-- What a kill can leave of the first part, it can leave of the whole. -/
theorem mem_trail_bind {x : Script σ ε α} {k : α → Script σ ε β} {s s' : σ}
    (h : s' ∈ x.trail s) : s' ∈ (x >>= k).trail s := by
  induction x generalizing s with
  | pure a =>
    rw [List.mem_singleton.mp h]
    exact mem_trail_self (k a) s
  | raise => exact h
  | act f rest ih =>
    rcases List.mem_cons.mp h with rfl | h
    · exact List.mem_cons_self
    · exact List.mem_cons_of_mem _ (ih h)
  | look next ih => exact ih s h

theorem mem_trail_bind_ok {x : Script σ ε α} {k : α → Script σ ε β} {s s₁ s' : σ} {a : α}
    (hrun : x.run s = (.ok a, s₁)) (h : s' ∈ (k a).trail s₁) : s' ∈ (x >>= k).trail s := by
  induction x generalizing s with
  | pure b =>
    obtain ⟨hb, rfl⟩ := Prod.mk.inj hrun
    exact Except.ok.inj hb ▸ h
  | raise => cases (Prod.mk.inj hrun).1
  | act f rest ih => exact List.mem_cons_of_mem _ (ih hrun)
  | look next ih => exact ih s hrun

/-! ## What a script depends on and what it leaves alone -/

/-- Two stores that `r` relates are the same to the script, and it keeps them related. -/
def Local (r : σ → σ → Prop) : Script σ ε α → Prop
  | .pure _ | .raise _ => True
  | .act f rest => (∀ s t, r s t → r (f s) (f t)) ∧ rest.Local r
  | .look next => (∀ s t, r s t → next s = next t) ∧ ∀ s, (next s).Local r

/-- No action of the script makes a difference to `r`. -/
def Leaves (r : σ → σ → Prop) : Script σ ε α → Prop
  | .pure _ | .raise _ => True
  | .act f rest => (∀ s, r s (f s)) ∧ rest.Leaves r
  | .look next => ∀ s, (next s).Leaves r

variable {r : σ → σ → Prop}

theorem Local.bind {x : Script σ ε α} {k : α → Script σ ε β} (hx : x.Local r)
    (hk : ∀ a, (k a).Local r) : (x >>= k).Local r := by
  induction x with
  | pure a => exact hk a
  | raise => trivial
  | act f rest ih => exact ⟨hx.1, ih hx.2⟩
  | look next ih =>
    refine ⟨fun s t hst => ?_, fun s => ih s (hx.2 s)⟩
    show (next s).bind k = (next t).bind k
    rw [hx.1 s t hst]

theorem Leaves.bind {x : Script σ ε α} {k : α → Script σ ε β} (hx : x.Leaves r)
    (hk : ∀ a, (k a).Leaves r) : (x >>= k).Leaves r := by
  induction x with
  | pure a => exact hk a
  | raise => trivial
  | act f rest ih => exact ⟨hx.1, ih hx.2⟩
  | look next ih => exact fun s => ih s (hx s)

theorem Local.change {f : σ → σ} (h : ∀ s t, r s t → r (f s) (f t)) :
    (Script.change f : Script σ ε Unit).Local r :=
  ⟨h, trivial⟩

theorem Leaves.change {f : σ → σ} (h : ∀ s, r s (f s)) :
    (Script.change f : Script σ ε Unit).Leaves r :=
  ⟨h, trivial⟩

theorem Local.get {f : σ → α} (h : ∀ s t, r s t → f s = f t) :
    (Script.get f : Script σ ε α).Local r :=
  ⟨fun s t hst => congrArg Script.pure (h s t hst), fun _ => trivial⟩

theorem Leaves.get {f : σ → α} : (Script.get f : Script σ ε α).Leaves r :=
  fun _ => trivial

/-- What a script makes no difference to is kept all along. -/
theorem Leaves.wp_frame {x : Script σ ε α} {keep : σ → Prop} (hx : x.Leaves r)
    (hkeep : ∀ s t, r s t → keep s → keep t) (hs : keep s) (h : x.wp cut post s) :
    x.wp (fun s => cut s ∧ keep s) (fun a s => post a s ∧ keep s) s := by
  induction x generalizing s with
  | pure => exact ⟨⟨h.1, hs⟩, h.2, hs⟩
  | raise => exact ⟨h, hs⟩
  | act f rest ih => exact ⟨⟨h.1, hs⟩, ih hx.2 (hkeep s (f s) (hx.1 s) hs) h.2⟩
  | look next ih => exact ih s (hx s) hs h

theorem Leaves.trail_keeps {x : Script σ ε α} {keep : σ → Prop} {s : σ} (hx : x.Leaves r)
    (hkeep : ∀ s t, r s t → keep s → keep t) (hs : keep s) : ∀ s' ∈ x.trail s, keep s' := by
  induction x generalizing s with
  | pure | raise =>
    intro s' h
    rw [List.mem_singleton.mp h]
    exact hs
  | act f rest ih =>
    intro s' h
    rcases List.mem_cons.mp h with rfl | h
    · exact hs
    · exact ih hx.2 (hkeep s (f s) (hx.1 s) hs) s' h
  | look next ih => exact ih s (hx s) hs

/-- What a script guarantees from one store it guarantees from every related one. -/
theorem Local.wp_congr {x : Script σ ε α} {s t : σ} (hx : x.Local r) (hst : r s t)
    (hcut : ∀ s t, r s t → cut s → cut t) (hpost : ∀ a s t, r s t → post a s → post a t)
    (h : x.wp cut post s) : x.wp cut post t := by
  induction x generalizing s t with
  | pure a => exact ⟨hcut s t hst h.1, hpost a s t hst h.2⟩
  | raise => exact hcut s t hst h
  | act f rest ih => exact ⟨hcut s t hst h.1, ih hx.2 (hx.1 s t hst) h.2⟩
  | look next ih =>
    show (next t).wp cut post t
    rw [← hx.1 s t hst]
    exact ih s (hx.2 s) hst h

end Script

/-! ## Two scripts in step -/

namespace Script

variable {σ τ ε α β : Type} {r : σ → τ → Prop}

/-- The scripts do the same, action by action, to two stores that `r` relates. -/
def Sim (r : σ → τ → Prop) : Script σ ε α → Script τ ε α → Prop
  | .pure a, .pure b => a = b
  | .raise error, .raise error' => error = error'
  | .act f x, .act g y => (∀ s t, r s t → r (f s) (g t)) ∧ x.Sim r y
  | .look next, .look next' => ∀ s t, r s t → (next s).Sim r (next' t)
  | _, _ => False

theorem Sim.bind {x : Script σ ε α} {y : Script τ ε α} {k : α → Script σ ε β}
    {l : α → Script τ ε β} (hxy : x.Sim r y) (hkl : ∀ a, (k a).Sim r (l a)) :
    (x >>= k).Sim r (y >>= l) := by
  induction x generalizing y with
  | pure a =>
    cases y with
    | pure b => exact (show a = b from hxy) ▸ hkl a
    | raise | act | look => exact hxy.elim
  | raise =>
    cases y with
    | raise => exact hxy
    | pure | act | look => exact hxy.elim
  | act f x ih =>
    cases y with
    | act g y => exact ⟨hxy.1, ih hxy.2⟩
    | pure | raise | look => exact hxy.elim
  | look next ih =>
    cases y with
    | look next' => exact fun s t hst => ih s (hxy s t hst)
    | pure | raise | act => exact hxy.elim

theorem Sim.change {f : σ → σ} {g : τ → τ} (h : ∀ s t, r s t → r (f s) (g t)) :
    (Script.change f : Script σ ε Unit).Sim r (Script.change g) :=
  ⟨h, rfl⟩

theorem Sim.symm {x : Script σ ε α} {y : Script τ ε α} (hxy : x.Sim r y) :
    y.Sim (fun t s => r s t) x := by
  induction x generalizing y with
  | pure a =>
    cases y with
    | pure b => exact Eq.symm hxy
    | raise | act | look => exact hxy.elim
  | raise =>
    cases y with
    | raise => exact Eq.symm hxy
    | pure | act | look => exact hxy.elim
  | act f x ih =>
    cases y with
    | act g y => exact ⟨fun t s hst => hxy.1 s t hst, ih hxy.2⟩
    | pure | raise | look => exact hxy.elim
  | look next ih =>
    cases y with
    | look next' => exact fun t s hst => ih s (hxy s t hst)
    | pure | raise | act => exact hxy.elim

/-- Where the one can be killed, the other can. -/
theorem Sim.wp {x : Script σ ε α} {y : Script τ ε α} {s : σ} {t : τ} (hxy : x.Sim r y)
    (hst : r s t) : x.wp (fun s' => ∃ t' ∈ y.trail t, r s' t') (fun _ _ => True) s := by
  induction x generalizing y s t with
  | pure => exact ⟨⟨t, mem_trail_self y t, hst⟩, trivial⟩
  | raise => exact ⟨t, mem_trail_self y t, hst⟩
  | act f x ih =>
    cases y with
    | act g y =>
      refine ⟨⟨t, List.mem_cons_self, hst⟩, ?_⟩
      refine wp_imp (ih hxy.2 (hxy.1 s t hst)) ?_
      rintro s' ⟨t', ht, hst'⟩
      exact ⟨t', List.mem_cons_of_mem _ ht, hst'⟩
    | pure | raise | look => exact hxy.elim
  | look next ih =>
    cases y with
    | look next' =>
      have hnext := ih s (hxy s t hst) hst
      exact hnext
    | pure | raise | act => exact hxy.elim

end Script

/-! ## Several scripts over one store -/

namespace Farm

open Transition

variable {σ ε ι : Type} [DecidableEq ι]

/-- The store, and what is left of the script each party is running. -/
structure State (σ ε ι : Type) where
  store : σ
  running : ι → Option (Script σ ε Unit)

/-- The parties take turns, action by action. A script ends when it returns, when it fails,
    and when it is killed. -/
inductive Step (programs : ι → Script σ ε Unit → Prop) (w : State σ ε ι) : State σ ε ι → Prop
  | start (i : ι) (x : Script σ ε Unit) (idle : w.running i = none) (program : programs i x) :
      Step programs w { w with running := Function.update w.running i (some x) }
  | act (i : ι) (f : σ → σ) (rest : Script σ ε Unit) (at_ : w.running i = some (.act f rest)) :
      Step programs w ⟨f w.store, Function.update w.running i (some rest)⟩
  | look (i : ι) (next : σ → Script σ ε Unit) (at_ : w.running i = some (.look next)) :
      Step programs w { w with running := Function.update w.running i (some (next w.store)) }
  | stop (i : ι) : Step programs w { w with running := Function.update w.running i none }

def system (programs : ι → Script σ ε Unit → Prop) (store : σ) : System (State σ ε ι) where
  init w := w = ⟨store, fun _ => none⟩
  next := Step programs

variable {programs : ι → Script σ ε Unit → Prop} {store : σ}

/-- A party that runs alone can be killed after any action. -/
theorem reachable_trail {w : State σ ε ι} {i : ι} {x : Script σ ε Unit} {s : σ}
    (hw : (system programs store).Reachable w) (idle : w.running i = none)
    (program : programs i x) (hs : s ∈ x.trail w.store) :
    (system programs store).Reachable { w with store := s } := by
  have hback : ∀ y, Function.update (Function.update w.running i y) i none = w.running := by
    intro y
    rw [Function.update_idem, ← idle, Function.update_eq_self]
  -- From wherever the script stands, it goes on or is killed.
  have hgo : ∀ (y : Script σ ε Unit) (t : σ),
      (system programs store).Reachable ⟨t, Function.update w.running i (some y)⟩ →
      s ∈ y.trail t → (system programs store).Reachable { w with store := s } := by
    intro y
    induction y with
    | pure | raise =>
      intro t ht hs
      obtain rfl := List.mem_singleton.mp hs
      have hstop := ht.next (.stop i)
      rwa [hback] at hstop
    | act f rest ih =>
      intro t ht hs
      rcases List.mem_cons.mp hs with rfl | hs
      · have hstop := ht.next (.stop i)
        rwa [hback] at hstop
      · refine ih (f t) ?_ hs
        have hact := ht.next (.act i f rest (Function.update_self ..))
        rwa [Function.update_idem] at hact
    | look next ih =>
      intro t ht hs
      refine ih t t ?_ hs
      have hlook := ht.next (.look i next (Function.update_self ..))
      rwa [Function.update_idem] at hlook
  exact hgo x w.store (hw.next (.start i x idle program)) hs

/-- What one script was is what they all are, after one of them has moved. -/
theorem forall_update {running : ι → Option (Script σ ε Unit)}
    {P : ι → Script σ ε Unit → Prop} {i : ι} {y : Option (Script σ ε Unit)}
    (h : ∀ j x, j ≠ i → running j = some x → P j x) (hy : ∀ x, y = some x → P i x) :
    ∀ j x, Function.update running i y j = some x → P j x := by
  intro j x hx
  by_cases heq : j = i
  · subst heq
    rw [Function.update_self] at hx
    exact hy x hx
  · rw [Function.update_of_ne heq] at hx
    exact h j x heq hx

/-- The script of `i` keeps the invariant from here, and the others leave it alone. -/
def Fit (i : ι) (inv : σ → Prop) (r : σ → σ → Prop) (s : σ) (j : ι)
    (x : Script σ ε Unit) : Prop :=
  (j = i → x.wp inv (fun _ => inv) s ∧ x.Local r) ∧ (j ≠ i → x.Leaves r)

/-- **What a party keeps alone it keeps among the others**, when they make no difference to
    what it depends on. -/
theorem interleaved {i : ι} {inv : σ → Prop} {r : σ → σ → Prop}
    (keeps : ∀ x, programs i x → ∀ s, inv s → x.wp inv (fun _ => inv) s)
    (own : ∀ x, programs i x → x.Local r)
    (others : ∀ j, j ≠ i → ∀ x, programs j x → x.Leaves r)
    (congr : ∀ s t, r s t → inv s → inv t) (start : inv store) {w : State σ ε ι}
    (hw : (system programs store).Reachable w) : inv w.store := by
  have hind : (system programs store).Inductive fun w => inv w.store ∧
      ∀ j x, w.running j = some x → Fit i inv r w.store j x :=
    { start := by
        rintro _ rfl
        exact ⟨start, fun j x hx => by cases hx⟩
      step := by
        rintro w _ _ ⟨hinv, hfit⟩ hstep
        cases hstep with
        | start j x idle program =>
          refine ⟨hinv, forall_update (fun k y _ => hfit k y) ?_⟩
          rintro _ ⟨rfl⟩
          constructor
          · rintro rfl
            exact ⟨keeps x program w.store hinv, own x program⟩
          · exact fun hne => others j hne x program
        | act j f rest at_ =>
          obtain ⟨hown, hother⟩ := hfit j _ at_
          by_cases heq : j = i
          · obtain ⟨hwp, hlocal⟩ := hown heq
            refine ⟨Script.wp_cut hwp.2, forall_update (fun k y hk hy => ?_) ?_⟩
            · exact ⟨fun h => absurd (h.trans heq.symm) hk, (hfit k y hy).2⟩
            · rintro _ ⟨rfl⟩
              exact ⟨fun _ => ⟨hwp.2, hlocal.2⟩, fun hne => absurd heq hne⟩
          · -- Another's action: for `i` the store is still the same one.
            have hrel := (hother heq).1 w.store
            refine ⟨congr _ _ hrel hinv, forall_update (fun k y _ hy => ?_) ?_⟩
            · refine ⟨fun hk => ?_, (hfit k y hy).2⟩
              obtain ⟨hwp, hlocal⟩ := (hfit k y hy).1 hk
              exact ⟨hlocal.wp_congr hrel congr (fun _ => congr) hwp, hlocal⟩
            · rintro _ ⟨rfl⟩
              exact ⟨fun h => absurd h heq, fun _ => (hother heq).2⟩
        | look j next at_ =>
          obtain ⟨hown, hother⟩ := hfit j _ at_
          refine ⟨hinv, forall_update (fun k y _ => hfit k y) ?_⟩
          rintro _ ⟨rfl⟩
          refine ⟨fun heq => ?_, fun hne => hother hne w.store⟩
          exact ⟨(hown heq).1, (hown heq).2.2 w.store⟩
        | stop j =>
          refine ⟨hinv, forall_update (fun k y _ => hfit k y) ?_⟩
          intro x hx
          cases hx }
  exact (hind.reachable hw).1

/-! ## A party that rests -/

/-- A party that is not running, or whose script has come to its end. -/
inductive Quiet : Option (Script σ ε Unit) → Prop
  | idle : Quiet none
  | returned : Quiet (some (.pure ()))
  | raised (error : ε) : Quiet (some (.raise error))

section

variable {r : σ → σ → Prop} {w w' : State σ ε ι}

/-- What the programs of the others leave alone, what is left of them leaves alone. -/
theorem running_leaves {i : ι} (others : ∀ j, j ≠ i → ∀ x, programs j x → x.Leaves r)
    (hw : (system programs store).Reachable w) :
    ∀ j x, w.running j = some x → j ≠ i → x.Leaves r := by
  have hind : (system programs store).Inductive fun w =>
      ∀ j x, w.running j = some x → j ≠ i → x.Leaves r :=
    { start := by
        intro _ hstart
        obtain rfl := hstart
        intro j x hx
        cases hx
      step := by
        intro w w' _ hall hstep
        cases hstep with
        | start j x idle program =>
          refine forall_update (fun k y _ => hall k y) ?_
          intro y hy hne
          obtain rfl := Option.some.inj hy
          exact others j hne x program
        | act j f rest at_ =>
          refine forall_update (fun k y _ => hall k y) ?_
          intro y hy hne
          obtain rfl := Option.some.inj hy
          exact (hall j _ at_ hne).2
        | look j next at_ =>
          refine forall_update (fun k y _ => hall k y) ?_
          intro y hy hne
          obtain rfl := Option.some.inj hy
          exact hall j _ at_ hne w.store
        | stop j =>
          refine forall_update (fun k y _ => hall k y) ?_
          intro y hy
          cases hy }
  exact hind.reachable hw

/-- A party that runs alone comes to its end. -/
theorem runs_alone {cond : State σ ε ι → State σ ε ι → Prop} {i : ι} {x : Script σ ε Unit} {s : σ}
    (idle : w.running i = none) (program : programs i x)
    (hstart : cond w { w with running := Function.update w.running i (some x) })
    (hgoes : ∀ t y t' z, cond ⟨t, Function.update w.running i (some y)⟩
      ⟨t', Function.update w.running i (some z)⟩)
    (hrun : x.run w.store = (.ok (), s)) :
    Relation.ReflTransGen ((system programs store).restrict cond).next w
      ⟨s, Function.update w.running i (some (.pure ()))⟩ := by
  have hgo : ∀ (y : Script σ ε Unit) (t : σ), y.run t = (.ok (), s) →
      Relation.ReflTransGen ((system programs store).restrict cond).next
        ⟨t, Function.update w.running i (some y)⟩
        ⟨s, Function.update w.running i (some (.pure ()))⟩ := by
    intro y
    induction y with
    | pure =>
      intro t hrun
      obtain rfl := (Prod.mk.inj hrun).2
      exact .refl
    | raise =>
      intro t hrun
      cases (Prod.mk.inj hrun).1
    | act f rest ih =>
      intro t hrun
      have hact : Step programs ⟨t, Function.update w.running i (some (.act f rest))⟩
          ⟨f t, Function.update (Function.update w.running i (some (.act f rest))) i
            (some rest)⟩ := .act i f rest (Function.update_self ..)
      rw [Function.update_idem] at hact
      exact .head ⟨hact, hgoes _ _ _ _⟩ (ih (f t) hrun)
    | look next ih =>
      intro t hrun
      have hlook : Step programs ⟨t, Function.update w.running i (some (.look next))⟩
          ⟨t, Function.update (Function.update w.running i (some (.look next))) i
            (some (next t))⟩ := .look i next (Function.update_self ..)
      rw [Function.update_idem] at hlook
      exact .head ⟨hlook, hgoes _ _ _ _⟩ (ih t t hrun)
  exact .head ⟨.start i x idle program, hstart⟩ (hgo x w.store hrun)

/-- **While a party rests**, what the others leave alone is kept. -/
theorem undisturbed {i : ι} {keep : σ → Prop}
    (others : ∀ j, j ≠ i → ∀ x, programs j x → x.Leaves r)
    (congr : ∀ s t, r s t → keep s → keep t) (hw : (system programs store).Reachable w)
    (hrest : Relation.ReflTransGen
      ((system programs store).restrict fun s _ => Quiet (s.running i)).next w w')
    (hkeep : keep w.store) : keep w'.store := by
  have hboth : (system programs store).Reachable w' ∧ keep w'.store := by
    induction hrest with
    | refl => exact ⟨hw, hkeep⟩
    | @tail s s' _ hnext ih =>
      obtain ⟨hreach, hkeep⟩ := ih
      obtain ⟨hnext, hquiet⟩ := hnext
      refine ⟨hreach.next hnext, ?_⟩
      cases hnext with
      | act j f rest at_ =>
        by_cases heq : j = i
        · rw [← heq, at_] at hquiet
          cases hquiet
        · exact congr _ _ ((running_leaves others hreach j _ at_ heq).1 s.store) hkeep
      | start | look | stop => exact hkeep
  exact hboth.2

/-- **What a script guarantees when it returns** it guarantees among the others, in the runs
    in which it starts where it can guarantee it. -/
theorem returned {i : ι} {cut post : σ → Prop} {cond : State σ ε ι → State σ ε ι → Prop}
    (starts : ∀ w w' x, (system programs store).Reachable w → cond w w' → programs i x →
      w.running i = none → w'.running i = some x → x.wp cut (fun _ => post) w.store)
    (own : ∀ x, programs i x → x.Local r)
    (others : ∀ j, j ≠ i → ∀ x, programs j x → x.Leaves r)
    (congr : ∀ s t, r s t → cut s → cut t) (congrPost : ∀ s t, r s t → post s → post t)
    (hw : ((system programs store).restrict cond).Reachable w)
    (hend : w.running i = some (.pure ())) : post w.store := by
  have hind : ((system programs store).restrict cond).Inductive fun w => ∀ j x,
      w.running j = some x → j = i → x.wp cut (fun _ => post) w.store ∧ x.Local r :=
    { start := by
        intro _ hstart
        obtain rfl := hstart
        intro j x hx
        cases hx
      step := by
        intro w w' hreach hall hnext
        obtain ⟨hstep, hcond⟩ := hnext
        have hreach := hreach.of_restrict
        cases hstep with
        | start j x idle program =>
          refine forall_update (fun k y _ => hall k y) ?_
          intro y hy heq
          obtain rfl := Option.some.inj hy
          subst heq
          exact ⟨starts w _ x hreach hcond program idle (Function.update_self ..), own x program⟩
        | act j f rest at_ =>
          refine forall_update (fun k y hk hy heq => ?_) ?_
          · -- Another's action: for `i` the store is still the same one.
            subst heq
            obtain ⟨hwp, hlocal⟩ := hall k y hy rfl
            have hrel := (running_leaves others hreach j _ at_ (Ne.symm hk)).1 w.store
            exact ⟨hlocal.wp_congr hrel congr (fun _ => congrPost) hwp, hlocal⟩
          · intro y hy heq
            obtain rfl := Option.some.inj hy
            obtain ⟨hwp, hlocal⟩ := hall j _ at_ heq
            exact ⟨hwp.2, hlocal.2⟩
        | look j next at_ =>
          refine forall_update (fun k y _ => hall k y) ?_
          intro y hy heq
          obtain rfl := Option.some.inj hy
          obtain ⟨hwp, hlocal⟩ := hall j _ at_ heq
          exact ⟨hwp, hlocal.2 w.store⟩
        | stop j =>
          refine forall_update (fun k y _ => hall k y) ?_
          intro y hy
          cases hy }
  exact (hind.reachable hw i _ hend rfl).1.2

end

end Farm
