import Psysmon.Lib.Run

/-!
# Psysmon.Lib.Refresh — a reader that an event wakes

A source has a view and an event.  A reader waits until the event is set or its wait times out, clears the event, and
then reads the view while the source goes on: what it has read is the view if that has not changed meanwhile, and can be
anything if it has.  It shows what it has read, or fails and goes back to waiting.

* `Announces`: a step of the source sets the event if it changes the view, or owes it to a later step.
* `Refreshed.current`: if every step announces and no reading fails, a reader that waits for an event which is neither set
  nor owed shows the view.
-/

namespace Psysmon.Lib

/-- A transition function with a view and an event; `take` is what the reader does to the source when it begins. -/
structure Source (σ α ε V : Type*) where
  step : σ → α → Option (σ × List ε)
  view : σ → V
  flag : σ → Bool
  take : σ → σ

inductive Reader
  | waiting
  /-- The view has changed since the reader began if `torn`. -/
  | reading (torn : Bool)
  deriving DecidableEq

/-- The view changes under the reader. -/
def Reader.disturb (changed : Bool) : Reader → Reader
  | .waiting => .waiting
  | .reading torn => .reading (torn || changed)

/-- A source with its reader and what that shows. -/
structure Refreshed (σ V : Type*) where
  source : σ
  reader : Reader
  shown : V

inductive RefreshLabel (α V : Type*)
  | produce (a : α)
  | begin
  | finish (page : V)
  | fail

namespace Refreshed

variable {σ α ε V : Type*} [DecidableEq V] (P : Source σ α ε V)

def step (s : Refreshed σ V) : RefreshLabel α V → Option (Refreshed σ V × List ε)
  | .produce a =>
    (P.step s.source a).map fun r =>
      ({ s with source := r.1, reader := s.reader.disturb (P.view r.1 ≠ P.view s.source) }, r.2)
  | .begin =>
    match s.reader with
    | .waiting => some ({ s with source := P.take s.source, reader := .reading false }, [])
    | .reading _ => none
  | .finish page =>
    match s.reader with
    | .waiting => none
    | .reading torn =>
      if torn = true ∨ page = P.view s.source then some ({ s with reader := .waiting, shown := page }, []) else none
  | .fail =>
    match s.reader with
    | .waiting => none
    | .reading _ => some ({ s with reader := .waiting }, [])

end Refreshed

section Announces

variable {σ α ε V : Type*} (P : Source σ α ε V) (owed : σ → Prop)

/-- From `s` to `s'` the view is the same, or the event is set, or somebody owes it; and no debt is forgotten. -/
structure Announces (s s' : σ) : Prop where
  view : P.view s' = P.view s ∨ P.flag s' = true ∨ owed s'
  flag : P.flag s = true → P.flag s' = true
  owed : owed s → owed s' ∨ P.flag s' = true

/-- The reader shows the view, or reads it undisturbed, or will be woken. -/
def Refreshed.Current (s : Refreshed σ V) : Prop :=
  (match s.reader with
    | .waiting => s.shown = P.view s.source
    | .reading torn => torn = false) ∨ P.flag s.source = true ∨ owed s.source

/-- The label is a step of the source that `Q` allows, or no failure. -/
def Refreshed.Sound (Q : σ → α → Prop) (s : Refreshed σ V) : RefreshLabel α V → Prop
  | .produce a => Q s.source a
  | .begin | .finish _ => True
  | .fail => False

instance (Q : σ → α → Prop) [∀ s a, Decidable (Q s a)] (s : Refreshed σ V) (l : RefreshLabel α V) :
    Decidable (Refreshed.Sound Q s l) :=
  match l with
  | .produce a => inferInstanceAs (Decidable (Q s.source a))
  | .begin => isTrue trivial
  | .finish _ => isTrue trivial
  | .fail => isFalse id

end Announces

namespace Refreshed

variable {σ α ε V : Type*} [DecidableEq V] {P : Source σ α ε V} {owed : σ → Prop} {s s' : Refreshed σ V}

theorem Current.produce (h : s.Current P owed) {t : σ} (ha : Announces P owed s.source t) :
    Current P owed { s with source := t, reader := s.reader.disturb (P.view t ≠ P.view s.source) } := by
  rcases h with h | hflag | howed
  · rcases ha.view with hview | hwill
    · -- nothing to see, so nothing is disturbed
      refine .inl ?_
      have hno : decide (P.view t ≠ P.view s.source) = false := decide_eq_false (not_not.mpr hview)
      rw [hno]
      cases hr : s.reader with
      | waiting =>
        rw [hr] at h
        exact h.trans hview.symm
      | reading torn =>
        rw [hr] at h
        exact (Bool.or_false torn).trans h
    · exact .inr hwill
  · exact .inr (.inl (ha.flag hflag))
  · exact .inr (ha.owed howed).symm

/-- **A reader that an event wakes is current.** -/
theorem current {Q : σ → α → Prop} {I : σ → Prop} (hI : ∀ t a t' o, I t → Q t a → P.step t a = some (t', o) → I t')
    (htake : ∀ t, I t → I (P.take t))
    (hann : ∀ t a t' o, I t → Q t a → P.step t a = some (t', o) → Announces P owed t t')
    {as : List (RefreshLabel α V)} {tr : List ε} (h0 : I s.source) (hcur : s.Current P owed)
    (hsound : Along (Refreshed.step P) (Sound Q) s as) (he : exec (Refreshed.step P) s as = some (s', tr)) :
    I s'.source ∧ s'.Current P owed := by
  refine exec_inv_state (fun t => I t.source ∧ t.Current P owed) (fun t a t' o h hQ hs => ?_) ⟨h0, hcur⟩ hsound he
  obtain ⟨hIt, hc⟩ := h
  cases a with
  | produce a =>
    obtain ⟨⟨u, o'⟩, hu, heq⟩ := Option.map_eq_some_iff.mp hs
    obtain ⟨rfl, rfl⟩ := Prod.mk.inj heq
    exact ⟨hI _ _ _ _ hIt hQ hu, hc.produce (hann _ _ _ _ hIt hQ hu)⟩
  | begin =>
    simp only [step] at hs
    split at hs
    · obtain ⟨rfl, rfl⟩ := Prod.mk.inj (Option.some.inj hs)
      exact ⟨htake _ hIt, .inl rfl⟩
    · cases hs
  | finish page =>
    simp only [step] at hs
    split at hs
    · cases hs
    · rename_i torn hr
      split at hs
      · rename_i hpage
        obtain ⟨rfl, rfl⟩ := Prod.mk.inj (Option.some.inj hs)
        refine ⟨hIt, hc.imp_left fun h => ?_⟩
        rw [hr] at h
        exact hpage.resolve_left (by rw [h]; exact Bool.false_ne_true)
      · cases hs
  | fail => cases hQ

end Refreshed

end Psysmon.Lib
