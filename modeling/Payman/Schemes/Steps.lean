import Mathlib.Logic.Relation

/-! Runs given as lists of labels.

    A run is a sequence of steps whose labels a predicate admits in the states where they are taken.
    From a list of labels both the run and its predicate can be computed. -/

namespace Schemes

variable {S L : Type} {step : S → L → Option S} {ok : S → L → Prop}

/-- A run of the steps that `ok` admits. -/
abbrev Run (step : S → L → Option S) (ok : S → L → Prop) : S → S → Prop :=
  Relation.ReflTransGen fun s s' => ∃ l, ok s l ∧ step s l = some s'

/-- Take the steps of a list. -/
def steps (step : S → L → Option S) : S → List L → Option S
  | s, [] => some s
  | s, l :: ls => (step s l).bind fun s' => steps step s' ls

/-- Every step of the list is taken in a state where `ok` holds of it. -/
def Allowed (step : S → L → Option S) (ok : S → L → Prop) : S → List L → Prop
  | _, [] => True
  | s, l :: ls => ok s l ∧ ∀ s' ∈ step s l, Allowed step ok s' ls

instance Allowed.decidable [∀ s l, Decidable (ok s l)] :
    ∀ (s : S) (ls : List L), Decidable (Allowed step ok s ls)
  | _, [] => isTrue trivial
  | s, l :: ls =>
    have : ∀ s', Decidable (Allowed step ok s' ls) := fun s' => Allowed.decidable s' ls
    inferInstanceAs (Decidable (ok s l ∧ ∀ s' ∈ step s l, Allowed step ok s' ls))

theorem Allowed.always : ∀ (ls : List L) (s : S), Allowed step (fun _ _ => True) s ls
  | [], _ => trivial
  | _ :: ls, _ => ⟨trivial, fun s' _ => Allowed.always ls s'⟩

/-- A run under a condition is one under a weaker condition. -/
theorem Run.weaken {ok' : S → L → Prop} {s s' : S} (himp : ∀ s l, ok s l → ok' s l)
    (h : Run step ok s s') : Run step ok' s s' :=
  Relation.ReflTransGen.mono (fun _ _ ⟨l, hl, hstep⟩ => ⟨l, himp _ l hl, hstep⟩) _ _ h

/-- CORRECT: the list leads along a run. -/
theorem run_of_steps : ∀ {ls : List L} {s s' : S}, steps step s ls = some s' →
    Allowed step ok s ls → Run step ok s s'
  | [], _, _, h, _ => by cases h; exact .refl
  | l :: ls, s, s', h, ⟨hl, hrest⟩ => by
    obtain ⟨s₁, hstep, h⟩ := Option.bind_eq_some_iff.mp h
    exact .head ⟨l, hl, hstep⟩ (run_of_steps h (hrest s₁ hstep))

end Schemes
