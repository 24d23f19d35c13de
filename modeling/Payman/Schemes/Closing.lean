import Mathlib.Logic.Relation

/-! Closing an open system.

    An open system is studied against an environment that keeps to a record fixed in advance. The
    environment that is really there writes its record as it goes. If the record only ever grows,
    the last one can be taken for the one that was fixed: every run of the closed system is, for
    its open part, a run against the record in which it ends. -/

namespace Schemes
open Relation

variable {C A B : Type} {step : C → C → Prop} {inv : C → Prop} {part : C → A} {record : C → B}
  {le : B → B → Prop} {moves : B → A → A → Prop}

/-- What has to be shown of the steps of the closed system: they keep an invariant, let the record
    grow, and are steps of the open part against every later record, or none of its steps. -/
structure Closes (step : C → C → Prop) (inv : C → Prop) (part : C → A) (record : C → B)
    (le : B → B → Prop) (moves : B → A → A → Prop) : Prop where
  refl : ∀ b, le b b
  trans : ∀ a b c, le a b → le b c → le a c
  keeps : ∀ c c', inv c → step c c' → inv c'
  grows : ∀ c c', inv c → step c c' → le (record c) (record c')
  moves : ∀ c c' b, inv c → step c c' → le (record c') b →
    part c' = part c ∨ moves b (part c) (part c')

namespace Closes

/-- The run lemma. -/
theorem run (h : Closes step inv part record le moves) {c c' : C} (hc : inv c)
    (hrun : ReflTransGen step c c') : inv c' ∧ le (record c) (record c') ∧
      ∀ b, le (record c') b → ReflTransGen (moves b) (part c) (part c') := by
  induction hrun with
  | refl => exact ⟨hc, h.refl _, fun _ _ => .refl⟩
  | @tail c' c'' _ hstep ih =>
    obtain ⟨hc', hle, hmoves⟩ := ih
    have hgrows := h.grows c' c'' hc' hstep
    refine ⟨h.keeps c' c'' hc' hstep, h.trans _ _ _ hle hgrows, fun b hb => ?_⟩
    have hrest := hmoves b (h.trans _ _ _ hgrows hb)
    rcases h.moves c' c'' b hc' hstep hb with heq | hmove
    · rw [heq]
      exact hrest
    · exact .tail hrest hmove

/-- A run of the closed system is a run of its open part against the record in which it ends. -/
theorem project (h : Closes step inv part record le moves) {c c' : C} (hc : inv c)
    (hrun : ReflTransGen step c c') : ReflTransGen (moves (record c')) (part c) (part c') :=
  (h.run hc hrun).2.2 _ (h.refl _)

end Closes

end Schemes
