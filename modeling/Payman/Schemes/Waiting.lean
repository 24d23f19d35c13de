import Payman.Schemes.Sessions
import Mathlib.Data.Nat.Notation
import Mathlib.Logic.Relation

/-! Who waits for whom.

    A lock table is tight if every lock in it was taken by an open transaction, so that who holds a
    lock can be asked for its transaction. Waiting is ranked if it only ever leads downwards, except
    among the members of a class that share a rank: then every cycle lies in that class, and where
    the class is empty each chain of waiting ends with somebody who waits for nobody. -/

namespace Schemes

namespace Sessions
variable {P τ W DB K : Type} [RowWrite W DB K] {s : Sessions P τ W} {p : P}

/-- Every lock in the table is held by an open transaction that has taken it. -/
def Tight (s : Sessions P τ W) : Prop :=
  ∀ k p, s.owner k = some p → ∃ tx, s.txs p = some tx ∧ k ∈ lockSet tx.writes

theorem tight_idle (db : DB) : (idle db : Sessions P τ W).Tight := fun _ _ h => nomatch h

theorem Tight.autocommit (h : s.Tight) (ws : List W) : (s.autocommit ws).Tight := h

variable [DecidableEq P]

/-- Who keeps its locks keeps its transaction. -/
theorem Tight.other (h : s.Tight) {k : K} {q : P} (hk : s.released p k = some q) :
    q ≠ p ∧ ∃ tx, s.txs q = some tx ∧ k ∈ lockSet tx.writes := by
  unfold released at hk
  split at hk
  · cases hk
  · rename_i hne
    exact ⟨fun hqp => hne (hqp ▸ hk), h k q hk⟩

theorem Tight.close (h : s.Tight) (p : P) (db : DB) : (s.close p db).Tight := by
  intro k q hk
  obtain ⟨hne, tx, htx, hmem⟩ := h.other hk
  exact ⟨tx, (Function.update_of_ne hne ..).trans htx, hmem⟩

theorem Tight.start (h : s.Tight) (p : P) (t : τ) : (s.start p t).Tight := by
  intro k q hk
  obtain ⟨hne, tx, htx, hmem⟩ := h.other hk
  exact ⟨tx, (Function.update_of_ne hne ..).trans htx, hmem⟩

theorem Tight.stage [DecidableEq K] (h : s.Tight) {tx : Tx τ W} {ws : List W}
    (htx : s.txs p = some tx) (hfree : s.Free p ws) : (s.stage p tx ws htx hfree).Tight := by
  intro k q hk
  have hk' : (if k ∈ lockSet ws then some p else s.owner k) = some q := hk
  by_cases hqp : q = p
  · subst hqp
    refine ⟨_, Function.update_self .., ?_⟩
    rw [lockSet_append, List.mem_append]
    split at hk'
    · rename_i hmem
      exact .inr hmem
    · obtain ⟨tx', htx', hmem⟩ := h k q hk'
      cases htx.symm.trans htx'
      exact .inl hmem
  · split at hk'
    · exact absurd (Option.some.inj hk').symm hqp
    · obtain ⟨tx', htx', hmem⟩ := h k q hk'
      exact ⟨tx', (Function.update_of_ne hqp ..).trans htx', hmem⟩

end Sessions

/-! ### Ranks -/

variable {α : Type} {R : α → α → Prop} {rank : α → ℕ} {E : α → Prop}

/-- `R` leads downwards, or from one member of `E` to another of the same rank. -/
def Ranked (R : α → α → Prop) (rank : α → ℕ) (E : α → Prop) : Prop :=
  ∀ x y, R x y → rank y < rank x ∨ (rank y = rank x ∧ E x ∧ E y)

/-- So does a chain of it. -/
theorem Ranked.trans (h : Ranked R rank E) : Ranked (Relation.TransGen R) rank E := by
  intro x y hxy
  induction hxy with
  | single hxy => exact h _ _ hxy
  | tail _ hyz ih =>
    rcases ih with hlt | ⟨heq, hx, -⟩ <;> rcases h _ _ hyz with hlt' | ⟨heq', -, hz⟩
    · exact .inl (Nat.lt_trans hlt' hlt)
    · exact .inl (heq' ▸ hlt)
    · exact .inl (heq ▸ hlt')
    · exact .inr ⟨heq'.trans heq, hx, hz⟩

/-- Every cycle lies in `E`. -/
theorem Ranked.cycle (h : Ranked R rank E) {x : α} (hx : Relation.TransGen R x x) : E x := by
  rcases h.trans x x hx with hlt | ⟨-, he, -⟩
  · exact absurd hlt (Nat.lt_irrefl _)
  · exact he

/-- From everywhere a chain leads to a member of `E` or comes to an end. -/
theorem Ranked.ends (h : Ranked R rank E) (x : α) :
    ∃ y, Relation.ReflTransGen R x y ∧ (E y ∨ ∀ z, ¬R y z) := by
  induction hn : rank x using Nat.strongRecOn generalizing x with
  | ind n ih =>
    by_cases hx : ∃ y, R x y
    · obtain ⟨y, hxy⟩ := hx
      rcases h x y hxy with hlt | ⟨-, he, -⟩
      · obtain ⟨z, hyz, hz⟩ := ih (rank y) (hn ▸ hlt) y rfl
        exact ⟨z, .head hxy hyz, hz⟩
      · exact ⟨x, .refl, .inl he⟩
    · exact ⟨x, .refl, .inr fun z hz => hx ⟨z, hz⟩⟩

end Schemes
