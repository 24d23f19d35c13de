import Mathlib.Logic.Function.Basic

/-! Database sessions at READ COMMITTED.

    A session sees the committed database plus its own uncommitted writes. Writing a row takes the
    row's lock until the session commits or rolls back, and a session cannot write what another one
    has locked. A transaction's writes reach the committed database together, at commit.

    The lock table gives every key at most one holder, so two sessions can never hold uncommitted
    writes of one row; `held` says that a session holds the locks of what it has written. -/

namespace Schemes

/-- Row-level writes: what each does to the database and the keys it locks. -/
class RowWrite (W : Type) (DB K : outParam Type) where
  apply : DB → W → DB
  locks : W → List K

section
variable {W DB K : Type} [RowWrite W DB K]

/-- The database after a list of writes. -/
def applyAll (db : DB) (ws : List W) : DB := ws.foldl RowWrite.apply db

/-- All keys that a list of writes locks. -/
def lockSet (ws : List W) : List K := ws.flatMap RowWrite.locks

@[simp] theorem applyAll_nil (db : DB) : applyAll db ([] : List W) = db := rfl

@[simp] theorem applyAll_cons (db : DB) (w : W) (ws : List W) :
    applyAll db (w :: ws) = applyAll (RowWrite.apply db w) ws := rfl

theorem applyAll_append (db : DB) (ws vs : List W) :
    applyAll db (ws ++ vs) = applyAll (applyAll db ws) vs := List.foldl_append

@[simp] theorem lockSet_nil : lockSet ([] : List W) = [] := rfl

@[simp] theorem lockSet_cons (w : W) (ws : List W) :
    lockSet (w :: ws) = RowWrite.locks w ++ lockSet ws := rfl

@[simp] theorem lockSet_append (ws vs : List W) :
    lockSet (ws ++ vs) = lockSet ws ++ lockSet vs := List.flatMap_append

/-- `f` reads nothing but what the lock on `k` protects. -/
def ReadsOnly {β : Type} (k : K) (f : DB → β) : Prop :=
  ∀ (db : DB) (w : W), k ∉ (RowWrite.locks w : List K) → f (RowWrite.apply db w) = f db

theorem ReadsOnly.applyAll {β : Type} {k : K} {f : DB → β} (h : ReadsOnly (W := W) k f) :
    ∀ (ws : List W) (db : DB), k ∉ lockSet ws → f (applyAll db ws) = f db
  | [], _, _ => rfl
  | w :: ws, db, hk => by
    rw [lockSet_cons, List.mem_append, not_or] at hk
    rw [applyAll_cons, h.applyAll ws _ hk.2, h db w hk.1]

end

/-- An open transaction: when it began and what it has written so far. -/
structure Tx (τ W : Type) where
  began : τ
  writes : List W

/-- The committed database, the open transactions and the lock table. -/
structure Sessions (P τ W : Type) {DB K : Type} [RowWrite W DB K] where
  db : DB
  txs : P → Option (Tx τ W)
  owner : K → Option P
  held : ∀ p tx, txs p = some tx → ∀ k ∈ lockSet tx.writes, owner k = some p

namespace Sessions
variable {P τ W DB K : Type} [RowWrite W DB K]

/-- No session is open on the database `db`. -/
def idle (db : DB) : Sessions P τ W where
  db := db
  txs := fun _ => none
  owner := fun _ => none
  held := fun _ _ h => nomatch h

/-- What session `p` reads: the committed rows and its own writes over them. -/
def view (s : Sessions P τ W) (p : P) : DB :=
  match s.txs p with
  | none => s.db
  | some tx => applyAll s.db tx.writes

/-- Nobody else holds a lock that `ws` needs. -/
def Free (s : Sessions P τ W) (p : P) (ws : List W) : Prop :=
  ∀ k ∈ lockSet ws, s.owner k = none ∨ s.owner k = some p

/-- What another session's step leaves alone: the session's own transaction, and whatever the locks
    it holds protect. -/
structure Frame (q : P) (s s' : Sessions P τ W) : Prop where
  tx : s'.txs q = s.txs q
  locked : ∀ tx, s.txs q = some tx → ∀ k ∈ lockSet tx.writes, ∀ {β : Type} (f : DB → β),
    ReadsOnly (W := W) k f → f s'.db = f s.db

theorem Frame.refl (q : P) (s : Sessions P τ W) : Frame q s s := ⟨rfl, fun _ _ _ _ _ _ _ => rfl⟩

theorem Frame.trans {q : P} {s s' s'' : Sessions P τ W} (h : Frame q s s') (h' : Frame q s' s'') :
    Frame q s s'' :=
  ⟨h'.tx.trans h.tx, fun tx htx k hk _ f hf =>
    (h'.locked tx (h.tx.trans htx) k hk f hf).trans (h.locked tx htx k hk f hf)⟩

/-- Writes that `p` may make touch nothing that another session has locked. -/
theorem Free.disjoint {s : Sessions P τ W} {p q : P} {ws : List W} (hfree : s.Free p ws)
    (hne : q ≠ p) {tx : Tx τ W} (htx : s.txs q = some tx) {k : K} (hk : k ∈ lockSet tx.writes) :
    k ∉ lockSet ws := by
  intro hw
  have ho := s.held q tx htx k hk
  rcases hfree k hw with h | h <;> rw [ho] at h
  · cases h
  · exact hne (Option.some.inj h)

/-- The locks of an open transaction are its own. -/
theorem free_writes {s : Sessions P τ W} {p : P} {tx : Tx τ W} (htx : s.txs p = some tx) :
    s.Free p tx.writes := fun k hk => .inr (s.held p tx htx k hk)

/-- A statement outside a transaction: its writes are committed at once. -/
def autocommit (s : Sessions P τ W) (ws : List W) : Sessions P τ W :=
  { s with db := applyAll s.db ws }

theorem frame_autocommit {s : Sessions P τ W} {p q : P} {ws : List W} (hfree : s.Free p ws)
    (hne : q ≠ p) : Frame q s (s.autocommit ws) :=
  ⟨rfl, fun _ htx _ hk _ _ hf => hf.applyAll ws s.db (hfree.disjoint hne htx hk)⟩

variable [DecidableEq P]

instance (s : Sessions P τ W) (p : P) (ws : List W) : Decidable (s.Free p ws) :=
  inferInstanceAs (Decidable (∀ k ∈ lockSet ws, _ ∨ _))

/-- The lock table after `p` let go of everything. -/
def released (s : Sessions P τ W) (p : P) (k : K) : Option P :=
  if s.owner k = some p then none else s.owner k

/-- End `p`'s transaction, leaving `db` as the committed database. -/
def close (s : Sessions P τ W) (p : P) (db : DB) : Sessions P τ W where
  db := db
  txs := Function.update s.txs p none
  owner := s.released p
  held := by
    intro q tx hq k hk
    by_cases hqp : q = p
    · subst hqp; simp at hq
    · rw [Function.update_of_ne hqp] at hq
      have ho := s.held q tx hq k hk
      rw [released, ho, if_neg (by simpa using hqp)]

/-- Open a transaction at time `t`; whatever `p` had open is rolled back. -/
def start (s : Sessions P τ W) (p : P) (t : τ) : Sessions P τ W where
  db := s.db
  txs := Function.update s.txs p (some ⟨t, []⟩)
  owner := s.released p
  held := by
    intro q tx hq k hk
    by_cases hqp : q = p
    · subst hqp
      rw [Function.update_self, Option.some.injEq] at hq
      subst hq; simp at hk
    · rw [Function.update_of_ne hqp] at hq
      have ho := s.held q tx hq k hk
      rw [released, ho, if_neg (by simpa using hqp)]

/-- Everything `p` has written becomes the committed state. -/
def commit (s : Sessions P τ W) (p : P) : Sessions P τ W := s.close p (s.view p)

/-- Everything `p` has written is dropped. -/
def rollback (s : Sessions P τ W) (p : P) : Sessions P τ W := s.close p s.db

/-- A session that has ended its transaction has none. -/
theorem txs_close (s : Sessions P τ W) (p : P) (db : DB) : (s.close p db).txs p = none :=
  Function.update_self ..

theorem txs_start (s : Sessions P τ W) (p : P) (t : τ) : (s.start p t).txs p = some ⟨t, []⟩ :=
  Function.update_self ..

theorem frame_start {s : Sessions P τ W} {p q : P} {t : τ} (hne : q ≠ p) :
    Frame q s (s.start p t) :=
  ⟨Function.update_of_ne hne .., fun _ _ _ _ _ _ _ => rfl⟩

theorem frame_rollback {s : Sessions P τ W} {p q : P} (hne : q ≠ p) : Frame q s (s.rollback p) :=
  ⟨Function.update_of_ne hne .., fun _ _ _ _ _ _ _ => rfl⟩

theorem frame_commit {s : Sessions P τ W} {p q : P} (hne : q ≠ p) : Frame q s (s.commit p) := by
  refine ⟨Function.update_of_ne hne .., fun tx htx k hk _ f hf => ?_⟩
  show f (s.view p) = f s.db
  unfold view
  cases hp : s.txs p with
  | none => rfl
  | some tx' => exact hf.applyAll tx'.writes s.db ((free_writes hp).disjoint hne htx hk)

variable [DecidableEq K]

/-- Write `ws` in `p`'s open transaction `tx`, taking the locks. -/
def stage (s : Sessions P τ W) (p : P) (tx : Tx τ W) (ws : List W) (htx : s.txs p = some tx)
    (hfree : s.Free p ws) : Sessions P τ W where
  db := s.db
  txs := Function.update s.txs p (some ⟨tx.began, tx.writes ++ ws⟩)
  owner := fun k => if k ∈ lockSet ws then some p else s.owner k
  held := by
    intro q tx' hq k hk
    by_cases hqp : q = p
    · subst hqp
      rw [Function.update_self, Option.some.injEq] at hq
      subst hq
      rw [lockSet_append, List.mem_append] at hk
      split
      · rfl
      · rename_i hn; exact s.held q tx htx k (hk.resolve_right hn)
    · rw [Function.update_of_ne hqp] at hq
      have ho := s.held q tx' hq k hk
      split
      · rename_i hw
        rcases hfree k hw with h | h <;> rw [ho] at h <;> simp_all
      · exact ho

theorem frame_stage {s : Sessions P τ W} {p q : P} {tx : Tx τ W} {ws : List W}
    (htx : s.txs p = some tx) (hfree : s.Free p ws) (hne : q ≠ p) :
    Frame q s (s.stage p tx ws htx hfree) :=
  ⟨Function.update_of_ne hne .., fun _ _ _ _ _ _ _ => rfl⟩

end Sessions

end Schemes
