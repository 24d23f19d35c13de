import Payman.Safety.Turns

/-! No invoice is stuck in Processing.

    An invoice enters Processing together with a new pending attempt, and every outcome that moves
    an invoice is committed with the invoice's own state. Only the worker's guarded update may settle
    an attempt and leave the invoice alone, and then it has seen the attempt while the invoice was
    not being processed. So the invariant remembers an attempt that never existed at such a time:
    the one that took the invoice to Processing. -/

namespace Payman
open Schemes

variable {K : Setting} {T : Pid} {past : List Commit} {db : Db} {j : Job} {ws : List Write}
  {i : Uuid} {g : Ledger Uuid Uuid}

/-- Attempt `a` has existed only while invoice `i` was being processed. -/
def Within (past : List Commit) (a i : Uuid) : Prop :=
  ∀ c ∈ past, ∀ x, c.before.ledger.attempt a = some x →
    c.before.ledger.state i = some .Processing

/-- A pending attempt of invoice `i` that has existed only while `i` was being processed. -/
def Anchored (past : List Commit) (g : Ledger Uuid Uuid) (i : Uuid) : Prop :=
  ∃ a, g.attempt a = some (i, .Pending) ∧ Within past a i

theorem Within.cons {c : Commit} {a : Uuid} (h : Within past a i)
    (hc : c.before.ledger.state i = some .Processing) : Within (c :: past) a i := by
  intro c' hc' x hx
  rcases List.mem_cons.mp hc' with rfl | hc'
  · exact hc
  · exact h c' hc' x hx

/-- An invoice that still is in Processing after a move was not the one that moved. -/
theorem Ledger.processing_of_move {g : Ledger Uuid Uuid} {k : Uuid} {s : InvoiceState}
    (hs : s ≠ .Processing) (h : (g.move k s).state i = some .Processing) :
    i ≠ k ∧ g.state i = some .Processing := by
  rw [Ledger.move_state] at h
  split at h
  · exact absurd (Option.some.inj h) hs
  · rename_i hik
    exact ⟨hik, h⟩

/-- Marking the attempt of another invoice, or another attempt of this one. -/
theorem Anchored.mark {g : Ledger Uuid Uuid} {b k : Uuid} {st : PaymentStatus}
    (h : Anchored past g i) (hb : ¬(g.attempt b = some (i, .Pending) ∧ Within past b i)) :
    Anchored past (g.mark b k st) i := by
  obtain ⟨a, ha, hw⟩ := h
  refine ⟨a, ?_, hw⟩
  have hne : a ≠ b := by
    rintro rfl
    exact hb ⟨ha, hw⟩
  rw [Ledger.mark_attempt, if_neg hne, ha]

/-- The commit `c` of a change that leaves the invoice in Processing. -/
theorem Anchored.push {g : Ledger Uuid Uuid} {c : Commit} (h : Anchored past g i)
    (hc : c.before.ledger.state i = some .Processing) : Anchored (c :: past) g i := by
  obtain ⟨a, ha, hw⟩ := h
  exact ⟨a, ha, hw.cons hc⟩

/-- An invoice in Processing in the ledger has that state in its row. -/
theorem Db.processing_of_ledger (h : db.ledger.state i = some .Processing) :
    ∃ r, db.invoice i = some r ∧ r.state = .Processing := Option.map_eq_some_iff.mp h

/-- The ledger has an attempt under the invoice of its row. -/
theorem Db.invoice_of_ledger {a : Uuid} {row : AttemptRow} {st : PaymentStatus}
    (hrow : db.attempt a = some row) (ha : db.ledger.attempt a = some (i, st)) :
    row.invoice_id = i := by
  have heq := (Db.ledger_attempt hrow).symm.trans ha
  rw [Option.some.injEq, Prod.mk.injEq] at heq
  exact heq.1

/-- The attempt that the worker's guarded update settles alone has existed while its invoice was not
    being processed. -/
theorem not_within_of_was {row : AttemptRow} (hi : db.ledger.state i = some .Processing)
    (hwas : Was past db fun d => d.attempt row.id = some row ∧
      ∀ r, d.invoice row.invoice_id = some r → r.state ≠ .Processing)
    (hrow : row.invoice_id = i) : ¬Within past row.id i := by
  intro hw
  rcases hwas with ⟨-, hs⟩ | ⟨c, hc, ha, hs⟩
  · obtain ⟨r, hr, hproc⟩ := Db.processing_of_ledger hi
    exact hs r (hrow ▸ hr) hproc
  · obtain ⟨r, hr, hproc⟩ := Db.processing_of_ledger (hw c hc _ (Db.ledger_attempt ha))
    exact hs r (hrow ▸ hr) hproc

/-- CORRECT (step): a change of the ledger leaves every invoice in Processing anchored. -/
theorem Change.anchored (h : Change past db j ws g)
    (hnew : ∀ a, db.ledger.attempt a = none → ∀ c ∈ past, c.before.ledger.attempt a = none)
    (hold : db.ledger.state i = some .Processing → Anchored past db.ledger i)
    (hi : g.state i = some .Processing) : Anchored (⟨T, db, ws⟩ :: past) g i := by
  cases h with
  | entry he =>
    cases he with
    | stay => exact (hold hi).push hi
    | issue k hs =>
      obtain ⟨-, hi⟩ := Ledger.processing_of_move (by decide) hi
      exact (hold hi).push hi
    | finalize k hs =>
      obtain ⟨-, hi⟩ := Ledger.processing_of_move (by decide) hi
      exact (hold hi).push hi
    | void k hs =>
      obtain ⟨-, hi⟩ := Ledger.processing_of_move (by decide) hi
      exact (hold hi).push hi
    | start k a hs ha =>
      by_cases hik : i = k
      · subst hik
        refine ⟨a, (Ledger.mark_attempt ..).trans (if_pos rfl), ?_⟩
        intro c hc x hx
        rcases List.mem_cons.mp hc with rfl | hc
        · cases hx.symm.trans ha
        · cases hx.symm.trans (hnew a ha c hc)
      · rw [Ledger.mark_state, Ledger.move_state, if_neg hik] at hi
        refine ((hold hi).mark ?_).push hi
        rintro ⟨hb, -⟩
        cases ha.symm.trans hb
    | settle k a v ha =>
      have hv : v.state ≠ .Processing := by cases v <;> nofun
      obtain ⟨hik, hi⟩ := Ledger.processing_of_move hv hi
      refine ((hold hi).mark ?_).push hi
      rintro ⟨hb, -⟩
      cases ha.symm.trans hb
      exact hik rfl
  | finalize hj hr =>
    obtain ⟨-, hi⟩ := Ledger.processing_of_move (by decide) hi
    exact (hold hi).push hi
  | void hr hwas =>
    obtain ⟨-, hi⟩ := Ledger.processing_of_move (by decide) hi
    exact (hold hi).push hi
  | @settle k a row row' r r' o hrow hk hr hput hput' =>
    have ho : o.state ≠ .Processing := by cases o <;> nofun
    obtain ⟨hik, hi⟩ := Ledger.processing_of_move ho hi
    refine ((hold hi).mark ?_).push hi
    rintro ⟨hb, -⟩
    exact hik ((Db.invoice_of_ledger hrow hb).symm.trans hk)
  | @settle_only row row' o hrow hput hwas =>
    rw [Ledger.mark_state] at hi
    refine ((hold hi).mark ?_).push hi
    rintro ⟨hb, hw⟩
    exact not_within_of_was hi hwas (Db.invoice_of_ledger hrow hb) hw

/-- CORRECT (run): in every committed state, an invoice in Processing is anchored. -/
theorem History.anchored {job : Pid → Option Job} (h : History K job past db)
    (hi : db.ledger.state i = some .Processing) : Anchored past db.ledger i := by
  induction h with
  | nil => cases hi
  | @cons past db p j ws h hp he ih =>
    refine he.change.anchored ?_ ih hi
    intro a ha c hc
    by_contra hne
    obtain ⟨row, hrow⟩ : ∃ row, c.before.attempt a = some row :=
      Option.ne_none_iff_exists'.mp fun hn => hne (Db.ledger_attempt_none hn)
    obtain ⟨row', hrow', -⟩ := (h.grows hc).attempt a row hrow
    cases ha.symm.trans (Db.ledger_attempt hrow')

/-! ### The worker's queries -/

/-- One of the worker's two queries returns every pending attempt whose retry is due. -/
theorem Stmt.selects_pending {a : Uuid} {row : AttemptRow} (hrow : db.attempt a = some row)
    (hp : row.status = .Pending) {now : DateTime} (hdue : ∀ t ∈ row.next_retry_at, t ≤ now)
    (c : Choice) : ∃ rows : List AttemptRow, row ∈ rows ∧
      (run now c db .select_pending = .ok ([], rows) ∨
        run now c db .select_expired = .ok ([], rows)) := by
  have hmem := Table.mem_of_find hrow
  by_cases hold : row.created_at ≤ now - hours24
  · refine ⟨_, ?_, .inr rfl⟩
    exact mem_select.mpr ⟨hmem, decide_eq_true ⟨hp, hold⟩⟩
  · refine ⟨_, ?_, .inl rfl⟩
    exact mem_select.mpr ⟨hmem, decide_eq_true ⟨hp, hdue, Int.not_le.mp hold⟩⟩

/-- CORRECT (no invoice is stuck): in every reachable state, whoever was cut off, an invoice in
    Processing has a pending attempt, and a query of the worker returns it as soon as its retry is
    due. -/
theorem processing_has_pending {σ : Sys} (h : σ.Reachable) {i : Uuid} {r : Invoice}
    (hr : σ.db.invoice i = some r) (hs : r.state = .Processing) :
    ∃ a row, σ.db.attempt a = some row ∧ row.invoice_id = i ∧ row.status = .Pending ∧
      ∀ now, (∀ t ∈ row.next_retry_at, t ≤ now) → ∀ c, ∃ rows : List AttemptRow, row ∈ rows ∧
        (Stmt.run now c σ.db .select_pending = .ok ([], rows) ∨
          Stmt.run now c σ.db .select_expired = .ok ([], rows)) := by
  obtain ⟨a, ha, -⟩ := h.inv.history.anchored (hs ▸ Db.ledger_state hr)
  obtain ⟨row, hrow, heq⟩ := Option.map_eq_some_iff.mp ha
  simp only [Prod.mk.injEq] at heq
  exact ⟨a, row, hrow, heq.1, heq.2, fun now hdue c => Stmt.selects_pending hrow heq.2 hdue c⟩

/-- A payment is killed while it waits for the PSP. -/
def abandoned : List Sys.Label := Sys.opened ++ Sys.pays 3 "k" 2 40 ++ [.kill (.call 3)]

theorem processing_has_pending_abandoned : ∃ σ ∈ Sys.initial.steps abandoned,
    (∃ r ∈ σ.db.invoice 20, r.state = .Processing) ∧
    ∃ a row, σ.db.attempt a = some row ∧ row.invoice_id = 20 ∧ row.status = .Pending ∧
      ∀ now, (∀ t ∈ row.next_retry_at, t ≤ now) → ∀ c, ∃ rows : List AttemptRow, row ∈ rows ∧
        (Stmt.run now c σ.db .select_pending = .ok ([], rows) ∨
          Stmt.run now c σ.db .select_expired = .ok ([], rows)) := by
  obtain ⟨σ, hσ, r, hr, hs⟩ : ∃ σ ∈ Sys.initial.steps abandoned,
    ∃ r ∈ σ.db.invoice 20, r.state = .Processing := by decide +kernel
  exact ⟨σ, hσ, ⟨r, hr, hs⟩, processing_has_pending (Sys.reachable_of_steps hσ) hr hs⟩

end Payman
