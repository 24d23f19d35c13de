import Payman.Safety.Lone
import Payman.Safety.Runs

/-! Two readings of one answer of the PSP.

    A payment reads the answer to its charge with `psp_result`: whatever is not "succeeded" is a
    failure, and absent fields get defaults. The worker reads the same body field by field and leaves
    a status it does not know alone. Both are followed here for a process that runs alone, from the
    same state, up to what they leave in the rows of the attempt and of its invoice. -/

namespace Payman
open Schemes

variable {p q : Pid} {w : World} {index : KeyIndex} {row row' : AttemptRow} {r r' : Invoice}
  {psp : PspBody} {status : ℕ} {db : Db} {t : DateTime} {o : Outcome}

/-- What an outcome leaves behind: three columns of the attempt, and the state of its invoice. -/
structure Reading where
  status : PaymentStatus
  psp_reference : Option String
  failure_code : Option String
  state : InvoiceState
  deriving DecidableEq

def Reading.of (row : AttemptRow) (state : InvoiceState) : Reading :=
  ⟨row.status, row.psp_reference, row.failure_code, state⟩

def Db.reading (db : Db) (a : Uuid) : Option Reading :=
  (db.attempt a).bind fun row => (db.invoice row.invoice_id).map fun r => .of row r.state

/-- The attempt `row` is pending on the invoice `r`, which is being processed; `p` has no
    transaction, and nobody has locked what it will write. -/
structure Settling (w : World) (p : Pid) (index : KeyIndex) (row : AttemptRow) (r : Invoice) :
    Prop where
  idle : w.tx p = none
  attempt : w.db.attempt row.id = some row
  invoice : w.db.invoice row.invoice_id = some r
  pays : index.2.2 = row.invoice_id
  pending : row.status = .Pending
  processing : r.state = .Processing
  attempt_free : w.Unlocked p (.attempt row.id)
  invoice_free : w.Unlocked p (.invoice row.invoice_id)
  key_free : w.Unlocked p (.key index)

/-- The two paths read the body alike, for an invoice at version `v`. -/
def PspBody.Alike (psp : PspBody) (v : Int32) : Prop :=
  if v = Int32.maxValue then psp.status ≠ "succeeded" ∧ psp.status ≠ "failed"
  else (psp.status = "succeeded" ∧ psp.psp_ref.isSome) ∨
    (psp.status = "failed" ∧ psp.code.isSome)

instance (psp : PspBody) (v : Int32) : Decidable (psp.Alike v) :=
  inferInstanceAs (Decidable (ite _ _ _))

/-! ### What is left in the rows -/

theorem Db.reading_of {a : Uuid} (hrow : db.attempt a = some row)
    (hr : db.invoice row.invoice_id = some r) : db.reading a = some (.of row r.state) := by
  rw [Db.reading, hrow, Option.bind_some, hr]
  rfl

/-- Both rows have been written, and then at most a record of the payment. -/
theorem Db.reading_applyAll (index : KeyIndex) (db : Db) (row' : AttemptRow) (r' : Invoice)
    (ws : List Write) (hi : row'.invoice_id = r'.id) (hws : ∀ k ∈ lockSet ws, k = .key index) :
    (applyAll db ([.put_attempt row', .put_invoice r'] ++ ws)).reading row'.id =
      some (.of row' r'.state) := by
  have hattempt : LockKey.attempt row'.id ∉ lockSet ws := fun hk => nomatch hws _ hk
  have hinvoice : LockKey.invoice row'.invoice_id ∉ lockSet ws := fun hk => nomatch hws _ hk
  refine Db.reading_of ?_ ?_
  · rw [applyAll_append, (Db.readsOnly_attempt row'.id).applyAll ws _ hattempt]
    exact (Table.find_put ..).trans (if_pos rfl)
  · rw [applyAll_append, (Db.readsOnly_invoice row'.invoice_id).applyAll ws _ hinvoice]
    exact (Table.find_put ..).trans (if_pos hi.symm)

/-- What an outcome says does not depend on when it is recorded. -/
theorem Reading.of_record (t t' : DateTime) (s : InvoiceState) :
    Reading.of (o.record t row) s = .of (o.record t' row) s := by cases o <;> rfl

theorem Settling.free (h : Settling w p index row r) {w' : World} (hal : Along p w w')
    {ws : List Write} (hws : ∀ k ∈ lockSet ws, k = .attempt row.id ∨ k = .invoice row.invoice_id ∨
      k = .key index) : w'.sessions.Free p ws := by
  intro k hk
  refine (hal.unlocked k).mpr ?_
  rcases hws k hk with rfl | rfl | rfl
  · exact h.attempt_free
  · exact h.invoice_free
  · exact h.key_free

theorem Settling.reading (h : Settling w p index row r) :
    w.db.reading row.id = some (.of row r.state) := Db.reading_of h.attempt h.invoice

/-! ### Recording an outcome -/

/-- In a transaction without writes, `record` writes the outcome `o` and returns `x`. -/
def Writes {α : Type} (p : Pid) (ans : Answer) (row : AttemptRow) (o : Outcome)
    (x : DateTime → α) (record : App α) : Prop :=
  ∀ (w : World) (t : DateTime) (ok : α → World → Prop) (err : World → Prop),
    w.tx p = some ⟨t, []⟩ → w.db.attempt row.id = some row → w.Unlocked p (.attempt row.id) →
    (∀ w', Along p w w' → w'.tx p = some ⟨t, [.put_attempt (o.record t row)]⟩ → ok (x t) w') →
      Lone p ans ok err record w

theorem Writes.of_run {ans : Answer} (s : Stmt) {x : DateTime → s.Result}
    (hrun : ∀ t c db, db.attempt row.id = some row →
      s.run t c db = .ok ([.put_attempt (o.record t row)], x t)) :
    Writes p ans row o x (sql s) := by
  intro w t ok err htx hrow hfree h
  refine .sql_within htx ?_ (fun c => hrun t c _ hrow) h
  intro k hk
  simp only [lockSet_cons, lockSet_nil, Write.rowWrite_locks, Write.locks, Outcome.record_id,
    List.append_nil, List.mem_singleton] at hk
  exact hk ▸ hfree

theorem attempt_succeeded_writes {ans : Answer} {psp_ref : String} :
    Writes p ans row (.succeeded (some psp_ref))
      (fun t => some ((Outcome.succeeded (some psp_ref)).record t row).toPaymentAttempt)
      (sql (.attempt_succeeded psp_ref row.id)) :=
  .of_run (.attempt_succeeded psp_ref row.id) fun _ _ _ hrow =>
    Stmt.returning_of hrow rfl rfl

theorem attempt_failed_writes {ans : Answer} {code : String} :
    Writes p ans row (.failed (some code))
      (fun t => some ((Outcome.failed (some code)).record t row).toPaymentAttempt)
      (sql (.attempt_failed code row.id)) :=
  .of_run (.attempt_failed code row.id) fun _ _ _ hrow =>
    Stmt.returning_of hrow rfl rfl

theorem mark_succeeded_writes {ans : Answer} {psp_ref : Option String} :
    Writes p ans row (.succeeded psp_ref) (fun _ => (1 : ℕ))
      (sql (.mark_succeeded psp_ref row.id)) :=
  .of_run (.mark_succeeded psp_ref row.id) fun _ _ _ hrow => Stmt.rows_affected_of hrow rfl rfl

theorem mark_failed_writes {ans : Answer} {code : Option String} :
    Writes p ans row (.failed code) (fun _ => (1 : ℕ)) (sql (.mark_failed code row.id)) :=
  .of_run (.mark_failed code row.id) fun _ _ _ hrow => Stmt.rows_affected_of hrow rfl rfl

/-! ### The direct path -/

theorem run_update_response_any (t : DateTime) (db : Db) (body : Json) (code : Int32)
    (index : KeyIndex) : ∃ ws, ∃ n : ℕ,
      (∀ c, Stmt.run t c db (.update_response body code index) = .ok (ws, n)) ∧
      ∀ k ∈ lockSet ws, k = .key index := by
  cases hk : db.idempotency_keys.find index with
  | none =>
    refine ⟨[], 0, fun c => ?_, by simp⟩
    rw [Stmt.run, Stmt.update, hk]
    rfl
  | some kr =>
    refine ⟨_, 1, fun c => Stmt.rows_affected_of hk rfl rfl, ?_⟩
    intro k hkl
    simp only [lockSet_cons, lockSet_nil, Write.rowWrite_locks, Write.locks, List.append_nil,
      List.mem_singleton] at hkl
    rw [hkl, ← Db.index_of_key hk]
    rfl

/-- The second transaction of a payment leaves the outcome, unless the version is used up. -/
theorem record_outcome_reads {ans : Answer} {event_type : String}
    {record : App (Option PaymentAttempt)} (h : Settling w p index row r)
    (hrec : Writes p ans row o (fun t => some (o.record t row).toPaymentAttempt) record)
    {x : Reading} (hx : x = if r.versioning = Int32.maxValue then .of row r.state
      else .of (o.record 0 row) o.state) :
    Lone p ans (fun _ w' => w'.db.reading row.id = some x)
      (fun w' => w'.db.reading row.id = some x) (record_outcome record o.state event_type index)
      w := by
  refine .seq (.seq (.begin_tx fun t w₁ hal₁ htx₁ => ?_))
  have hrow₁ : w₁.db.attempt row.id = some row := hal₁.db ▸ h.attempt
  have hdrop : ∀ w' w'' : World, (Along p w w' ∧ r.versioning = Int32.maxValue) →
      w''.db = w'.db → w''.db.reading row.id = some x := by
    rintro w' w'' ⟨hal, hmax⟩ hdb
    rw [hdb, hal.db, h.reading, hx, if_pos hmax]
  refine .or_drop (fun w' => Along p w w' ∧ r.versioning = Int32.maxValue) hdrop ?_
  refine .seq (.seq (hrec w₁ t _ _ htx₁ hrow₁ ((hal₁.unlocked _).mpr h.attempt_free) ?_))
  intro w₂ hal₂ htx₂
  have hal₂ := hal₁.trans hal₂
  have hr₂ : (applyAll w₂.db [Write.put_attempt (o.record t row)]).invoices.find index.2.2 =
      some r := by
    rw [h.pays]
    exact hal₂.db ▸ h.invoice
  refine .seq (.fetch_one ?_)
  by_cases hmax : r.versioning = Int32.maxValue
  · have hrun : ∀ c, Stmt.run t c (applyAll w₂.db [Write.put_attempt (o.record t row)])
        (.settle_invoice o.state index.2.2) = .error .NumericValueOutOfRange := by
      intro c
      rw [Stmt.run, Stmt.update, hr₂]
      simp only [if_true, Stmt.next_i32, hmax]
      rfl
    exact .seq (.sql_refused htx₂ hrun fun w₃ hal₃ => ⟨hal₂.trans hal₃, hmax⟩)
  · have hid : r.id = row.invoice_id := Db.id_of_invoice h.invoice
    have hrun : ∀ c, Stmt.run t c (applyAll w₂.db [Write.put_attempt (o.record t row)])
        (.settle_invoice o.state index.2.2) = .ok ([.put_invoice { r with
          state := o.state, updated_at := t, versioning := r.versioning + 1 }], (1 : ℕ)) := by
      intro c
      exact Stmt.rows_affected_of hr₂ rfl (by rw [Stmt.next_i32, if_neg hmax]; rfl)
    refine .seq (.sql_within htx₂ (h.free hal₂ (by simp [hid])) hrun fun w₃ hal₃ htx₃ => ?_)
    have hal₃ := hal₂.trans hal₃
    refine .seq (.rollback_if (by decide) ?_)
    obtain ⟨ws, n, hrun, hws⟩ := run_update_response_any t
      (applyAll w₃.db ([Write.put_attempt (o.record t row)] ++ [.put_invoice { r with
        state := o.state, updated_at := t, versioning := r.versioning + 1 }]))
      (o.record t row).toPaymentAttempt.to_value 200 index
    have hfree := h.free hal₃ fun k hk => .inr (.inr (hws k hk))
    refine .seq (.sql_within htx₃ hfree hrun fun w₄ hal₄ htx₄ => .pure ?_)
    refine .seq (.commit_tx htx₄ fun w₅ hdb htx₅ => .pure ?_)
    refine .seq (.spawn_dispatch fun w₆ hdb₆ => .pure ?_)
    have hreads := Db.reading_applyAll index w₄.db (o.record t row)
      { r with state := o.state, updated_at := t, versioning := r.versioning + 1 } ws
      ((Outcome.record_invoice_id ..).trans hid.symm) hws
    rw [hdb₆, hdb, hx, if_neg hmax, Reading.of_record 0 t]
    rwa [Outcome.record_id] at hreads

/-- The outcome that a payment reads from a body. -/
def PspBody.charged (psp : PspBody) : Outcome :=
  if psp.status = "succeeded" then .succeeded (some (psp.psp_ref.getD ""))
  else .failed (some (psp.code.getD "unknown"))

/-- What the direct path leaves. -/
def PspBody.direct (psp : PspBody) (row : AttemptRow) (r : Invoice) : Reading :=
  if r.versioning = Int32.maxValue then .of row r.state
  else .of (psp.charged.record 0 row) psp.charged.state

theorem charge_attempt_reads {req : PayInvoiceRequest} {a : PaymentAttempt}
    (h : Settling w p index row r) (hok : is_success status = true) :
    Lone p (.response status (some psp))
      (fun _ w' => w'.db.reading row.id = some (psp.direct row r))
      (fun w' => w'.db.reading row.id = some (psp.direct row r))
      (charge_attempt index req row.id a) w := by
  refine .seq (.seq (.send_charge fun w₁ hal₁ htx₁ => .seq (.recv_charge fun w₂ hal₂ htx₂ => ?_)))
  have hal := hal₁.trans hal₂
  have h₂ : Settling w₂ p index row r := ⟨htx₂.trans (htx₁.trans h.idle), hal.db ▸ h.attempt,
    hal.db ▸ h.invoice, h.pays, h.pending, h.processing, (hal.unlocked _).mpr h.attempt_free,
    (hal.unlocked _).mpr h.invoice_free, (hal.unlocked _).mpr h.key_free⟩
  refine .pure ?_
  by_cases hs : psp.status = "succeeded"
  · have hres : psp_result (.response status (some psp)) = .Succeeded (psp.psp_ref.getD "") := by
      rw [psp_result, if_pos hok, if_pos hs]
    rw [hres]
    refine record_outcome_reads h₂ attempt_succeeded_writes ?_
    rw [PspBody.direct, PspBody.charged, if_pos hs]
  · have hres : psp_result (.response status (some psp)) = .Failed (psp.code.getD "unknown") := by
      rw [psp_result, if_pos hok, if_neg hs]
    rw [hres]
    refine record_outcome_reads h₂ attempt_failed_writes ?_
    rw [PspBody.direct, PspBody.charged, if_neg hs]

/-! ### The worker's path -/

/-- What the worker leaves. -/
def PspBody.reconciled (psp : PspBody) (row : AttemptRow) (r : Invoice) : Reading :=
  match psp.outcome with
  | none => .of row r.state
  | some o => .of (o.record 0 row) o.state

theorem settle_attempt_reads {w₁ : World} {ans : Answer} {event_type : String} {record : App ℕ}
    {err : World → Prop} (h : Settling w p index row r) (hal₁ : Along p w w₁)
    (htx₁ : w₁.tx p = some ⟨t, []⟩) (hrec : Writes p ans row o (fun _ => (1 : ℕ)) record) :
    Lone p ans (fun _ w' => w'.db.reading row.id = some (.of (o.record 0 row) o.state)) err
      (settle_attempt record o.state event_type row.invoice_id) w₁ := by
  have hid : r.id = row.invoice_id := Db.id_of_invoice h.invoice
  refine .seq (.or_drop (fun _ => False) (fun _ _ hf => hf.elim) ?_)
  refine .seq (hrec w₁ t _ _ htx₁ (hal₁.db ▸ h.attempt) ((hal₁.unlocked _).mpr h.attempt_free) ?_)
  intro w₂ hal₂ htx₂
  have hal₂ := hal₁.trans hal₂
  have hr₂ : (applyAll w₂.db [Write.put_attempt (o.record t row)]).invoices.find row.invoice_id =
      some r := hal₂.db ▸ h.invoice
  have hrun : ∀ c, Stmt.run t c (applyAll w₂.db [Write.put_attempt (o.record t row)])
      (.leave_processing o.state row.invoice_id) =
        .ok ([.put_invoice { r with state := o.state, updated_at := t }], (1 : ℕ)) := by
    intro c
    exact Stmt.rows_affected_of hr₂ (decide_eq_true h.processing) rfl
  refine .seq (.sql_within htx₂ (h.free hal₂ (by simp [hid])) hrun fun w₃ hal₃ htx₃ => ?_)
  refine .commit_tx htx₃ fun w₄ hdb htx₄ => ?_
  -- both rows are there, so the owner is found
  have hr₄ : w₄.db.invoice row.invoice_id = some { r with state := o.state, updated_at := t } := by
    rw [hdb]
    exact (Table.find_put ..).trans (if_pos hid)
  have hown : ∀ now c, Stmt.run now c w₄.db (.select_business_id row.invoice_id) =
      .ok ([], some r.business_id) := by
    intro now c
    rw [Stmt.run, show w₄.db.invoices.find row.invoice_id = _ from hr₄]
    rfl
  refine .seq (.seq (.sql_read htx₄ hown fun w₅ hal₅ => .fetch_one ?_))
  refine .spawn_dispatch fun w₆ hdb₆ => ?_
  have hreads := Db.reading_applyAll index w₃.db (o.record t row)
    { r with state := o.state, updated_at := t } []
    ((Outcome.record_invoice_id ..).trans hid.symm) (by simp)
  rw [hdb₆, hal₅.db, hdb, Reading.of_record 0 t]
  rwa [Outcome.record_id] at hreads

theorem reconcile_attempt_reads {n : Int32} {err : World → Prop} (h : Settling w p index row r)
    (hok : is_success status = true) :
    Lone p (.response status (some psp))
      (fun _ w' => w'.db.reading row.id = some (psp.reconciled row r)) err
      (reconcile_attempt row.id row.invoice_id n) w := by
  have h404 : status ≠ 404 := by
    rintro rfl
    cases hok
  refine .seq (.get_charge fun w₁ hal₁ htx₁ => ?_)
  simp only [if_neg h404, hok, if_true, ok_or, pure_bind]
  refine .seq (.begin_tx fun t w₂ hal₂ htx₂ => ?_)
  have hal₂ := hal₁.trans hal₂
  unfold PspBody.reconciled PspBody.outcome
  by_cases hs : psp.status = "succeeded"
  · rw [if_pos hs, if_pos hs]
    exact settle_attempt_reads h hal₂ htx₂ mark_succeeded_writes
  · rw [if_neg hs, if_neg hs]
    by_cases hf : psp.status = "failed"
    · rw [if_pos hf, if_pos hf]
      exact settle_attempt_reads h hal₂ htx₂ mark_failed_writes
    · rw [if_neg hf, if_neg hf]
      refine .drop_tx fun w₃ hdb => ?_
      rw [hdb, hal₂.db, h.reading]

/-! ### Where the paths agree -/

theorem some_getD_eq {α : Type} {x : Option α} {d : α} : some (x.getD d) = x ↔ x.isSome := by
  cases x <;> simp

/-- CORRECT: what the two paths leave is the same exactly if they read the body alike. -/
theorem PspBody.direct_eq_reconciled (hp : row.status = .Pending) :
    psp.direct row r = psp.reconciled row r ↔ psp.Alike r.versioning := by
  unfold PspBody.direct PspBody.reconciled PspBody.charged PspBody.outcome PspBody.Alike
  by_cases hmax : r.versioning = Int32.maxValue
  · by_cases hsucc : psp.status = "succeeded"
    · simp [hmax, hsucc, Reading.of, Outcome.record, hp]
    · by_cases hfail : psp.status = "failed"
      · simp [hmax, hfail, Reading.of, Outcome.record, hp]
      · simp [hmax, hsucc, hfail]
  · by_cases hsucc : psp.status = "succeeded"
    · simp [hmax, hsucc, Reading.of, Outcome.record, Outcome.state, some_getD_eq]
    · by_cases hfail : psp.status = "failed"
      · simp [hmax, hfail, Reading.of, Outcome.record, Outcome.state, some_getD_eq]
      · simp [hmax, hsucc, hfail, Reading.of, Outcome.record, hp]

/-- CORRECT (one answer, two readings): take a pending attempt of an invoice in Processing and an
    answer of the PSP with a successful status and a body. Both paths return, whatever the time and
    the ids they draw; and they leave the same columns of the attempt and the same state of the
    invoice exactly if the body is "succeeded" with a reference or "failed" with a code, or the
    version is used up and the body is neither. -/
theorem paths_agree_iff_alike {a : PaymentAttempt} {req : PayInvoiceRequest} {n : Int32}
    (hp : Settling w p index row r) (hq : Settling w q index row r)
    (hok : is_success status = true) :
    (∀ f : ℕ → Choice, (∀ n, Steady (.response status (some psp)) (f n)) →
      ∃ n w' x, (charge_attempt index req row.id a).run.run (World.exec p)
        ((List.range n).map f) w = some (w', x)) ∧
    (∀ f : ℕ → Choice, (∀ n, Steady (.response status (some psp)) (f n)) →
      ∃ n' w' x, (reconcile_attempt row.id row.invoice_id n).run.run (World.exec q)
        ((List.range n').map f) w = some (w', x)) ∧
    ∀ cs cs' w₁ w₂ x₁ x₂, (∀ c ∈ cs, Steady (.response status (some psp)) c) →
      (∀ c ∈ cs', Steady (.response status (some psp)) c) →
      (charge_attempt index req row.id a).run.run (World.exec p) cs w = some (w₁, x₁) →
      (reconcile_attempt row.id row.invoice_id n).run.run (World.exec q) cs' w = some (w₂, x₂) →
      (w₁.db.reading row.id = w₂.db.reading row.id ↔ psp.Alike r.versioning) := by
  have hdirect : Lone p (.response status (some psp))
      (fun _ w' => w'.db.reading row.id = some (psp.direct row r))
      (fun w' => w'.db.reading row.id = some (psp.direct row r))
      (charge_attempt index req row.id a) w := charge_attempt_reads hp hok
  have hworker : Lone q (.response status (some psp))
      (fun _ w' => w'.db.reading row.id = some (psp.reconciled row r)) (fun _ => False)
      (reconcile_attempt row.id row.invoice_id n) w := reconcile_attempt_reads hq hok
  refine ⟨fun f hf => hdirect.returns f hf, fun f hf => hworker.returns f hf, ?_⟩
  intro cs cs' w₁ w₂ x₁ x₂ hcs hcs' hrun₁ hrun₂
  have h₁ : w₁.db.reading row.id = some (psp.direct row r) := by
    have h := hdirect.of_run hcs hrun₁
    cases x₁ <;> exact h
  have h₂ : w₂.db.reading row.id = some (psp.reconciled row r) := by
    have h := hworker.of_run hcs' hrun₂
    cases x₂ with
    | ok _ => exact h
    | error _ => exact h.elim
  rw [h₁, h₂, Option.some.injEq]
  exact PspBody.direct_eq_reconciled hp.pending

/-- A payment waits for the PSP. -/
def charging : List Sys.Label := Sys.opened ++ Sys.pays 3 "k" 2 40

/-- Attempt 40 is pending and nobody has locked anything of it. -/
def Unsettled (w : World) : Prop :=
  ∃ row ∈ w.db.attempt 40, ∃ r ∈ w.db.invoice row.invoice_id, row.id = 40 ∧
    row.invoice_id = 20 ∧ row.status = .Pending ∧ r.state = .Processing ∧
    (∀ k ∈ [.attempt 40, .invoice 20, .key ("k", 1, 20)], w.sessions.owner k = none) ∧
    ∀ p ∈ [.call 3, .worker], (w.tx p).isNone

instance (w : World) : Decidable (Unsettled w) := inferInstanceAs (Decidable (∃ _ ∈ _, _))

theorem Unsettled.settling {w : World} (h : Unsettled w) : ∃ row r, row.id = 40 ∧
    row.invoice_id = 20 ∧ ∀ p ∈ [.call 3, .worker], Settling w p ("k", 1, 20) row r := by
  obtain ⟨row, hrow, r, hr, hid, hi, hpend, hproc, hfree, hidle⟩ := h
  refine ⟨row, r, hid, hi, fun p hp => ?_⟩
  exact ⟨Option.isNone_iff_eq_none.mp (hidle p hp), hid ▸ hrow, hr, hi.symm, hpend, hproc,
    .inl (hid ▸ hfree _ (by simp)), .inl (hi ▸ hfree _ (by simp)), .inl (hfree _ (by simp))⟩

/-- A body without a reference. -/
theorem paths_agree_iff_alike_bare : ∃ σ ∈ Sys.initial.steps charging,
    ∀ cs cs' w₁ w₂ x₁ x₂, (∀ c ∈ cs, Steady (.response 200 (some ⟨"succeeded", none, none⟩)) c) →
      (∀ c ∈ cs', Steady (.response 200 (some ⟨"succeeded", none, none⟩)) c) →
      (charge_attempt ("k", 1, 20) ⟨"card", 2⟩ 40 ⟨40, 20, .Pending, "card", none, none, 0,
        0⟩).run.run (World.exec (.call 3)) cs σ.world = some (w₁, x₁) →
      (reconcile_attempt 40 20 0).run.run (World.exec .worker) cs' σ.world = some (w₂, x₂) →
      w₁.db.reading 40 ≠ w₂.db.reading 40 := by
  obtain ⟨σ, hσ, hun⟩ : ∃ σ ∈ Sys.initial.steps charging, Unsettled σ.world := by decide +kernel
  refine ⟨σ, hσ, ?_⟩
  intro cs cs' w₁ w₂ x₁ x₂ hcs hcs' h₁ h₂ heq
  obtain ⟨row, r, hid, hi, hset⟩ := hun.settling
  have hiff := (paths_agree_iff_alike (hset (.call 3) (by simp)) (hset .worker (by simp))
    (by decide : is_success 200 = true)).2.2 cs cs' w₁ w₂ x₁ x₂ hcs hcs' (hid.symm ▸ h₁)
    (by rw [hid, hi]; exact h₂)
  have halike := hiff.mp (hid.symm ▸ heq)
  unfold PspBody.Alike at halike
  split at halike
  · exact halike.1 rfl
  · simp at halike

/-- A body with another status: the payment fails the attempt and reopens the invoice, the worker
    waits. -/
theorem paths_disagree : ¬∀ (w : World) (p q : Pid) (index : KeyIndex) (row : AttemptRow)
    (r : Invoice) (psp : PspBody) (status : ℕ) (a : PaymentAttempt) (req : PayInvoiceRequest)
    (n : Int32), Settling w p index row r → Settling w q index row r → is_success status = true →
    ∀ cs cs' w₁ w₂ x₁ x₂, (∀ c ∈ cs, Steady (.response status (some psp)) c) →
      (∀ c ∈ cs', Steady (.response status (some psp)) c) →
      (charge_attempt index req row.id a).run.run (World.exec p) cs w = some (w₁, x₁) →
      (reconcile_attempt row.id row.invoice_id n).run.run (World.exec q) cs' w = some (w₂, x₂) →
      w₁.db.reading row.id = w₂.db.reading row.id := by
  obtain ⟨σ, hσ, hun, ⟨w₁, x₁⟩, h₁, ⟨w₂, x₂⟩, h₂, hne⟩ : ∃ σ ∈ Sys.initial.steps charging,
    Unsettled σ.world ∧
    ∃ s₁ ∈ (charge_attempt ("k", 1, 20) ⟨"card", 2⟩ 40 ⟨40, 20, .Pending, "card", none, none, 0,
      0⟩).run.run (World.exec (.call 3)) (List.replicate 8 { Sys.calm with
        answer := .response 200 (some ⟨"pending", none, none⟩) }) σ.world,
    ∃ s₂ ∈ (reconcile_attempt 40 20 0).run.run (World.exec .worker) (List.replicate 3 { Sys.calm with
        answer := .response 200 (some ⟨"pending", none, none⟩) }) σ.world,
    s₁.1.db.reading 40 ≠ s₂.1.db.reading 40 := by decide +kernel
  intro h
  obtain ⟨row, r, hid, hi, hset⟩ := hun.settling
  have hsteady : ∀ m, ∀ c ∈ List.replicate m { Sys.calm with
      answer := .response 200 (some ⟨"pending", none, none⟩) },
      Steady (.response 200 (some ⟨"pending", none, none⟩)) c := by
    intro m c hc
    rw [List.eq_of_mem_replicate hc]
    exact ⟨rfl, rfl⟩
  have heq := h σ.world (.call 3) .worker ("k", 1, 20) row r ⟨"pending", none, none⟩ 200
    ⟨40, 20, .Pending, "card", none, none, 0, 0⟩ ⟨"card", 2⟩ 0 (hset _ (by simp))
    (hset _ (by simp)) (by decide) _ _ w₁ w₂ x₁ x₂ (hsteady 8) (hsteady 3) (hid.symm ▸ h₁)
    (by rw [hid, hi]; exact h₂)
  exact hne (hid ▸ heq)

end Payman
