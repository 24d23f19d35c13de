import Payman.Schemes.Waiting
import Payman.Safety.Polls
import Payman.Safety.Watches

/-! What a process holds while it waits.

    A transaction is somewhere between BEGIN and COMMIT, and that says which row locks it has and
    which one it may still have to wait for. An outcome takes the attempt before the invoice, and a
    payment takes the invoice before its new attempt, which nobody else can want; the idempotency
    record comes last in both, when the invoice is already theirs. -/

namespace Payman
open Schemes

/-- How far a process has got with the locks of its transaction: it has none, or no locks yet; the
    attempt whose outcome it records; the invoice that it is about to pay; all that it needs but the
    record of a key for the invoice `i`; all that it needs; or the rows of an invoice's content. -/
inductive Grip where
  | out
  | empty
  | attempt
  | invoice (i : Uuid)
  | last (i : Uuid)
  | done
  | content

/-- The jobs that write an invoice's content. -/
def Job.Edits : Job → Prop
  | .call (.create_invoice ..) | .call (.edit_invoice ..) => True
  | _ => False

instance : DecidablePred Job.Edits := fun j => by
  unfold Job.Edits
  split <;> infer_instance

/-! ### Statements by the locks they take -/

/-- Queries of a transaction. -/
inductive Stmt.Looks : Stmt → Prop where
  | select_invoice {i b : Uuid} : Looks (.select_invoice i b)
  | select_line_items {i : Uuid} : Looks (.select_line_items i)
  | select_invoice_state {i b : Uuid} : Looks (.select_invoice_state i b)
  | scan_line_items {i : Uuid} : Looks (.scan_line_items i)
  | select_updated {i : Uuid} : Looks (.select_updated i)
  | select_state_at_version {i b : Uuid} {v : Int32} : Looks (.select_state_at_version i b v)

/-- Updates of an attempt's status. -/
inductive Stmt.Marks : Stmt → Prop where
  | attempt_succeeded {psp_ref : String} {a : Uuid} : Marks (.attempt_succeeded psp_ref a)
  | attempt_failed {code : String} {a : Uuid} : Marks (.attempt_failed code a)
  | expire_attempt {a : Uuid} : Marks (.expire_attempt a)
  | mark_succeeded {psp_ref : Option String} {a : Uuid} : Marks (.mark_succeeded psp_ref a)
  | mark_failed {code : Option String} {a : Uuid} : Marks (.mark_failed code a)

/-- Writes of the row of the invoice `i`. -/
inductive Stmt.Moves (i : Uuid) : Stmt → Prop where
  | claim_open {v : Int32} : Moves i (.claim_open i v)
  | update_state {s : InvoiceState} {b : Uuid} {v : Int32} : Moves i (.update_state s i b v)
  | settle_invoice {s : InvoiceState} : Moves i (.settle_invoice s i)
  | reopen_invoice : Moves i (.reopen_invoice i)
  | leave_processing {s : InvoiceState} : Moves i (.leave_processing s i)
  | insert_invoice {b cu : Uuid} {total : Int64} {due : NaiveDate} :
      Moves i (.insert_invoice i b cu total due)
  | update_due_date {due : NaiveDate} : Moves i (.update_due_date due i)
  | update_total {total : Int64} : Moves i (.update_total total i)

/-- Writes of an invoice's content. -/
inductive Stmt.Fills : Stmt → Prop where
  | insert_invoice {i b cu : Uuid} {total : Int64} {due : NaiveDate} :
      Fills (.insert_invoice i b cu total due)
  | insert_line_item {i : Uuid} {d : String} {q : Int32} {u : Int64} :
      Fills (.insert_line_item i d q u)
  | update_due_date {due : NaiveDate} {i : Uuid} : Fills (.update_due_date due i)
  | delete_line_items {i : Uuid} {scanned : List Uuid} : Fills (.delete_line_items i scanned)
  | update_total {total : Int64} {i : Uuid} : Fills (.update_total total i)

/-- The record of a key for the invoice `i`. -/
inductive Stmt.Keys (i : Uuid) : Stmt → Prop where
  | insert_key {k : String} {b : Uuid} {status : Int32} {body : Json} :
      Keys i (.insert_key (k, b, i) status body)
  | update_response {k : String} {b : Uuid} {status : Int32} {body : Json} :
      Keys i (.update_response body status (k, b, i))

/-- The lock is on an invoice or on a line item. -/
def LockKey.Content : LockKey → Prop
  | .invoice _ | .line_item _ => True
  | _ => False

section
variable {now : DateTime} {c : Choice} {db : Db} {ws : List Write} {k : LockKey} {i : Uuid}

theorem Stmt.Looks.writes {s : Stmt} (hs : s.Looks) {r : s.Result}
    (h : s.run now c db = .ok (ws, r)) : ws = [] := by
  cases hs <;> cases h <;> rfl

/-- The locks of an UPDATE by key are those of the row it has found. -/
theorem Stmt.update_locks {ρ κ : Type} [Keyed ρ κ] [DecidableEq κ] {t : Table ρ} {key : κ}
    {cond : ρ → Bool} {set : ρ → Except DbError ρ} {wr : ρ → Write} {o : Option ρ}
    {φ : LockKey → Prop}
    (h : update t key cond set wr = .ok (ws, o))
    (hφ : ∀ r r', t.find key = some r → set r = .ok r' → ∀ k ∈ (wr r').locks, φ k) :
    ∀ k ∈ lockSet ws, φ k := by
  rcases Stmt.update_ok h with ⟨-, rfl, -⟩ | ⟨r, r', hf, -, hs, rfl, -⟩
  · simp
  · simpa using hφ r r' hf hs

theorem Stmt.count_locks {ρ κ : Type} [Keyed ρ κ] [DecidableEq κ] {t : Table ρ} {key : κ}
    {cond : ρ → Bool} {set : ρ → Except DbError ρ} {wr : ρ → Write} {n : ℕ} {φ : LockKey → Prop}
    (h : rows_affected <$> update t key cond set wr = .ok (ws, n))
    (hφ : ∀ r r', t.find key = some r → set r = .ok r' → ∀ k ∈ (wr r').locks, φ k) :
    ∀ k ∈ lockSet ws, φ k := by
  obtain ⟨⟨vs, o⟩, hu, heq⟩ := Stmt.map_ok h
  cases o <;> cases heq <;> exact Stmt.update_locks hu hφ

theorem Stmt.Marks.locks {s : Stmt} (hs : s.Marks) {r : s.Result}
    (h : s.run now c db = .ok (ws, r)) :
    ∀ k ∈ lockSet ws, ∃ a row, k = .attempt a ∧ db.attempt a = some row := by
  have hrow : ∀ {a : Uuid} {row row' : AttemptRow}, db.attempt a = some row → row'.id = row.id →
      ∀ k ∈ (Write.put_attempt row').locks, ∃ a row, k = .attempt a ∧ db.attempt a = some row := by
    intro a row row' ha hid k hk
    rw [Write.locks, List.mem_singleton] at hk
    exact ⟨a, row, by rw [hk, hid, Db.id_of_attempt ha], ha⟩
  cases hs with
  | attempt_succeeded | attempt_failed =>
    obtain ⟨⟨vs, o⟩, hu, heq⟩ := Stmt.map_ok h
    cases heq
    exact Stmt.update_locks hu fun r r' hf hset => by cases hset; exact hrow hf rfl
  | expire_attempt | mark_succeeded | mark_failed =>
    exact Stmt.count_locks h fun r r' hf hset => by cases hset; exact hrow hf rfl

theorem Stmt.Moves.locks {s : Stmt} (hs : s.Moves i) {r : s.Result}
    (h : s.run now c db = .ok (ws, r)) : ∀ k ∈ lockSet ws, k = .invoice i := by
  have hrow : ∀ {r r' : Invoice}, db.invoice i = some r → r'.id = r.id →
      ∀ k ∈ (Write.put_invoice r').locks, k = .invoice i := by
    intro r r' hr hid k hk
    rw [Write.locks, List.mem_singleton] at hk
    rw [hk, hid, Db.id_of_invoice hr]
  cases hs with
  | insert_invoice =>
    obtain ⟨-, rfl, rfl⟩ := Stmt.run_insert_invoice h
    simp
  | update_state =>
    refine Stmt.update_locks h fun r r' hf hset => ?_
    obtain ⟨-, rfl⟩ := Stmt.map_next_i32_ok hset
    exact hrow hf rfl
  | claim_open | settle_invoice =>
    refine Stmt.count_locks h fun r r' hf hset => ?_
    obtain ⟨-, rfl⟩ := Stmt.map_next_i32_ok hset
    exact hrow hf rfl
  | reopen_invoice | leave_processing | update_due_date | update_total =>
    exact Stmt.count_locks h fun r r' hf hset => by cases hset; exact hrow hf rfl

theorem Stmt.Fills.locks {s : Stmt} (hs : s.Fills) {r : s.Result}
    (h : s.run now c db = .ok (ws, r)) : ∀ k ∈ lockSet ws, k.Content := by
  have hinvoice : ∀ {i : Uuid}, s.Moves i → ∀ k ∈ lockSet ws, k.Content := fun hm k hk => by
    rw [hm.locks h k hk]
    trivial
  cases hs with
  | insert_invoice => exact hinvoice .insert_invoice
  | update_due_date => exact hinvoice .update_due_date
  | update_total => exact hinvoice .update_total
  | insert_line_item =>
    obtain ⟨-, -, rfl⟩ := Stmt.run_insert_line_item h
    intro k hk
    obtain rfl := List.mem_singleton.mp hk
    trivial
  | delete_line_items =>
    rw [Stmt.run_delete_line_items h]
    intro k hk
    obtain ⟨w, hw, hkw⟩ := List.mem_flatMap.mp hk
    obtain ⟨l, -, rfl⟩ := List.mem_map.mp hw
    obtain rfl := List.mem_singleton.mp hkw
    trivial

theorem Stmt.Keys.locks {s : Stmt} (hs : s.Keys i) {r : s.Result}
    (h : s.run now c db = .ok (ws, r)) :
    ∀ k ∈ lockSet ws, ∃ t : KeyIndex, k = .key t ∧ t.2.2 = i := by
  cases hs with
  | insert_key =>
    obtain ⟨-, rfl⟩ := Stmt.run_insert_key h
    intro k hk
    obtain rfl := List.mem_singleton.mp hk
    exact ⟨_, rfl, rfl⟩
  | update_response =>
    refine Stmt.count_locks h fun r r' hf hset k hk => ?_
    cases hset
    obtain rfl := List.mem_singleton.mp hk
    refine ⟨_, congrArg LockKey.key (Table.find_key hf), rfl⟩

/-- A claim or an update that has counted the invoice has locked it. -/
theorem Stmt.locks_of_count {cond : Invoice → Bool} {set : Invoice → Except DbError Invoice} {n : ℕ}
    (h : rows_affected <$> update db.invoices i cond set .put_invoice = .ok (ws, n)) (hn : n ≠ 0)
    (hset : ∀ r r', set r = .ok r' → r'.id = r.id) : LockKey.invoice i ∈ lockSet ws := by
  rcases Stmt.rows_affected_ok h with ⟨h0, -⟩ | ⟨r, r', hf, -, hs, rfl, -⟩
  · exact absurd h0 hn
  · have hid : r.id = i := Db.id_of_invoice hf
    simp [hset r r' hs, hid]

end

/-! ### The protocol -/

/-- Operations that have nothing to do with the database. -/
inductive Eff.Local : Eff → Prop where
  | new_v4 : Local .new_v4
  | utc_now : Local .utc_now
  | send_charge {a : Uuid} {card_token : String} : Local (.send_charge a card_token)
  | recv_charge {a : Uuid} : Local (.recv_charge a)
  | get_charge {a : Uuid} : Local (.get_charge a)
  | spawn_dispatch {t : DispatchTask} : Local (.spawn_dispatch t)
  | post_webhook {d : Uuid} {url secret : String} {payload : Json} {timestamp : ℤ} :
      Local (.post_webhook d url secret payload timestamp)

/-- The statements of a transaction, each with what it returns and how far the process is then. -/
inductive Grip.Takes (j : Job) : Grip → (s : Stmt) → s.Result → Grip → Prop
  | look {x : Grip} {s : Stmt} {r : s.Result} (h : s.Looks) : Takes j x s r x
  | claim {i : Uuid} {v : Int32} {n : ℕ} :
      Takes j .empty (.claim_open i v) n (if n = 0 then .empty else .invoice i)
  | insert {a i : Uuid} {card_token : String} {r : PaymentAttempt} :
      Takes j (.invoice i) (.insert_attempt a i card_token) r (.last i)
  | key {i : Uuid} {s : Stmt} {r : s.Result} (h : s.Keys i) : Takes j (.last i) s r (.last i)
  | mark {s : Stmt} {r : s.Result} (h : s.Marks) : Takes j .empty s r .attempt
  | settle {s : InvoiceState} {i : Uuid} {n : ℕ} :
      Takes j .attempt (.settle_invoice s i) n (if n = 0 then .done else .last i)
  | leave {s : InvoiceState} {i : Uuid} {n : ℕ} : Takes j .attempt (.leave_processing s i) n .done
  | reopen {i : Uuid} {n : ℕ} : Takes j .attempt (.reopen_invoice i) n .done
  | transition {s : InvoiceState} {i b : Uuid} {v : Int32} {r : Option Invoice} :
      Takes j .empty (.update_state s i b v) r .done
  | begin_content {s : Stmt} {r : s.Result} (hj : j.Edits) (h : s.Fills) :
      Takes j .empty s r .content
  | content {s : Stmt} {r : s.Result} (h : s.Fills) : Takes j .content s r .content

/-- The protocol of every job. -/
inductive Grip.Step (j : Job) : Grip → (e : Eff) → e.Reply → Grip → Prop
  | local_ {x : Grip} {e : Eff} {r : e.Reply} (h : e.Local) : Step j x e r x
  | alone {s : Stmt} {r : Except DbError s.Result} : Step j .out (.sql s) r .out
  | begin : Step j .out .begin (.ok ()) .empty
  | begin_failed {err : DbError} : Step j .out .begin (.error err) .out
  | takes {x : Grip} {s : Stmt} {Y : s.Result → Grip} {a : s.Result}
      (h : ∀ a, Takes j x s a (Y a)) : Step j x (.sql s) (.ok a) (Y a)
  | failed {x : Grip} {s : Stmt} {Y : s.Result → Grip} {err : DbError}
      (h : ∀ a, Takes j x s a (Y a)) : Step j x (.sql s) (.error err) x
  | commit {x : Grip} : Step j x .commit (.ok ()) .out
  | commit_failed {x : Grip} {err : DbError} : Step j x .commit (.error err) x
  | rollback {x : Grip} : Step j x .rollback (.ok ()) .out
  | rollback_failed {x : Grip} {err : DbError} : Step j x .rollback (.error err) x
  | drop {x : Grip} : Step j x .drop () .out

section
variable {j : Job} {α : Type} {x y : Grip}

/-! ### Building blocks -/

theorem alone_grips {s : Stmt} :
    Follows (Grip.Step j) (fun _ y => y = .out) (sql s).run .out := fun _ => ⟨_, .alone, rfl⟩

theorem local_grips {e : Eff} (he : e.Local) {f : e.Reply → Except AppError α} :
    Follows (S := payman) (Grip.Step j) (fun _ y => y = x) (.op e fun r => .ret (f r)) x :=
  fun _ => ⟨_, .local_ he, rfl⟩

theorem reject_if_grips {bad : Prop} [Decidable bad] {e : AppError} :
    Follows (Grip.Step j) (fun _ y => y = x) (reject_if bad e).run x := by
  unfold reject_if
  split <;> exact rfl

theorem ok_or_grips {o : Option α} {e : AppError} :
    Follows (Grip.Step j) (fun _ y => y = x) (ok_or o e).run x := by
  cases o <;> exact rfl

theorem log_error_grips {m : App Unit}
    (h : Follows (Grip.Step j) (fun _ y => y = .out) m.run .out) :
    Follows (Grip.Step j) (fun _ y => y = .out) (log_error m).run .out := .bind (fun _ _ hy => hy) h

/-- No matter how far it gets. -/
abbrev Grip.Anyhow {α : Type} : Except AppError α → Grip → Prop :=
  Safe.Either (fun _ _ => True) fun _ => True

/-- A statement of a transaction, and what comes after it. -/
theorem takes_seq {s : Stmt} (Y : s.Result → Grip) {f : s.Result → App α}
    (h : ∀ a, Grip.Takes j x s a (Y a))
    (hf : ∀ a, Follows (Grip.Step j) Grip.Anyhow (f a).run (Y a)) :
    Follows (Grip.Step j) Grip.Anyhow (sql s >>= f).run x := by
  refine .seqE fun r => ?_
  cases r with
  | ok a => exact ⟨_, .takes h, hf a⟩
  | error e => exact ⟨_, .failed h, trivial⟩

/-- A query of a transaction. -/
theorem look_grips {s : Stmt} (hs : s.Looks) :
    Follows (Grip.Step j) (fun _ y => y = x) (sql s).run x := by
  intro r
  cases r with
  | ok a => exact ⟨_, .takes fun _ => .look hs, rfl⟩
  | error e => exact ⟨_, .failed fun _ => .look hs, rfl⟩

/-- A transaction may end anywhere: COMMIT and DROP let go of everything. -/
theorem or_drop_grips {body : App α} {x : Grip}
    (h : Follows (Grip.Step j) (Safe.Either (fun _ y => y = .out) fun _ => True) body.run x) :
    Follows (Grip.Step j) (fun _ y => y = .out) (or_drop body).run x := by
  refine .ends (or_drop_follows (h.imp fun r y hy => ?_))
  cases r with
  | ok a => exact hy
  | error e => exact ⟨_, .drop, rfl⟩

theorem commit_grips : Follows (Grip.Step j)
    (Safe.Either (fun _ y => y = .out) fun _ => True) commit_tx.run x := by
  intro r
  cases r with
  | ok u => exact ⟨_, .commit, rfl⟩
  | error e => exact ⟨_, .commit_failed, trivial⟩

theorem transaction_grips {body : App α}
    (h : Follows (Grip.Step j) Grip.Anyhow body.run .empty) :
    Follows (Grip.Step j) (fun _ y => y = .out) (transaction body).run .out := by
  intro r
  cases r with
  | error e => exact ⟨_, .begin_failed, rfl⟩
  | ok u =>
    refine ⟨_, .begin, or_drop_grips ?_⟩
    refine .bindE h fun a y _ => ?_
    exact .bindE commit_grips fun _ _ hy => hy

/-! ### Payments -/

theorem start_attempt_grips {index : KeyIndex} {req : PayInvoiceRequest} :
    Follows (Grip.Step j) (fun _ y => y = .out) (start_attempt index req).run .out := by
  refine transaction_grips ?_
  refine takes_seq _ (fun _ => .claim) fun (n : ℕ) => ?_
  unfold reject_if
  by_cases hn : n = 0
  · rw [if_pos hn, if_pos hn]
    exact trivial
  · rw [if_neg hn, if_neg hn]
    show Follows _ _ ((new_v4 >>= _ : App _)).run _
    refine .thenE (local_grips .new_v4) trivial fun a => ?_
    refine takes_seq _ (fun _ => .insert) fun attempt => ?_
    exact takes_seq _ (fun _ => .key .insert_key) fun _ => trivial

/-- The update of an attempt. -/
theorem mark_grips {s : Stmt} (hs : s.Marks) : Follows (Grip.Step j)
    (Safe.Either (fun _ y => y = .attempt) fun _ => True) (sql s).run .empty := by
  intro r
  cases r with
  | ok a => exact ⟨_, .takes fun _ => .mark hs, rfl⟩
  | error e => exact ⟨_, .failed fun _ => .mark hs, trivial⟩

theorem record_outcome_grips {record : App (Option PaymentAttempt)} {state : InvoiceState}
    {event_type : String} {index : KeyIndex} (hrecord : Follows (Grip.Step j)
      (Safe.Either (fun _ y => y = .attempt) fun _ => True) record.run .empty) :
    Follows (Grip.Step j) (fun _ y => y = .out) (record_outcome record state event_type index).run
      .out := by
  refine .ends (.thenE (transaction_grips ?_) rfl fun updated => ?_)
  · -- the attempt is locked first, then the invoice, then the key
    refine .bindE hrecord fun o x hx => ?_
    subst hx
    refine .thenE ok_or_grips trivial fun updated => ?_
    refine takes_seq _ (fun _ => .settle) fun (n : ℕ) => ?_
    unfold rollback_if
    by_cases hn : n = 0
    · rw [if_pos hn, if_pos hn]
      intro r
      cases r with
      | ok u => exact ⟨_, .rollback, trivial⟩
      | error e => exact ⟨_, .rollback_failed, trivial⟩
    · rw [if_neg hn, if_neg hn]
      exact takes_seq _ (fun _ => .key .update_response) fun _ => trivial
  · exact .thenE (local_grips .spawn_dispatch) rfl fun _ => rfl

theorem call_psp_grips {a : Uuid} {card_token : String} :
    Follows (Grip.Step j) (fun _ y => y = .out) (call_psp a card_token).run .out := by
  refine .ends (.thenE (local_grips .send_charge) rfl fun _ => ?_)
  exact .thenE (local_grips .recv_charge) rfl fun _ => rfl

theorem pay_invoice_grips {i b : Uuid} {key : String} {req : PayInvoiceRequest} :
    Follows (Grip.Step j) (fun _ y => y = .out) (pay_invoice i b key req).run .out := by
  have hleave : ∀ attempt : PaymentAttempt, Follows (Grip.Step j)
      (Safe.Either (fun _ y => y = .out) fun y => y = .out)
      (leave_pending attempt (key, b, i)).run .out :=
    fun attempt => .thenE alone_grips rfl fun _ => rfl
  refine .ends (.thenE alone_grips rfl fun existing => ?_)
  cases existing with
  | some body => exact ok_or_grips.either
  | none =>
    refine .thenE start_attempt_grips rfl fun started => ?_
    refine .thenE call_psp_grips rfl fun res => ?_
    cases res with
    | Succeeded psp_ref => exact (record_outcome_grips (mark_grips .attempt_succeeded)).either
    | Failed code => exact (record_outcome_grips (mark_grips .attempt_failed)).either
    | TimedOut => exact hleave _
    | NetworkError => exact hleave _

theorem handlers_pay_invoice_grips {i b : Uuid} {key : Option String} {req : PayInvoiceRequest} :
    Follows (Grip.Step j) (fun _ y => y = .out) (Handlers.pay_invoice i b key req).run .out := by
  refine .ends (.thenE ok_or_grips rfl fun key => ?_)
  exact pay_invoice_grips.either

/-! ### The worker -/

theorem settle_attempt_grips {record : App ℕ} {state : InvoiceState} {event_type : String}
    {i : Uuid} (hrecord : Follows (Grip.Step j)
      (Safe.Either (fun _ y => y = .attempt) fun _ => True) record.run .empty) :
    Follows (Grip.Step j) (fun _ y => y = .out) (settle_attempt record state event_type i).run
      .empty := by
  have htx : Follows (Grip.Step j) (fun _ y => y = .out) (or_drop (do
      let _ ← record
      let _ ← sql (.leave_processing state i)
      commit_tx) : App Unit).run .empty := by
    refine or_drop_grips (.bindE hrecord fun n x hx => ?_)
    subst hx
    refine .seqE fun r => ?_
    cases r with
    | ok n => exact ⟨_, .takes fun _ => .leave, commit_grips⟩
    | error e => exact ⟨_, .failed fun _ => .leave, trivial⟩
  have hbusiness : Follows (Grip.Step j) (fun _ y => y = .out) (get_business_id i).run .out :=
    .ends (.thenE alone_grips rfl fun o => ok_or_grips.either)
  refine .ends (.thenE htx rfl fun _ => ?_)
  refine .thenE hbusiness rfl fun b => ?_
  exact (local_grips .spawn_dispatch).either

theorem apply_outcome_grips {psp : PspBody} {a i : Uuid} :
    Follows (Grip.Step j) (fun _ y => y = .out) (apply_outcome psp a i).run .out := by
  intro r
  cases r with
  | error e => exact ⟨_, .begin_failed, rfl⟩
  | ok u =>
    refine ⟨_, .begin, ?_⟩
    show Follows _ _ (ite _ _ _ : App Unit).run _
    split
    · exact settle_attempt_grips (mark_grips .mark_succeeded)
    · split
      · exact settle_attempt_grips (mark_grips .mark_failed)
      · exact fun _ => ⟨_, .drop, rfl⟩

theorem reconcile_attempt_grips {a i : Uuid} {n : Int32} :
    Follows (Grip.Step j) (fun _ y => y = .out) (reconcile_attempt a i n).run .out := by
  refine .ends (.thenE (local_grips .get_charge) rfl fun ans => ?_)
  cases ans with
  | timed_out => exact rfl
  | network_error => exact rfl
  | response status body =>
    show Follows _ _ (ite _ _ _ : App Unit).run _
    split
    · exact .thenE alone_grips rfl fun _ => rfl
    · split
      · refine .thenE ok_or_grips rfl fun outcome => ?_
        exact apply_outcome_grips.either
      · exact rfl

theorem reconcile_all_grips : ∀ rows : List AttemptRow,
    Follows (Grip.Step j) (fun _ y => y = .out) (reconcile_all rows).run .out
  | [] => rfl
  | _ :: rows => by
    refine .ends (.thenE (log_error_grips reconcile_attempt_grips) rfl fun _ => ?_)
    exact (reconcile_all_grips rows).either

theorem expire_grips {a i : Uuid} :
    Follows (Grip.Step j) (fun _ y => y = .out) (expire a i).run .out := by
  refine transaction_grips ?_
  refine .bindE (mark_grips .expire_attempt) fun n x hx => ?_
  subst hx
  exact takes_seq _ (fun _ => .reopen) fun _ => trivial

theorem expire_all_grips : ∀ rows : List AttemptRow,
    Follows (Grip.Step j) (fun _ y => y = .out) (expire_all rows).run .out
  | [] => rfl
  | _ :: rows => by
    refine .ends (.thenE expire_grips rfl fun _ => ?_)
    exact (expire_all_grips rows).either

theorem tick_grips : Follows (Grip.Step j) (fun _ y => y = .out) tick.run .out := by
  refine .ends (.thenE alone_grips rfl fun attempts => ?_)
  refine .thenE (reconcile_all_grips attempts) rfl fun _ => ?_
  refine .thenE alone_grips rfl fun expired => ?_
  exact (expire_all_grips expired).either

/-! ### Invoices -/

theorem finalize_invoice_grips {i b : Uuid} {req : FinalizeInvoiceRequest} :
    Follows (Grip.Step j) (fun _ y => y = .out) (finalize_invoice i b req).run .out := by
  refine .ends (.thenE (transaction_grips ?_) rfl fun updated => ?_)
  · refine .thenE (look_grips .select_invoice) trivial fun o => ?_
    refine .thenE ok_or_grips trivial fun r => ?_
    refine .thenE reject_if_grips trivial fun _ => ?_
    refine takes_seq _ (fun _ => .transition) fun o => ?_
    cases o <;> exact trivial
  · exact .thenE (local_grips .spawn_dispatch) rfl fun _ => rfl

theorem void_invoice_grips {i b : Uuid} {req : VoidInvoiceRequest} :
    Follows (Grip.Step j) (fun _ y => y = .out) (void_invoice i b req).run .out := by
  refine transaction_grips ?_
  refine .thenE (look_grips .select_state_at_version) trivial fun o => ?_
  refine .thenE ok_or_grips trivial fun s => ?_
  refine .thenE reject_if_grips trivial fun _ => ?_
  refine takes_seq _ (fun _ => .transition) fun o => ?_
  cases o <;> exact trivial

/-- In the transaction of an edit. -/
def Grip.Editing (x : Grip) : Prop := x = .empty ∨ x = .content

/-- No matter how much has been written. -/
abbrev Grip.Edited {α : Type} : Except AppError α → Grip → Prop :=
  Safe.Either (fun _ => Grip.Editing) fun _ => True

theorem fills_grips {s : Stmt} (hj : j.Edits) (hs : s.Fills) (hx : x.Editing) :
    Follows (Grip.Step j) Grip.Edited (sql s).run x := by
  have htakes : ∀ a : s.Result, Grip.Takes j x s a .content := fun a => by
    rcases hx with rfl | rfl
    · exact .begin_content hj hs
    · exact .content hs
  intro r
  cases r with
  | ok a => exact ⟨_, .takes htakes, .inr rfl⟩
  | error e => exact ⟨_, .failed htakes, trivial⟩

theorem check_line_item_grips (item : CreateLineItemRequest) :
    Follows (Grip.Step j) (fun _ y => y = x) (check_line_item item).run x :=
  .ends (.thenE reject_if_grips rfl fun _ => reject_if_grips.either)

theorem check_due_date_grips {due_date : NaiveDate} :
    Follows (Grip.Step j) (fun _ y => y = x) (check_due_date due_date).run x :=
  .ends (.thenE (local_grips .utc_now) rfl fun _ => reject_if_grips.either)

theorem insert_line_items_grips (hj : j.Edits) {check : CreateLineItemRequest → App Unit}
    (hcheck : ∀ item y, Follows (Grip.Step j) (fun _ z => z = y) (check item).run y) {i : Uuid} :
    ∀ (items : List CreateLineItemRequest) {x : Grip}, x.Editing →
      Follows (Grip.Step j) Grip.Edited (insert_line_items check i items).run x
  | [], _, hx => hx
  | item :: items, _, hx => by
    refine .thenE (hcheck item _) trivial fun _ => ?_
    refine .bindE (fills_grips hj .insert_line_item hx) fun line_item y hy => ?_
    exact .bindE (insert_line_items_grips hj hcheck items hy) fun line_items z hz => hz

theorem create_invoice_grips (hj : j.Edits) {b : Uuid} {req : CreateInvoiceRequest} :
    Follows (Grip.Step j) (fun _ y => y = .out) (create_invoice b req).run .out := by
  refine .ends (.thenE alone_grips rfl fun customer => ?_)
  refine .thenE ok_or_grips rfl fun _ => ?_
  refine .thenE reject_if_grips rfl fun _ => ?_
  refine .thenE check_due_date_grips rfl fun _ => ?_
  refine (transaction_grips ?_).either
  refine .thenE (local_grips .new_v4) trivial fun invoice_id => ?_
  refine .bindE (fills_grips hj .insert_invoice (.inl rfl)) fun invoice x hx => ?_
  have hcheck : ∀ (item : CreateLineItemRequest) y,
      Follows (Grip.Step j) (fun _ z => z = y) (check_line_item item).run y :=
    fun item _ => check_line_item_grips item
  exact .bindE (insert_line_items_grips hj hcheck req.line_items hx) fun line_items _ _ => trivial

theorem set_due_date_grips (hj : j.Edits) {i : Uuid} {due_date : Option NaiveDate}
    (hx : x.Editing) :
    Follows (Grip.Step j) Grip.Edited (set_due_date i due_date).run x := by
  cases due_date with
  | none => exact hx
  | some d =>
    refine .thenE check_due_date_grips trivial fun _ => ?_
    exact .bindE (fills_grips hj .update_due_date hx) fun _ _ hy => hy

theorem replace_line_items_grips (hj : j.Edits) {i : Uuid}
    {items : Option (List CreateLineItemRequest)} (hx : x.Editing) :
    Follows (Grip.Step j) Grip.Edited (replace_line_items i items).run x := by
  cases items with
  | none =>
    refine (look_grips .select_line_items).imp fun r y hy => ?_
    cases r with
    | ok a => exact (show y = x from hy) ▸ hx
    | error e => trivial
  | some items =>
    have hdelete : Follows (Grip.Step j) Grip.Edited (delete_line_items i).run x :=
      .thenE (look_grips .scan_line_items) trivial fun _ => fills_grips hj .delete_line_items hx
    have hchecked : ∀ (item : CreateLineItemRequest) y, Follows (Grip.Step j) (fun _ z => z = y)
        (pure () : App Unit).run y := fun _ _ => rfl
    refine .thenE reject_if_grips trivial fun _ => ?_
    refine .bindE hdelete fun _ y hy => ?_
    refine .bindE (insert_line_items_grips hj hchecked items hy) fun line_items z hz => ?_
    exact .bindE (fills_grips hj .update_total hz) fun _ _ hw => hw

theorem check_line_items_grips : ∀ items : List CreateLineItemRequest,
    Follows (Grip.Step j) (fun _ y => y = x) (check_line_items items).run x
  | [] => rfl
  | item :: items => by
    refine .ends (.thenE (check_line_item_grips item) rfl fun _ => ?_)
    exact (check_line_items_grips items).either

theorem check_edit_items_grips {items : Option (List CreateLineItemRequest)} :
    Follows (Grip.Step j) (fun _ y => y = x) (check_edit_items items).run x := by
  cases items with
  | none => exact rfl
  | some items =>
    refine .ends (.thenE reject_if_grips rfl fun _ => ?_)
    exact (check_line_items_grips items).either

theorem edit_invoice_grips (hj : j.Edits) {i b : Uuid} {req : EditInvoiceRequest} :
    Follows (Grip.Step j) (fun _ y => y = .out) (edit_invoice i b req).run .out := by
  refine .ends (.thenE check_edit_items_grips rfl fun _ => ?_)
  refine .thenE alone_grips rfl fun rows_affected => ?_
  refine .thenE reject_if_grips rfl fun _ => ?_
  refine (transaction_grips ?_).either
  refine .thenE (look_grips .select_invoice_state) trivial fun o => ?_
  refine .thenE ok_or_grips trivial fun s => ?_
  refine .thenE reject_if_grips trivial fun _ => ?_
  refine .bindE (set_due_date_grips hj (.inl rfl)) fun _ x hx => ?_
  refine .bindE (replace_line_items_grips hj hx) fun line_items y hy => ?_
  refine .thenE (look_grips .select_updated) trivial fun o => ?_
  exact .thenE ok_or_grips trivial fun _ => trivial

/-! ### The other jobs -/

theorem insert_deliveries_grips {event_type : String} {payload : Json} :
    ∀ endpoints : List WebhookEndpoint, Follows (Grip.Step j) (fun _ y => y = .out)
      (insert_deliveries event_type payload endpoints).run .out
  | [] => rfl
  | _ :: endpoints => by
    refine .ends (.thenE alone_grips rfl fun _ => ?_)
    exact (insert_deliveries_grips endpoints).either

theorem dispatch_grips {b i : Uuid} {event_type : String} :
    Follows (Grip.Step j) (fun _ y => y = .out) (dispatch b i event_type).run .out := by
  refine .ends (.thenE alone_grips rfl fun endpoints => ?_)
  cases endpoints with
  | nil => exact rfl
  | cons e es =>
    refine .thenE (local_grips .utc_now) rfl fun t => ?_
    exact (insert_deliveries_grips (e :: es)).either

theorem deliver_grips {d : Uuid} {url secret : String} {payload : Json} :
    Follows (Grip.Step j) (fun _ y => y = .out) (deliver d url secret payload).run .out := by
  refine .ends (.thenE (local_grips .utc_now) rfl fun now => ?_)
  refine .thenE (local_grips .post_webhook) rfl fun ans => ?_
  split <;> exact .thenE alone_grips rfl fun _ => rfl

theorem deliver_all_grips : ∀ deliveries : List DueDelivery,
    Follows (Grip.Step j) (fun _ y => y = .out) (deliver_all deliveries).run .out
  | [] => rfl
  | _ :: deliveries => by
    refine .ends (.thenE (log_error_grips deliver_grips) rfl fun _ => ?_)
    exact (deliver_all_grips deliveries).either

theorem adapt_grips {m : App α} {f : AppError → AppError}
    (h : Follows (Grip.Step j) (fun _ y => y = x) m.run x) :
    Follows (Grip.Step j) (fun _ y => y = x) (m.adapt f).run x :=
  .bind (fun _ _ hy => hy) h

theorem create_customer_grips {b : Uuid} {req : CreateCustomerRequest} :
    Follows (Grip.Step j) (fun _ y => y = .out) (create_customer req b).run .out := by
  refine .ends (.thenE (local_grips .new_v4) rfl fun customer_id => ?_)
  exact (adapt_grips alone_grips).either

theorem create_endpoint_grips {b : Uuid} {req : CreateWebhookEndpointRequest} :
    Follows (Grip.Step j) (fun _ y => y = .out) (create_endpoint b req).run .out := by
  refine .ends (.thenE (local_grips .new_v4) rfl fun endpoint_id => ?_)
  exact alone_grips.either

theorem delete_endpoint_grips {e b : Uuid} :
    Follows (Grip.Step j) (fun _ y => y = .out) (delete_endpoint e b).run .out := by
  refine .ends (.thenE alone_grips rfl fun rows_affected => ?_)
  exact reject_if_grips.either

/-- A check that comes before the rest. -/
theorem guard_grips {bad : Prop} [Decidable bad] {e : AppError} {m : App α}
    (h : Follows (Grip.Step j) (fun _ y => y = x) m.run x) : Follows (Grip.Step j)
      (fun _ y => y = x) (reject_if bad e >>= fun _ => m).run x :=
  Follows.ends (Follows.thenE reject_if_grips rfl fun _ => h.either)

theorem get_invoice_grips {i b : Uuid} :
    Follows (Grip.Step j) (fun _ y => y = .out) (get_invoice i b).run .out := by
  refine .ends (.thenE alone_grips rfl fun o => ?_)
  refine .thenE ok_or_grips rfl fun invoice => ?_
  exact .thenE alone_grips rfl fun line_items => rfl

theorem query_grips {s : Stmt} {f : s.Result → App α}
    (h : ∀ a, Follows (Grip.Step j) (fun _ y => y = .out) (f a).run .out) :
    Follows (Grip.Step j) (fun _ y => y = .out) (sql s >>= f).run .out :=
  .ends (.thenE alone_grips rfl fun a => (h a).either)

-- unification must not run the programs, which compare strings
attribute [local irreducible] Follows

/-- CORRECT: every job follows the protocol. -/
theorem Job.grips (j : Job) :
    Follows (Grip.Step j) (fun _ y => y = .out) j.program.run .out := by
  cases j with
  | tick => exact Follows.map tick_grips
  | dispatch t => exact Follows.map dispatch_grips
  | deliveries => exact Follows.map (query_grips fun ds => deliver_all_grips ds)
  | call q =>
    cases q with
    | create_invoice b req =>
      have hj : Job.Edits (.call (.create_invoice b req)) := trivial
      exact Follows.map (guard_grips (create_invoice_grips hj))
    | get_invoice i b => exact Follows.map get_invoice_grips
    | edit_invoice i b req =>
      have hj : Job.Edits (.call (.edit_invoice i b req)) := trivial
      exact Follows.map (edit_invoice_grips hj)
    | list_invoices b query =>
      show Follows _ _ (_ <$> sql (.list_invoices b query.state)).run _
      exact Follows.map alone_grips
    | finalize_invoice i b req => exact Follows.map finalize_invoice_grips
    | void_invoice i b req => exact Follows.map void_invoice_grips
    | pay_invoice i b key req => exact Follows.map handlers_pay_invoice_grips
    | create_customer b req => exact Follows.map (guard_grips (guard_grips create_customer_grips))
    | get_customer c b => exact Follows.map (query_grips fun o => ok_or_grips)
    | list_customers b =>
      show Follows _ _ (_ <$> sql (.list_customers b)).run _
      exact Follows.map alone_grips
    | create_endpoint b req => exact Follows.map (guard_grips (guard_grips create_endpoint_grips))
    | get_endpoint e b => exact Follows.map (query_grips fun o => ok_or_grips)
    | list_endpoints b =>
      show Follows _ _ (_ <$> sql (.list_endpoints b)).run _
      exact Follows.map alone_grips
    | delete_endpoint e b => exact Follows.map delete_endpoint_grips

end

/-! ### What the phases assert -/

/-- What a transaction in phase `x` of job `j` has locked. -/
def Grip.Locks (j : Job) (db : Db) : Grip → List LockKey → Prop
  | .out, _ => False
  | .empty, L => L = []
  | .attempt, L => ∀ k ∈ L, ∃ a row, k = .attempt a ∧ db.attempt a = some row
  | .invoice i, L => .invoice i ∈ L ∧ ∀ k ∈ L, k = .invoice i
  | .last i, L => .invoice i ∈ L ∧ ∀ t, LockKey.key t ∈ L → t.2.2 = i
  | .done, L => ∀ t, LockKey.key t ∉ L
  | .content, L => j.Edits ∧ ∀ k ∈ L, k.Content

def Grip.Asserts (p : Pid) (j : Job) (x : Grip) (w : World) : Prop :=
  (x = .out ∧ w.tx p = none) ∨ ∃ t, w.tx p = some t ∧ x.Locks j w.db (lockSet t.writes)

/-- The watch on everybody's locks. -/
def Grip.watches : Watches Grip := fun p j => ⟨Grip.Step j, fun _ x => x = .out, Grip.Asserts p j⟩

namespace Grip
variable {j : Job} {db db' : Db} {x y : Grip} {p : Pid} {w w' : World} {c : Choice}

theorem Locks.lasts {L : List LockKey} (h : x.Locks j db L) (hl : Lasts db db') :
    x.Locks j db' L := by
  cases x with
  | attempt =>
    intro k hk
    obtain ⟨a, row, rfl, hrow⟩ := h k hk
    obtain ⟨row', hrow', -⟩ := hl.attempt a row hrow
    exact ⟨a, row', rfl, hrow'⟩
  | _ => exact h

/-- A statement of the transaction. -/
theorem Takes.locks {s : Stmt} {a : s.Result} {vs ws : List Write} {now : DateTime}
    (h : Takes j x s a y) (hL : x.Locks j db (lockSet vs))
    (hrun : s.run now c (applyAll db vs) = .ok (ws, a)) : y.Locks j db (lockSet (vs ++ ws)) := by
  rw [lockSet_append]
  cases h with
  | look hs =>
    rw [hs.writes hrun, lockSet_nil, List.append_nil]
    exact hL
  | @claim i v n =>
    rw [show lockSet vs = [] from hL, List.nil_append]
    split
    · rename_i hn
      rcases Stmt.rows_affected_ok hrun with ⟨-, rfl, -⟩ | ⟨-, -, -, -, -, -, h1⟩
      · exact lockSet_nil
      · exact absurd (hn.symm.trans h1) (by decide)
    · rename_i hn
      refine ⟨Stmt.locks_of_count hrun hn fun r r' hs => ?_, Stmt.Moves.claim_open.locks hrun⟩
      obtain ⟨-, rfl⟩ := Stmt.map_next_i32_ok hs
      rfl
  | @insert a i card_token r =>
    obtain ⟨-, rfl, rfl⟩ := Stmt.run_insert_attempt hrun
    refine ⟨List.mem_append_left _ hL.1, fun t ht => ?_⟩
    rcases List.mem_append.mp ht with ht | ht
    · cases hL.2 _ ht
    · cases List.mem_singleton.mp ht
  | @key i s r hs =>
    refine ⟨List.mem_append_left _ hL.1, fun t ht => ?_⟩
    rcases List.mem_append.mp ht with ht | ht
    · exact hL.2 t ht
    · obtain ⟨t', heq, hi⟩ := hs.locks hrun _ ht
      cases heq
      exact hi
  | mark hs =>
    have hnil : lockSet vs = [] := hL
    rw [hnil, List.nil_append]
    intro k hk
    obtain ⟨b, row, rfl, hrow⟩ := hs.locks hrun k hk
    have hb : LockKey.attempt b ∉ lockSet vs := by simp [hnil]
    rw [(Db.readsOnly_attempt b).applyAll vs db hb] at hrow
    exact ⟨b, row, rfl, hrow⟩
  | @settle s i n =>
    have hno : ∀ t, LockKey.key t ∉ lockSet vs ++ lockSet ws := fun t ht => by
      rcases List.mem_append.mp ht with ht | ht
      · obtain ⟨b, row, heq, -⟩ := hL _ ht
        cases heq
      · cases Stmt.Moves.settle_invoice.locks hrun _ ht
    split
    · exact hno
    · rename_i hn
      refine ⟨List.mem_append_right _ (Stmt.locks_of_count hrun hn fun r r' hs => ?_),
        fun t ht => absurd ht (hno t)⟩
      obtain ⟨-, rfl⟩ := Stmt.map_next_i32_ok hs
      rfl
  | leave =>
    intro t ht
    rcases List.mem_append.mp ht with ht | ht
    · obtain ⟨b, row, heq, -⟩ := hL _ ht
      cases heq
    · cases Stmt.Moves.leave_processing.locks hrun _ ht
  | reopen =>
    intro t ht
    rcases List.mem_append.mp ht with ht | ht
    · obtain ⟨b, row, heq, -⟩ := hL _ ht
      cases heq
    · cases Stmt.Moves.reopen_invoice.locks hrun _ ht
  | transition =>
    rw [show lockSet vs = [] from hL, List.nil_append]
    exact fun t ht => nomatch Stmt.Moves.update_state.locks hrun _ ht
  | begin_content hj hs =>
    rw [show lockSet vs = [] from hL, List.nil_append]
    exact ⟨hj, hs.locks hrun⟩
  | content hs =>
    refine ⟨hL.1, fun k hk => ?_⟩
    exact (List.mem_append.mp hk).elim (hL.2 k) (hs.locks hrun k)

/-- Outside a transaction it takes nothing that it keeps. -/
theorem Takes.of_out {s : Stmt} {a : s.Result} (h : Takes j .out s a y) : y = .out := by
  cases h with
  | look => rfl

/-- An operation of the process itself. -/
theorem Step.own {e : Eff} {r : e.Reply} (hstep : Step j x e r y)
    (hx : w.exec p e c = some (w', r)) (hl : Lasts w.db w'.db) (h : x.Asserts p j w) :
    y.Asserts p j w' := by
  have hsame : w'.tx p = w.tx p → x.Asserts p j w' := fun htx => by
    rcases h with ⟨rfl, hnone⟩ | ⟨t, ht, hL⟩
    · exact .inl ⟨rfl, htx.trans hnone⟩
    · exact .inr ⟨t, htx.trans ht, hL.lasts hl⟩
  cases hstep with
  | local_ he => exact hsame (by cases he <;> cases hx <;> rfl)
  | alone =>
    rcases h with ⟨-, hnone⟩ | ⟨t, ht, hL⟩
    · exact .inl ⟨rfl, (World.sql_idle hx hnone).1⟩
    · exact hL.elim
  | begin =>
    obtain ⟨⟨t, ht⟩, -⟩ := World.begin_ok hx
    exact .inr ⟨_, ht, rfl⟩
  | begin_failed => exact hsame (World.begin_error hx).1
  | takes hall =>
    rcases h with ⟨rfl, hnone⟩ | ⟨t, ht, hL⟩
    · exact .inl ⟨(hall _).of_out, (World.sql_idle hx hnone).1⟩
    · obtain ⟨hdb, -, ⟨err, hr, -⟩ | ⟨ws, a, hr, hrun, htx⟩⟩ := World.sql_inside hx ht
      · cases hr
      · cases hr
        exact .inr ⟨_, htx, ((hall _).locks hL hrun).lasts (hdb ▸ .refl _)⟩
  | failed =>
    obtain ⟨rfl, -⟩ := World.act_sql_error hx
    exact hsame rfl
  | commit =>
    obtain ⟨t, -, htx, -⟩ := World.commit_ok hx
    exact .inl ⟨rfl, htx⟩
  | commit_failed => exact hsame (World.commit_error hx).1
  | rollback => exact .inl ⟨rfl, (World.rollback_ok hx).1⟩
  | rollback_failed => exact hsame (World.rollback_error hx).1
  | drop => exact .inl ⟨rfl, (World.drop_ok hx).1⟩

theorem Asserts.passed (h : x.Asserts p j w) (hp : Passed p w w') : x.Asserts p j w' := by
  rcases h with ⟨rfl, hnone⟩ | ⟨t, ht, hL⟩
  · exact .inl ⟨rfl, hp.tx.trans hnone⟩
  · exact .inr ⟨t, hp.tx.trans ht, hL.lasts hp.lasts⟩

/-- CORRECT (step): nobody disturbs the watch. -/
theorem upholds {K : Setting} {σ : Sys} {l : Sys.Label} (h : Inv K σ) (hk : Honours K σ l) :
    σ.Upholds watches l where
  start := fun p j _ _ hhead _ => ⟨.out, Job.grips j, .inl ⟨rfl, h.idle p hhead⟩⟩
  own := fun p j e k c w r x x' hl hp hx hx' hstep => by
    subst hl
    exact Step.own hstep hx (h.exec_keeps hk hp hx).1.1.lasts hx'
  other := fun q j w x hp hx => hx.passed hp

end Grip

/-- CORRECT (run): every process is in a phase of the protocol, with the locks of that phase. -/
theorem Sys.Reachable.gripped {σ : Sys} (h : σ.Reachable) : σ.Watched Grip.watches :=
  h.watched fun _ _ hinv => Grip.upholds hinv .any

end Payman
