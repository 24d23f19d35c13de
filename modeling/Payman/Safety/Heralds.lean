import Payman.Safety.Polls
import Payman.Safety.Turns

/-! Who announces an outcome.

    A payment and the reconciliation worker follow one protocol: the PSP answers for an attempt, a
    transaction records the answer, and once that is committed the process owes the endpoints an
    event until it has spawned the dispatch. `Herald` says where a process is in this, in terms of
    what the PSP has said and not of who asked. -/

namespace Payman
open Schemes

/-- The event that a verdict is announced with. -/
def Verdict.event : Verdict → String
  | .paid => "invoice.paid"
  | .declined => "invoice.payment_failed"

/-- What the PSP has said of an attempt, and the invoice that the attempt pays. -/
structure News where
  attempt : Uuid
  invoice : Uuid
  verdict : Verdict

/-- Where a process is: outside a transaction, in one that records no answer, with an answer of the
    PSP before its transaction, in that transaction before and after the update of the attempt, or
    with the commit behind it and the event to announce, before and after it has looked up the
    business. `known` are the attempts that it may ask the PSP for, each with its invoice. -/
inductive Herald where
  | quiet (known : List (Uuid × Uuid))
  | busy (known : List (Uuid × Uuid))
  | answered (x : News) (known : List (Uuid × Uuid))
  | ready (x : News) (known : List (Uuid × Uuid))
  | recording (x : News) (known : List (Uuid × Uuid))
  | due (x : News) (known : List (Uuid × Uuid))
  | named (x : News) (b : Uuid) (known : List (Uuid × Uuid))

/-- Operations outside a transaction that settle no attempt. -/
inductive Eff.Outside : Eff → Prop where
  | drop : Outside .drop
  | select_response {t : KeyIndex} : Outside (.sql (.select_response t))
  | update_response {body : Json} {status : Int32} {t : KeyIndex} :
      Outside (.sql (.update_response body status t))
  | select_pending : Outside (.sql .select_pending)
  | schedule_retry {m : Int32} {a : Uuid} : Outside (.sql (.schedule_retry m a))
  | select_expired : Outside (.sql .select_expired)

/-- Operations of the transactions that start a payment or expire an attempt. -/
inductive Eff.Inside : Eff → Prop where
  | new_v4 : Inside .new_v4
  | claim_open {i : Uuid} {v : Int32} : Inside (.sql (.claim_open i v))
  | insert_attempt {a i : Uuid} {card_token : String} :
      Inside (.sql (.insert_attempt a i card_token))
  | insert_key {t : KeyIndex} {status : Int32} {body : Json} :
      Inside (.sql (.insert_key t status body))
  | expire_attempt {a : Uuid} : Inside (.sql (.expire_attempt a))
  | reopen_invoice {i : Uuid} : Inside (.sql (.reopen_invoice i))

/-- The update that records the news. -/
inductive Stmt.Records (a : Uuid) : Verdict → Stmt → Prop where
  | attempt_succeeded {psp_ref : String} : Records a .paid (.attempt_succeeded psp_ref a)
  | attempt_failed {code : String} : Records a .declined (.attempt_failed code a)
  | mark_succeeded {psp_ref : Option String} : Records a .paid (.mark_succeeded psp_ref a)
  | mark_failed {code : Option String} : Records a .declined (.mark_failed code a)

/-- The rest of the transaction that records an outcome. -/
inductive Stmt.Follows : Stmt → Prop where
  | settle_invoice {s : InvoiceState} {i : Uuid} : Follows (.settle_invoice s i)
  | leave_processing {s : InvoiceState} {i : Uuid} : Follows (.leave_processing s i)
  | update_response {body : Json} {status : Int32} {t : KeyIndex} :
      Follows (.update_response body status t)

/-- The protocol of a call that pays an invoice for a business, or of the reconciliation worker. -/
inductive Herald.Step (pays : Option (Uuid × Uuid)) : Herald → (e : Eff) → e.Reply → Herald → Prop
  | outside {k : List (Uuid × Uuid)} {e : Eff} {r : e.Reply} (h : e.Outside) :
      Step pays (.quiet k) e r (.quiet k)
  | select {k : List (Uuid × Uuid)} {rows : List AttemptRow} :
      Step pays (.quiet k) (.sql .select_pending) (.ok rows)
        (.quiet (rows.map fun row => (row.id, row.invoice_id)))
  | charge {k : List (Uuid × Uuid)} {a i b : Uuid} {card_token : String} (h : pays = some (i, b)) :
      Step pays (.quiet k) (.send_charge a card_token) () (.quiet [(a, i)])
  | posted {k : List (Uuid × Uuid)} {a i : Uuid} {ans : Answer} {o : Outcome} (hk : (a, i) ∈ k)
      (ho : (psp_result ans).outcome = some o) :
      Step pays (.quiet k) (.recv_charge a) ans (.answered ⟨a, i, o.verdict⟩ k)
  | unposted {k : List (Uuid × Uuid)} {a : Uuid} {ans : Answer} :
      Step pays (.quiet k) (.recv_charge a) ans (.quiet k)
  | polled {k : List (Uuid × Uuid)} {a i : Uuid} {status : ℕ} {psp : PspBody} {o : Outcome}
      (hk : (a, i) ∈ k) (hs : is_success status = true) (ho : psp.outcome = some o) :
      Step pays (.quiet k) (.get_charge a) (.response status (some psp))
        (.answered ⟨a, i, o.verdict⟩ k)
  | unpolled {k : List (Uuid × Uuid)} {a : Uuid} {ans : Answer} :
      Step pays (.quiet k) (.get_charge a) ans (.quiet k)
  | open_ {k : List (Uuid × Uuid)} : Step pays (.quiet k) .begin (.ok ()) (.busy k)
  | open_failed {k : List (Uuid × Uuid)} {err : DbError} :
      Step pays (.quiet k) .begin (.error err) (.quiet k)
  | inside {k : List (Uuid × Uuid)} {e : Eff} {r : e.Reply} (h : e.Inside) :
      Step pays (.busy k) e r (.busy k)
  | close {k : List (Uuid × Uuid)} : Step pays (.busy k) .commit (.ok ()) (.quiet k)
  | close_failed {k : List (Uuid × Uuid)} {err : DbError} :
      Step pays (.busy k) .commit (.error err) (.busy k)
  | drop {k : List (Uuid × Uuid)} : Step pays (.busy k) .drop () (.quiet k)
  | begin {x : News} {k : List (Uuid × Uuid)} :
      Step pays (.answered x k) .begin (.ok ()) (.ready x k)
  | begin_failed {x : News} {k : List (Uuid × Uuid)} {err : DbError} :
      Step pays (.answered x k) .begin (.error err) (.quiet k)
  | record {x : News} {k : List (Uuid × Uuid)} {s : Stmt} {r : s.Result}
      (h : s.Records x.attempt x.verdict) :
      Step pays (.ready x k) (.sql s) (.ok r) (.recording x k)
  | record_failed {x : News} {k : List (Uuid × Uuid)} {s : Stmt} {err : DbError}
      (h : s.Records x.attempt x.verdict) :
      Step pays (.ready x k) (.sql s) (.error err) (.ready x k)
  | abandon {x : News} {k : List (Uuid × Uuid)} : Step pays (.ready x k) .drop () (.quiet k)
  | follow {x : News} {k : List (Uuid × Uuid)} {s : Stmt} {r : Except DbError s.Result}
      (h : s.Follows) : Step pays (.recording x k) (.sql s) r (.recording x k)
  | rollback {x : News} {k : List (Uuid × Uuid)} :
      Step pays (.recording x k) .rollback (.ok ()) (.quiet k)
  | rollback_failed {x : News} {k : List (Uuid × Uuid)} {err : DbError} :
      Step pays (.recording x k) .rollback (.error err) (.recording x k)
  | undo {x : News} {k : List (Uuid × Uuid)} : Step pays (.recording x k) .drop () (.quiet k)
  | commit {x : News} {k : List (Uuid × Uuid)} :
      Step pays (.recording x k) .commit (.ok ()) (.due x k)
  | commit_failed {x : News} {k : List (Uuid × Uuid)} {err : DbError} :
      Step pays (.recording x k) .commit (.error err) (.recording x k)
  | announce {x : News} {k : List (Uuid × Uuid)} {b : Uuid} (h : pays = some (x.invoice, b)) :
      Step pays (.due x k) (.spawn_dispatch ⟨b, x.invoice, x.verdict.event⟩) () (.quiet k)
  | business {x : News} {k : List (Uuid × Uuid)} {b : Uuid} :
      Step pays (.due x k) (.sql (.select_business_id x.invoice)) (.ok (some b)) (.named x b k)
  | business_failed {x : News} {k : List (Uuid × Uuid)} {r : Except DbError (Option Uuid)}
      (hr : ∀ b, r ≠ .ok (some b)) :
      Step pays (.due x k) (.sql (.select_business_id x.invoice)) r (.quiet k)
  | announce_named {x : News} {k : List (Uuid × Uuid)} {b : Uuid} :
      Step pays (.named x b k) (.spawn_dispatch ⟨b, x.invoice, x.verdict.event⟩) () (.quiet k)

/-- Nothing is left to announce. -/
def Herald.Done (x : Herald) : Prop := ∃ k, x = .quiet k

section
variable {pays : Option (Uuid × Uuid)} {k : List (Uuid × Uuid)} {x : News} {α : Type}

/-! ### The transactions that record nothing -/

theorem outside_follows {e : Eff} (he : e.Outside) {f : e.Reply → Except AppError α} :
    Follows (S := payman) (Herald.Step pays) (fun _ y => y = .quiet k) (.op e fun r => .ret (f r))
      (.quiet k) := fun _ => ⟨_, .outside he, rfl⟩

theorem inside_follows {e : Eff} (he : e.Inside) {f : e.Reply → Except AppError α} :
    Follows (S := payman) (Herald.Step pays) (fun _ y => y = .busy k) (.op e fun r => .ret (f r))
      (.busy k) := fun _ => ⟨_, .inside he, rfl⟩

/-- A transaction that records no answer. -/
theorem busy_follows {body : App α} (hbody : Follows (S := payman) (Herald.Step pays)
    (fun _ y => y = .busy k) body.run (.busy k)) : Follows (Herald.Step pays)
      (fun _ y => y = .quiet k) (transaction body).run (.quiet k) := by
  have hdrop : ∃ y, Herald.Step pays (.busy k) .drop () y ∧ y = .quiet k := ⟨_, .drop, rfl⟩
  intro r
  cases r with
  | error err => exact ⟨_, .open_failed, rfl⟩
  | ok u =>
    refine ⟨_, .open_, .ends (or_drop_follows (.thenE hbody hdrop fun a => ?_))⟩
    intro r
    cases r with
    | error err => exact ⟨_, .close_failed, hdrop⟩
    | ok u => exact ⟨_, .close, rfl⟩

theorem start_attempt_follows {index : KeyIndex} {req : PayInvoiceRequest} :
    Follows (Herald.Step pays) (fun _ y => y = .quiet k) (start_attempt index req).run
      (.quiet k) := by
  refine busy_follows (.ends (.thenE (inside_follows .claim_open) rfl fun n => ?_))
  unfold reject_if
  split
  · exact rfl
  · show Follows _ _ ((new_v4 >>= _ : App _)).run _
    refine .thenE (inside_follows .new_v4) rfl fun a => ?_
    refine .thenE (inside_follows .insert_attempt) rfl fun attempt => ?_
    exact .thenE (inside_follows .insert_key) rfl fun _ => rfl

theorem expire_tells {a i : Uuid} :
    Follows (Herald.Step pays) (fun _ y => y = .quiet k) (expire a i).run (.quiet k) := by
  refine busy_follows (.ends (.thenE (inside_follows .expire_attempt) rfl fun _ => ?_))
  exact .thenE (inside_follows .reopen_invoice) rfl fun _ => rfl

/-! ### The transaction that records the news -/

/-- The update, whatever it returns. -/
theorem record_follows {s : Stmt} (hs : s.Records x.attempt x.verdict) :
    Follows (Herald.Step pays) (Safe.Either (fun _ y => y = .recording x k) fun y => y = .ready x k)
      (sql s).run (.ready x k) := by
  intro r
  cases r with
  | error err => exact ⟨_, .record_failed hs, rfl⟩
  | ok a => exact ⟨_, .record hs, rfl⟩

theorem follow_follows {s : Stmt} (hs : s.Follows) :
    Follows (Herald.Step pays) (fun _ y => y = .recording x k) (sql s).run (.recording x k) :=
  fun _ => ⟨_, .follow hs, rfl⟩

theorem commit_follows : Follows (Herald.Step pays)
    (Safe.Either (fun _ y => y = .due x k) fun y => y = .recording x k) commit_tx.run
      (.recording x k) := by
  intro r
  cases r with
  | error err => exact ⟨_, .commit_failed, rfl⟩
  | ok u => exact ⟨_, .commit, rfl⟩

theorem record_outcome_follows {record : App (Option PaymentAttempt)} {state : InvoiceState}
    {index : KeyIndex} (hrecord : Follows (Herald.Step pays)
      (Safe.Either (fun _ y => y = .recording x k) fun y => y = .ready x k) record.run (.ready x k))
    (hi : x.invoice = index.2.2) (hpays : pays = some (x.invoice, index.2.1)) :
    Follows (Herald.Step pays) (fun _ y => y = .quiet k)
      (record_outcome record state x.verdict.event index).run (.answered x k) := by
  have habandon : ∃ z, Herald.Step pays (.ready x k) .drop () z ∧ z = .quiet k :=
    ⟨_, .abandon, rfl⟩
  have hundo : ∃ z, Herald.Step pays (.recording x k) .drop () z ∧ z = .quiet k := ⟨_, .undo, rfl⟩
  have htx : Follows (Herald.Step pays)
      (Safe.Either (fun _ y => y = .due x k) fun y => y = .quiet k) (transaction (do
        let updated : PaymentAttempt ← fetch_one (← record)
        let rows_affected : ℕ ← sql (.settle_invoice state index.2.2)
        rollback_if (rows_affected = 0) (.Conflict "invoice state changed unexpectedly")
        let response_body := updated.to_value
        let _ ← sql (.update_response response_body 200 index)
        return updated)).run (.answered x k) := by
    intro r
    cases r with
    | error err => exact ⟨_, .begin_failed, rfl⟩
    | ok u =>
      refine ⟨_, .begin, or_drop_follows (.bindE (?_ : Follows (S := payman) _
        (Safe.Either (fun _ y => y = .recording x k) _) _ _) fun updated y hy => ?_)⟩
      · refine .elseE hrecord habandon fun o => ?_
        cases o with
        | none => exact hundo
        | some updated =>
          refine .thenE (y := .recording x k) rfl hundo fun updated => ?_
          refine .thenE (follow_follows .settle_invoice) hundo fun n => ?_
          unfold rollback_if
          split
          · intro r
            cases r with
            | error err => exact ⟨_, .rollback_failed, hundo⟩
            | ok u => exact ⟨_, .rollback, _, .outside .drop, rfl⟩
          · refine .thenE (y := .recording x k) rfl hundo fun _ => ?_
            exact .thenE (follow_follows .update_response) hundo fun _ => rfl
      · subst hy
        exact .elseE commit_follows hundo fun _ => rfl
  refine .ends (.bindE htx fun updated y hy => ?_)
  subst hy
  rw [← hi]
  exact .seqE fun _ => ⟨_, .announce hpays, rfl⟩

/-- What the answer to a charge for `a` has told. -/
def Herald.heard (a i : Uuid) (res : PspResult) : Herald :=
  res.outcome.elim (.quiet [(a, i)]) fun o => .answered ⟨a, i, o.verdict⟩ [(a, i)]

theorem call_psp_follows {a i b : Uuid} {card_token : String} {err : Herald → Prop} :
    Follows (Herald.Step (some (i, b))) (Safe.Either (fun res y => y = .heard a i res) err)
      (call_psp a card_token).run (.quiet k) := by
  refine fun u => ⟨_, .charge rfl, fun ans => ?_⟩
  refine ⟨.heard a i (psp_result ans), ?_, rfl⟩
  unfold Herald.heard
  cases ho : (psp_result ans).outcome with
  | none => exact .unposted
  | some o => exact .posted (List.mem_singleton.mpr rfl) ho

/-- `pay_invoice` from its charge on: the attempt pays the invoice of the request. -/
theorem charge_attempt_follows {key : String} {b i a : Uuid} {req : PayInvoiceRequest}
    {attempt : PaymentAttempt} :
    Follows (Herald.Step (some (i, b))) (fun _ y => y = .quiet [(a, i)])
      (charge_attempt (key, b, i) req a attempt).run (.quiet k) := by
  have hleave : Follows (Herald.Step (some (i, b))) (fun _ y => y = .quiet [(a, i)])
      (leave_pending attempt (key, b, i)).run (.quiet [(a, i)]) :=
    .ends (.thenE (outside_follows .update_response) rfl fun _ => rfl)
  have heither : ∀ {m : App PaymentAttempt} {y : Herald}, Follows (Herald.Step (some (i, b)))
      (fun _ y => y = .quiet [(a, i)]) m.run y → Follows (Herald.Step (some (i, b)))
        (Safe.Either (fun _ y => y = .quiet [(a, i)]) fun y => y = .quiet [(a, i)]) m.run y :=
    fun h => h.imp fun r y hy => by cases r <;> exact hy
  refine .ends (.bindE call_psp_follows fun res y hy => ?_)
  subst hy
  cases res with
  | Succeeded psp_ref => exact heither (record_outcome_follows (x := ⟨a, i, .paid⟩)
      (record_follows .attempt_succeeded) rfl rfl)
  | Failed code => exact heither (record_outcome_follows (x := ⟨a, i, .declined⟩)
      (record_follows .attempt_failed) rfl rfl)
  | TimedOut => exact heither hleave
  | NetworkError => exact heither hleave

/-- CORRECT: a payment follows the protocol. -/
theorem pay_invoice_follows {i b : Uuid} {key : String} {req : PayInvoiceRequest} :
    Follows (Herald.Step (some (i, b))) (fun _ y => y.Done) (pay_invoice i b key req).run
      (.quiet []) := by
  have hmain : Follows (Herald.Step (some (i, b))) (Safe.Either (fun _ y => y.Done) Herald.Done)
      (pay_invoice i b key req).run (.quiet []) := by
    refine .thenE (outside_follows .select_response) ⟨_, rfl⟩ fun existing => ?_
    cases existing with
    | some body =>
      show Follows _ _ (ok_or (PaymentAttempt.from_value body) .Internal : App _).run _
      cases PaymentAttempt.from_value body with
      | none => exact ⟨_, rfl⟩
      | some attempt => exact ⟨_, rfl⟩
    | none =>
      refine .thenE start_attempt_follows ⟨_, rfl⟩ fun started => ?_
      obtain ⟨a, attempt⟩ := started
      have hcharge : Follows (Herald.Step (some (i, b))) (fun _ y => y = .quiet [(a, i)])
          (charge_attempt (key, b, i) req a attempt).run (.quiet []) := charge_attempt_follows
      refine hcharge.imp fun r y hy => ?_
      cases r <;> exact ⟨_, hy⟩
  refine hmain.imp fun r y hy => ?_
  cases r <;> exact hy

/-! ### The worker -/

theorem settle_attempt_tells {record : App ℕ} {state : InvoiceState}
    (hrecord : Follows (Herald.Step none)
      (Safe.Either (fun _ y => y = .recording x k) fun y => y = .ready x k) record.run
        (.ready x k)) : Follows (Herald.Step none) (fun _ y => y = .quiet k)
      (settle_attempt record state x.verdict.event x.invoice).run (.ready x k) := by
  have habandon : ∃ z, Herald.Step none (.ready x k) .drop () z ∧ z = .quiet k :=
    ⟨_, .abandon, rfl⟩
  have hundo : ∃ z, Herald.Step none (.recording x k) .drop () z ∧ z = .quiet k := ⟨_, .undo, rfl⟩
  have htx : Follows (Herald.Step none)
      (Safe.Either (fun _ y => y = .due x k) fun y => y = .quiet k) (or_drop (do
        let _ ← record
        let _ ← sql (.leave_processing state x.invoice)
        commit_tx) : App Unit).run (.ready x k) := by
    refine or_drop_follows (.elseE hrecord habandon fun _ => ?_)
    refine .thenE (follow_follows .leave_processing) hundo fun _ => ?_
    refine commit_follows.imp fun r y hy => ?_
    cases r with
    | ok u => exact hy
    | error e => exact (show y = _ from hy) ▸ hundo
  refine .ends (.elseE htx rfl fun _ => .seqE (.seqE fun r => ?_))
  cases r with
  | error err => exact ⟨_, .business_failed nofun, rfl⟩
  | ok o =>
    cases o with
    | none => exact ⟨_, .business_failed nofun, rfl⟩
    | some b => exact ⟨_, .business, fun _ => ⟨_, .announce_named, rfl⟩⟩

theorem apply_outcome_tells {psp : PspBody} {a i : Uuid} {o : Outcome} (ho : psp.outcome = some o) :
    Follows (Herald.Step none) (fun _ y => y = .quiet k) (apply_outcome psp a i).run
      (.answered ⟨a, i, o.verdict⟩ k) := by
  intro r
  cases r with
  | error err => exact ⟨_, .begin_failed, rfl⟩
  | ok u =>
    refine ⟨_, .begin, ?_⟩
    show Follows _ _ (ite _ _ _ : App Unit).run _
    unfold PspBody.outcome at ho
    split at ho
    · rename_i hs
      cases ho
      rw [if_pos hs]
      exact settle_attempt_tells (x := ⟨a, i, .paid⟩) (record_follows .mark_succeeded)
    · rename_i hs
      split at ho
      · rename_i hf
        cases ho
        rw [if_neg hs, if_pos hf]
        exact settle_attempt_tells (x := ⟨a, i, .declined⟩) (record_follows .mark_failed)
      · cases ho

/-- A body with a status that the worker does not know. -/
theorem apply_nothing_tells {psp : PspBody} {a i : Uuid} (ho : psp.outcome = none) :
    Follows (Herald.Step none) (fun _ y => y = .quiet k) (apply_outcome psp a i).run
      (.quiet k) := by
  unfold PspBody.outcome at ho
  split at ho
  · cases ho
  · rename_i hs
    split at ho
    · cases ho
    · rename_i hf
      intro r
      cases r with
      | error err => exact ⟨_, .open_failed, rfl⟩
      | ok u =>
        refine ⟨_, .open_, ?_⟩
        show Follows _ _ (ite _ _ _ : App Unit).run _
        rw [if_neg hs, if_neg hf]
        exact fun _ => ⟨_, .drop, rfl⟩

theorem reconcile_attempt_tells {a i : Uuid} {n : Int32} (hk : (a, i) ∈ k) :
    Follows (Herald.Step none) (fun _ y => y = .quiet k) (reconcile_attempt a i n).run
      (.quiet k) := by
  intro ans
  cases ans with
  | timed_out => exact ⟨_, .unpolled, rfl⟩
  | network_error => exact ⟨_, .unpolled, rfl⟩
  | response status body =>
    show ∃ y, _ ∧ Follows _ _ (ite _ _ _ : App Unit).run y
    by_cases hnf : status = 404
    · rw [if_pos hnf]
      exact ⟨_, .unpolled, .ends (.thenE (outside_follows .schedule_retry) rfl fun _ => rfl)⟩
    · rw [if_neg hnf]
      by_cases hok : is_success status = true
      · rw [if_pos hok]
        cases body with
        | none => exact ⟨_, .unpolled, rfl⟩
        | some psp =>
          cases ho : psp.outcome with
          | none => exact ⟨_, .unpolled, apply_nothing_tells ho⟩
          | some o => exact ⟨_, .polled hk hok ho, apply_outcome_tells ho⟩
      · rw [if_neg hok]
        exact ⟨_, .unpolled, rfl⟩

theorem reconcile_all_tells : ∀ rows : List AttemptRow,
    (∀ row ∈ rows, (row.id, row.invoice_id) ∈ k) → Follows (Herald.Step none)
      (fun _ y => y = .quiet k) (reconcile_all rows).run (.quiet k)
  | [], _ => rfl
  | row :: rows, hk => by
    rw [List.forall_mem_cons] at hk
    have hlog : Follows (Herald.Step none) (fun _ y => y = .quiet k)
        (log_error (reconcile_attempt row.id row.invoice_id row.retry_count)).run (.quiet k) :=
      .bind (fun _ _ hy => hy) (reconcile_attempt_tells hk.1)
    exact .ends (.thenE hlog rfl fun _ => (reconcile_all_tells rows hk.2).imp fun r y hy => by
      cases r <;> exact hy)

theorem expire_all_tells : ∀ rows : List AttemptRow, Follows (Herald.Step none)
    (fun _ y => y = .quiet k) (expire_all rows).run (.quiet k)
  | [] => rfl
  | row :: rows => .ends (.thenE expire_tells rfl fun _ => (expire_all_tells rows).imp fun r y hy =>
      by cases r <;> exact hy)

/-- CORRECT: a tick of the reconciliation worker follows the protocol. -/
theorem tick_tells : Follows (Herald.Step none) (fun _ y => y.Done) tick.run (.quiet []) := by
  have hmain : Follows (Herald.Step none) (Safe.Either (fun _ y => y.Done) Herald.Done) tick.run
      (.quiet []) := by
    refine .seqE fun r => ?_
    cases r with
    | error err => exact ⟨_, .outside .select_pending, _, rfl⟩
    | ok rows =>
      have hrows : ∀ rows : List AttemptRow, ∀ row ∈ rows, (row.id, row.invoice_id) ∈
          rows.map fun row => (row.id, row.invoice_id) := fun rows row hrow =>
        List.mem_map_of_mem (f := fun row : AttemptRow => (row.id, row.invoice_id)) hrow
      refine ⟨_, .select, .thenE (reconcile_all_tells rows (hrows rows)) ⟨_, rfl⟩ fun _ => ?_⟩
      refine .thenE (outside_follows .select_expired) ⟨_, rfl⟩ fun expired => ?_
      refine (expire_all_tells expired).imp fun r y hy => ?_
      cases r <;> exact ⟨_, hy⟩
  refine hmain.imp fun r y hy => ?_
  cases r <;> exact hy

end

/-! ### Jobs -/

/-- The invoice that a job pays, and the business it pays it for. -/
def Job.pays : Job → Option (Uuid × Uuid)
  | .call (.pay_invoice i b _ _) => some (i, b)
  | _ => none

/-- The jobs that follow the protocol. -/
def Job.Tells : Job → Prop
  | .call (.pay_invoice ..) => True
  | .tick => True
  | _ => False

theorem Job.tells_follows {j : Job} (hj : j.Tells) :
    Follows (Herald.Step j.pays) (fun _ y => y.Done) j.program.run (.quiet []) := by
  have hmap : ∀ {α : Type} {pays : Option (Uuid × Uuid)} {m : App α} {f : α → Response}, Follows
      (Herald.Step pays) (fun _ y => y.Done) m.run (.quiet []) → Follows (Herald.Step pays)
        (fun _ y => y.Done) (f <$> m).run (.quiet []) := fun {_ pays m f} h => by
    have hboth : Follows (Herald.Step pays) (Safe.Either (fun _ y => y.Done) Herald.Done) m.run
        (.quiet []) := h.imp fun r y hy => by cases r <;> exact hy
    have hright : Follows (Herald.Step pays) (Safe.Either (fun _ y => y.Done) Herald.Done)
        (f <$> m).run (.quiet []) := .mapE hboth
    exact hright.imp fun r y hy => by cases r <;> exact hy
  cases j with
  | call q =>
    cases q with
    | pay_invoice i b key req =>
      cases key with
      | none => exact ⟨_, rfl⟩
      | some key => exact hmap pay_invoice_follows
    | _ => exact hj.elim
  | tick => exact hmap tick_tells
  | dispatch t => exact hj.elim
  | deliveries => exact hj.elim

end Payman
