import Payman.System

/-! What each job commits.

    `Effect` lists every transaction that a job can commit on the database it commits it to, one
    constructor a stage, with what the stage knows at that moment: what it has read under a lock is
    still so, and what it has read without one was so in some earlier committed state (`Was`). It is
    the one inversion of all programs; the invariants of runs are proved by cases on it. -/

namespace Payman
open Schemes

/-- `φ` holds of the committed state, or held of an earlier one. -/
def Was (past : List Commit) (db : Db) (φ : Db → Prop) : Prop := φ db ∨ ∃ c ∈ past, φ c.before

/-- The line items of an invoice. -/
def Db.items (db : Db) (i : Uuid) : List LineItem :=
  db.invoice_line_items.rows.filter fun x => decide (x.invoice_id = i)

/-! ### Outcomes of an attempt -/

inductive Outcome where
  | succeeded (psp_ref : Option String)
  | failed (code : Option String)
  | expired
  deriving DecidableEq

namespace Outcome

/-- The attempt's row with the outcome in it. -/
def record (now : DateTime) (row : AttemptRow) : Outcome → AttemptRow
  | .succeeded psp_ref =>
    { row with status := .Succeeded, psp_reference := psp_ref, updated_at := now }
  | .failed code => { row with status := .Failed, failure_code := code, updated_at := now }
  | .expired =>
    { row with
      status := .Failed, failure_code := some "reconciliation_timeout", updated_at := now }

/-- Where the outcome takes the invoice. -/
def state : Outcome → InvoiceState
  | .succeeded _ => .Paid
  | .failed _ => .Open
  | .expired => .Open

def status : Outcome → PaymentStatus
  | .succeeded _ => .Succeeded
  | .failed _ => .Failed
  | .expired => .Failed

variable (now : DateTime) (row : AttemptRow) (o : Outcome)

@[simp] theorem record_id : (o.record now row).id = row.id := by cases o <;> rfl
@[simp] theorem record_invoice_id : (o.record now row).invoice_id = row.invoice_id := by
  cases o <;> rfl
@[simp] theorem record_card_token : (o.record now row).card_token = row.card_token := by
  cases o <;> rfl
@[simp] theorem record_created_at : (o.record now row).created_at = row.created_at := by
  cases o <;> rfl
@[simp] theorem record_status : (o.record now row).status = o.status := by cases o <;> rfl

theorem status_ne_pending : o.status ≠ .Pending := by cases o <;> nofun
theorem state_ne_draft : o.state ≠ .Draft := by cases o <;> nofun

end Outcome

/-- The outcome that `pay_invoice` reads from an answer to its charge. -/
def PspResult.outcome : PspResult → Option Outcome
  | .Succeeded psp_ref => some (.succeeded (some psp_ref))
  | .Failed code => some (.failed (some code))
  | .TimedOut => none
  | .NetworkError => none

/-- The outcome that the worker reads from a status answer. -/
def PspBody.outcome (psp : PspBody) : Option Outcome :=
  if psp.status = "succeeded" then some (.succeeded psp.psp_ref)
  else if psp.status = "failed" then some (.failed psp.code)
  else none

/-! ### Promises of a run -/

/-- What a class of runs promises to its processes beyond READ COMMITTED. -/
structure Setting where
  /-- No other process runs. -/
  alone : Prop
  /-- While an edit rewrites an invoice nobody moves it out of Draft. -/
  drafts : Prop
  /-- While an edit replaces the items of an invoice nobody commits other items of it. -/
  scans : Prop
  /-- The answers of the PSP to `POST /charge` (`true`) and `GET /charge/{id}` (`false`). -/
  answer : Bool → Uuid → Answer → Prop
  /-- The database on which a lone process starts. -/
  start : Db → Prop

/-- Any run. -/
def Setting.any : Setting := ⟨False, False, False, fun _ _ _ => True, fun _ => True⟩

/-- The invoice that an edit is rewriting when its next operation is `e`: the state check is behind
    it, the row lock need not be taken yet. -/
def rewriting : Job → Option Eff → Option Uuid
  | .call (.edit_invoice i _ _), some e =>
    match e with
    | .utc_now => some i
    | .sql (.update_due_date ..) => some i
    | .sql (.scan_line_items _) => some i
    | .sql (.delete_line_items ..) => some i
    | .sql (.insert_line_item ..) => some i
    | .sql (.update_total ..) => some i
    | _ => none
  | _, _ => none

/-- The invoice whose items an edit is replacing when its next operation is `e`: the scan of the
    DELETE is behind it. -/
def replacing : Job → Option Eff → Option Uuid
  | .call (.edit_invoice i _ _), some e =>
    match e with
    | .sql (.delete_line_items ..) => some i
    | .sql (.insert_line_item ..) => some i
    | .sql (.update_total ..) => some i
    | _ => none
  | _, _ => none

/-! ### Effects -/

/-- `c` is the first transaction of a payment under `t`, which created the attempt `a`. -/
structure Commit.Starts (c : Commit) (t : KeyIndex) (a : PaymentAttempt) : Prop where
  key_absent : c.before.idempotency_key t = none
  attempt_absent : c.before.attempt a.id = none
  writes : ∃ r row kr, c.writes = [.put_invoice r, .put_attempt row, .put_key kr] ∧
    row.toPaymentAttempt = a ∧ kr.index = t

def Started (past : List Commit) (T : Pid) (t : KeyIndex) (a : PaymentAttempt) : Prop :=
  ∃ c ∈ past, c.pid = T ∧ c.Starts t a

/-- A payment under `t` finds the open invoice it asked for and an unused key. -/
def Payable (t : KeyIndex) (v : Int32) (db : Db) (r : Invoice) : Prop :=
  db.invoice t.2.2 = some r ∧ r.state = .Open ∧ r.versioning = v ∧ v ≠ Int32.maxValue ∧
    db.idempotency_key t = none

/-- `T` has created the attempt `a` under `t`, and this is what is left to settle. -/
structure Begun (K : Setting) (T : Pid) (t : KeyIndex) (v : Int32) (a : PaymentAttempt)
    (past : List Commit) (db : Db) : Prop where
  started : Started past T t a
  attempt : ∃ row, db.attempt a.id = some row ∧ row.invoice_id = t.2.2 ∧
    row.card_token = a.card_token ∧ (K.alone → row.status = .Pending)
  key : ∃ kr, db.idempotency_key t = some kr
  invoice : ∃ r, db.invoice t.2.2 = some r ∧
    (K.alone → ∃ db₀ r₀, K.start db₀ ∧ Payable t v db₀ r₀ ∧ r₀.business_id = r.business_id)

/-- The rows that an INSERT loop has added for `reqs`; `gone` are rows deleted just before. -/
structure Inserted (db : Db) (gone : List Uuid) (i : Uuid) (reqs : List CreateLineItemRequest)
    (lines : List LineItem) : Prop where
  rows : List.Forall₂ (fun (item : CreateLineItemRequest) (x : LineItem) => x.invoice_id = i ∧
    x.description = trim item.description ∧ x.quantity = item.quantity ∧
    x.unit_amount_cents = item.unit_amount_cents) reqs lines
  nodup : (lines.map (·.id)).Nodup
  fresh : ∀ x ∈ lines, ∀ y, db.line_item x.id = some y → x.id ∈ gone

/-- What an edit has checked before its first statement. -/
def EditChecked (items : Option (List CreateLineItemRequest)) : Prop :=
  ∀ l, items = some l → l ≠ [] ∧ ∀ item ∈ l, 0 < item.quantity ∧ 0 < item.unit_amount_cents

/-- Why the worker may settle the attempt `row` with an outcome at time `now`. -/
def Evidence (K : Setting) (row : AttemptRow) (now : DateTime) : Outcome → Prop
  | .expired => row.created_at ≤ now - hours24
  | o => ∃ status psp, (is_success status = true ∧
      K.answer false row.id (.response status (some psp))) ∧ psp.outcome = some o

/-- The writes that job `j` of process `T` can commit on `db`. -/
inductive Effect (K : Setting) (T : Pid) (past : List Commit) (db : Db) :
    Job → List Write → Prop where
  | edit_nothing {b i : Uuid} {req : EditInvoiceRequest} :
      Effect K T past db (.call (.edit_invoice i b req)) []
  | create {b i : Uuid} {req : CreateInvoiceRequest} {lines : List LineItem} {t : DateTime}
      (hfresh : db.invoice i = none) (hlines : Inserted db [] i req.line_items lines) :
      Effect K T past db (.call (.create_invoice b req))
        (.put_invoice ⟨i, b, req.customer_id, .Draft, total_of req.line_items, req.due_date, t, t,
          1⟩ :: lines.map .put_line_item)
  | claim_draft {b i : Uuid} {req : EditInvoiceRequest} {r : Invoice} {t : DateTime}
      (hr : db.invoice i = some r) (hdraft : r.state = .Draft) (hv : r.versioning = req.versioning)
      (hmax : r.versioning ≠ Int32.maxValue) (hitems : EditChecked req.line_items)
      (hstart : K.alone → K.start db) :
      Effect K T past db (.call (.edit_invoice i b req))
        [.put_invoice { r with updated_at := t, versioning := r.versioning + 1 }]
  | edit_due_date {b i : Uuid} {req : EditInvoiceRequest} {r : Invoice} {d : NaiveDate}
      {t : DateTime} (hr : db.invoice i = some r) (hb : r.business_id = b)
      (hdraft : K.drafts → r.state = .Draft) (hd : req.due_date = some d)
      (hitems : req.line_items = none) (hclaimed : ∃ c ∈ past, c.pid = T) :
      Effect K T past db (.call (.edit_invoice i b req))
        [.put_invoice { r with due_date := d, updated_at := t }]
  | edit_items {b i : Uuid} {req : EditInvoiceRequest} {r r' : Invoice} {pre : List Write}
      {items : List CreateLineItemRequest} {gone : List Uuid} {lines : List LineItem} {t : DateTime}
      (hr : db.invoice i = some r) (hb : r.business_id = b) (hdraft : K.drafts → r.state = .Draft)
      (hpre : (pre = [] ∧ r' = r) ∨
        (pre = [.put_invoice r'] ∧ ∃ d, r' = { r with due_date := d, updated_at := t }))
      (hitems : req.line_items = some items)
      (hgone : ∀ l ∈ gone, ∃ y, db.line_item l = some y ∧ y.invoice_id = i)
      (hscan : K.scans → ∀ x ∈ db.items i, x.id ∈ gone) (hlines : Inserted db gone i items lines)
      (hclaimed : ∃ c ∈ past, c.pid = T) :
      Effect K T past db (.call (.edit_invoice i b req))
        (pre ++ gone.map .delete_line_item ++ lines.map .put_line_item ++
          [.put_invoice { r' with total_cents := total_of items, updated_at := t }])
  | finalize {b i : Uuid} {req : FinalizeInvoiceRequest} {r : Invoice} {t : DateTime}
      (hr : db.invoice i = some r) (hb : r.business_id = b) (hv : r.versioning = req.versioning)
      (hmax : r.versioning ≠ Int32.maxValue)
      (hwas : Was past db fun d => ∃ r₀, d.invoice i = some r₀ ∧ r₀.state = .Draft)
      (halone : K.alone → r.state = .Draft) :
      Effect K T past db (.call (.finalize_invoice i b req))
        [.put_invoice { r with
          state := .Open, updated_at := t, versioning := r.versioning + 1 }]
  | void {b i : Uuid} {req : VoidInvoiceRequest} {r : Invoice} {t : DateTime}
      (hr : db.invoice i = some r) (hb : r.business_id = b) (hv : r.versioning = req.versioning)
      (hmax : r.versioning ≠ Int32.maxValue)
      (hwas : Was past db fun d => ∃ r₀, d.invoice i = some r₀ ∧ r₀.state = .Draft ∧
        r₀.versioning = r.versioning)
      (halone : K.alone → r.state = .Draft) :
      Effect K T past db (.call (.void_invoice i b req))
        [.put_invoice { r with
          state := .Void, updated_at := t, versioning := r.versioning + 1 }]
  | pay_start {b i a : Uuid} {k : String} {req : PayInvoiceRequest} {r : Invoice} {row : AttemptRow}
      {kr : IdempotencyKey} {t : DateTime} (hr : Payable (k, b, i) req.versioning db r)
      (hrow : row = ⟨⟨a, i, .Pending, req.card_token, none, none, t, t⟩, 0, none⟩)
      (hfresh : db.attempt a = none)
      (hkr : kr = ⟨k, b, i, 0, row.to_value, t, t⟩)
      (hstart : K.alone → K.start db) :
      Effect K T past db (.call (.pay_invoice i b (some k) req))
        [.put_invoice { r with
          state := .Processing, updated_at := t, versioning := r.versioning + 1 },
          .put_attempt row, .put_key kr]
  | pay_record {b i : Uuid} {k : String} {req : PayInvoiceRequest} {a : PaymentAttempt}
      {row : AttemptRow} {r : Invoice} {kr : IdempotencyKey} {o : Outcome} {ans : Answer}
      {t : DateTime} (hb : Begun K T (k, b, i) req.versioning a past db)
      (hrow : db.attempt a.id = some row) (hr : db.invoice i = some r)
      (hmax : r.versioning ≠ Int32.maxValue) (hkr : db.idempotency_key (k, b, i) = some kr)
      (hans : K.answer true a.id ans) (ho : (psp_result ans).outcome = some o) :
      Effect K T past db (.call (.pay_invoice i b (some k) req))
        [.put_attempt (o.record t row),
          .put_invoice { r with
            state := o.state, updated_at := t, versioning := r.versioning + 1 },
          .put_key { kr with
            response_body := (o.record t row).to_value, response_status := 200, updated_at := t }]
  | pay_leave {b i : Uuid} {k : String} {req : PayInvoiceRequest} {a : PaymentAttempt}
      {kr : IdempotencyKey} {t : DateTime} (hb : Begun K T (k, b, i) req.versioning a past db)
      (hkr : db.idempotency_key (k, b, i) = some kr) :
      Effect K T past db (.call (.pay_invoice i b (some k) req))
        [.put_key { kr with
          response_body := a.to_value, response_status := 202, updated_at := t }]
  | retry {a : Uuid} {row : AttemptRow} {n : Int32} {at_ : Option DateTime} {t : DateTime}
      (hrow : db.attempt a = some row) :
      Effect K T past db .tick
        [.put_attempt { row with retry_count := n, next_retry_at := at_, updated_at := t }]
  | settle {row : AttemptRow} {r : Invoice} {o : Outcome} {t : DateTime}
      (hrow : db.attempt row.id = some row) (hr : db.invoice row.invoice_id = some r)
      (ho : Evidence K row t o) (hproc : o ≠ .expired → r.state = .Processing)
      (halone : K.alone → row.status = .Pending) :
      Effect K T past db .tick
        [.put_attempt (o.record t row), .put_invoice { r with state := o.state, updated_at := t }]
  | settle_only {row : AttemptRow} {o : Outcome} {t : DateTime}
      (hrow : db.attempt row.id = some row) (ho : Evidence K row t o)
      (hwas : Was past db fun d => d.attempt row.id = some row ∧
        ∀ r, d.invoice row.invoice_id = some r → r.state ≠ .Processing)
      (halone : K.alone → row.status = .Pending) :
      Effect K T past db .tick [.put_attempt (o.record t row)]
  | customer {b : Uuid} {req : CreateCustomerRequest} {r : Customer}
      (hfresh : db.customers.find r.id = none) (hb : r.business_id = b) :
      Effect K T past db (.call (.create_customer b req)) [.put_customer r]
  | endpoint {b : Uuid} {req : CreateWebhookEndpointRequest} {r : WebhookEndpoint}
      (hfresh : db.webhook_endpoints.find r.id = none) (hb : r.business_id = b) :
      Effect K T past db (.call (.create_endpoint b req)) [.put_endpoint r]
  | deactivate {b id : Uuid} {r : WebhookEndpoint} (hr : db.webhook_endpoints.find id = some r)
      (hb : r.business_id = b) :
      Effect K T past db (.call (.delete_endpoint id b)) [.put_endpoint { r with active := false }]
  | delivery {task : DispatchTask} {row : WebhookDelivery} (hfresh : db.delivery row.id = none)
      (he : ∃ e, db.endpoint row.webhook_endpoint_id = some e) (hs : row.status = .pending)
      (hn : row.attempt_count = 0) :
      Effect K T past db (.dispatch task) [.put_delivery row]
  | report {d : Uuid} {row : WebhookDelivery} {s : DeliveryStatus} {n : Int32}
      {at_ : Option DateTime} {t : DateTime} (hrow : db.delivery d = some row) :
      Effect K T past db .deliveries [.put_delivery { row with
        status := s, attempt_count := n, next_retry_at := at_, updated_at := t }]

/-- When job `j` of process `T` may send a charge. -/
inductive Sends (K : Setting) (T : Pid) (w : World) : Job → Uuid → String → Prop where
  | charge {b i : Uuid} {k : String} {req : PayInvoiceRequest} {a : PaymentAttempt}
      (hb : Begun K T (k, b, i) req.versioning a w.history w.db)
      (hfirst : ∀ ch ∈ w.charges, ch.pid ≠ T) :
      Sends K T w (.call (.pay_invoice i b (some k) req)) a.id req.card_token

end Payman
