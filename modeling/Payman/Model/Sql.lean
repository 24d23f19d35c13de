import Payman.Model.Json

/-! The SQL statements of the services and workers, one constructor a statement.

    `Stmt.run` gives a statement's meaning on the database its session sees: the row versions it
    writes and its result, or the error it raises. `UPDATE ... WHERE id = ...` touches the one row
    with that key if the rest of the condition holds; `i32` columns raise an error instead of
    wrapping; INSERT checks the primary key, the unique indexes, the foreign keys and the CHECKs.

    A TEXT column takes any string, also one with a NUL, which PostgreSQL refuses.

    DELETE is two statements here, because that is how READ COMMITTED executes it: the rows are
    those visible when it begins, and it then waits for each row's lock and skips rows gone
    meanwhile. -/

namespace Payman
open Schemes

inductive DbError where
  | RowNotFound
  | UniqueViolation (constraint_name : String)
  | ForeignKeyViolation
  | CheckViolation
  | NumericValueOutOfRange
  | Connection
  deriving DecidableEq

/-- The body of a PSP answer, as far as both decoders read it. -/
structure PspBody where
  status : String
  psp_ref : Option String
  code : Option String
  deriving DecidableEq

/-- How an HTTP call ends. `body` is `none` when it is not JSON of the shape that the PSP sends. -/
inductive Answer where
  | timed_out
  | network_error
  | response (status : ℕ) (body : Option PspBody)
  deriving DecidableEq

/-- `StatusCode::is_success`. -/
def is_success (status : ℕ) : Bool := 200 ≤ status && status < 300

/-- A row of the webhook worker's query: a delivery that is due and where it goes. -/
structure DueDelivery where
  id : Uuid
  payload : Json
  attempt_count : Int32
  url : String
  secret : String

/-- What the environment decides about one operation: whether the database call fails, which means
    that it is not carried out, how much time has passed since the last operation, the fresh UUID, the
    order of rows without ORDER BY, and the final answer to an HTTP request. -/
structure Choice where
  fail : Bool
  elapsed : ℕ
  uuid : Uuid
  order : List ℕ
  answer : Answer

inductive Stmt : Type where
  -- invoices.rs
  | select_customer_id (customer_id business_id : Uuid)
  | insert_invoice (invoice_id business_id customer_id : Uuid) (total_cents : Int64)
      (due_date : NaiveDate)
  | insert_line_item (invoice_id : Uuid) (description : String) (quantity : Int32)
      (unit_amount_cents : Int64)
  | select_invoice (invoice_id business_id : Uuid)
  | select_line_items (invoice_id : Uuid)
  | claim_draft (invoice_id : Uuid) (versioning : Int32)
  | select_invoice_state (invoice_id business_id : Uuid)
  | update_due_date (due_date : NaiveDate) (invoice_id : Uuid)
  | scan_line_items (invoice_id : Uuid)
  | delete_line_items (invoice_id : Uuid) (scanned : List Uuid)
  | update_total (total_cents : Int64) (invoice_id : Uuid)
  | select_updated (invoice_id : Uuid)
  | list_invoices (business_id : Uuid) (filter_state : Option InvoiceState)
  | update_state (target_state : InvoiceState) (invoice_id business_id : Uuid) (versioning : Int32)
  | select_state_at_version (invoice_id business_id : Uuid) (versioning : Int32)
  -- payments.rs
  | select_response (key : KeyIndex)
  | claim_open (invoice_id : Uuid) (versioning : Int32)
  | insert_attempt (attempt_id invoice_id : Uuid) (card_token : String)
  | insert_key (key : KeyIndex) (response_status : Int32) (response_body : Json)
  | attempt_succeeded (psp_ref : String) (attempt_id : Uuid)
  | attempt_failed (code : String) (attempt_id : Uuid)
  | settle_invoice (state : InvoiceState) (invoice_id : Uuid)
  | update_response (response_body : Json) (response_status : Int32) (key : KeyIndex)
  -- payment_status_worker.rs
  | select_pending
  | select_expired
  | expire_attempt (attempt_id : Uuid)
  | reopen_invoice (invoice_id : Uuid)
  | schedule_retry (backoff_mins : Int32) (attempt_id : Uuid)
  | mark_succeeded (psp_ref : Option String) (attempt_id : Uuid)
  | mark_failed (code : Option String) (attempt_id : Uuid)
  | leave_processing (state : InvoiceState) (invoice_id : Uuid)
  | select_business_id (invoice_id : Uuid)
  -- customers.rs
  | insert_customer (id business_id : Uuid) (name email : String)
  | select_customer (id business_id : Uuid)
  | list_customers (business_id : Uuid)
  -- webhook.rs
  | insert_endpoint (business_id : Uuid) (url secret : String)
  | select_endpoint (id business_id : Uuid)
  | list_endpoints (business_id : Uuid)
  | deactivate_endpoint (id business_id : Uuid)
  | select_active_endpoints (business_id : Uuid)
  | insert_delivery (webhook_endpoint_id : Uuid) (event_type : String) (payload : Json)
  -- webhook_worker.rs
  | select_due_deliveries
  | mark_delivered (delivery_id : Uuid)
  | schedule_redelivery (delivery_id : Uuid)

namespace Stmt

/-- What a statement returns. Statements without RETURNING give the number of affected rows. -/
def Result : Stmt → Type
  | .select_customer_id .. => Option Uuid
  | .insert_invoice .. => Invoice
  | .insert_line_item .. => LineItem
  | .select_invoice .. => Option Invoice
  | .select_line_items .. => List LineItem
  | .claim_draft .. => ℕ
  | .select_invoice_state .. => Option InvoiceState
  | .update_due_date .. => ℕ
  | .scan_line_items .. => List Uuid
  | .delete_line_items .. => ℕ
  | .update_total .. => ℕ
  | .select_updated .. => Option Invoice
  | .list_invoices .. => List Invoice
  | .update_state .. => Option Invoice
  | .select_state_at_version .. => Option InvoiceState
  | .select_response .. => Option Json
  | .claim_open .. => ℕ
  | .insert_attempt .. => PaymentAttempt
  | .insert_key .. => ℕ
  | .attempt_succeeded .. => Option PaymentAttempt
  | .attempt_failed .. => Option PaymentAttempt
  | .settle_invoice .. => ℕ
  | .update_response .. => ℕ
  | .select_pending => List AttemptRow
  | .select_expired => List AttemptRow
  | .expire_attempt .. => ℕ
  | .reopen_invoice .. => ℕ
  | .schedule_retry .. => ℕ
  | .mark_succeeded .. => ℕ
  | .mark_failed .. => ℕ
  | .leave_processing .. => ℕ
  | .select_business_id .. => Option Uuid
  | .insert_customer .. => Customer
  | .select_customer .. => Option Customer
  | .list_customers .. => List Customer
  | .insert_endpoint .. => WebhookEndpoint
  | .select_endpoint .. => Option WebhookEndpoint
  | .list_endpoints .. => List WebhookEndpoint
  | .deactivate_endpoint .. => ℕ
  | .select_active_endpoints .. => List WebhookEndpoint
  | .insert_delivery .. => ℕ
  | .select_due_deliveries => List DueDelivery
  | .mark_delivered .. => ℕ
  | .schedule_redelivery .. => ℕ

/-- `versioning + 1`, which PostgreSQL refuses at the limit of INT. -/
def next_i32 (v : Int32) : Except DbError Int32 :=
  if v = Int32.maxValue then .error .NumericValueOutOfRange else .ok (v + 1)

section
variable {ρ κ : Type} [Keyed ρ κ] [DecidableEq κ]

/-- `UPDATE t SET ... WHERE key = k AND cond RETURNING *`. -/
def update (t : Table ρ) (k : κ) (cond : ρ → Bool) (set : ρ → Except DbError ρ) (wr : ρ → Write) :
    Except DbError (List Write × Option ρ) :=
  match t.find k with
  | none => .ok ([], none)
  | some r => if cond r then (set r).map fun r' => ([wr r'], some r') else .ok ([], none)

/-- Check that a row with key `k` may be inserted. -/
def unused (t : Table ρ) (k : κ) (constraint_name : String) : Except DbError Unit :=
  if (t.find k).isSome then .error (.UniqueViolation constraint_name) else .ok ()

/-- Check a foreign key. -/
def references (t : Table ρ) (k : κ) : Except DbError Unit :=
  if (t.find k).isSome then .ok () else .error .ForeignKeyViolation

/-- The row with key `k`, if it satisfies the rest of the WHERE clause. -/
def lookup (t : Table ρ) (k : κ) (cond : ρ → Bool) : Option ρ := (t.find k).filter cond

/-- The rows that satisfy a WHERE clause, in any order. -/
def select (t : Table ρ) (order : List ℕ) (cond : ρ → Bool) : List ρ :=
  arrange order (t.rows.filter cond)

/-- An `ORDER BY created_at DESC` on top of it. -/
def newest_first (created_at : ρ → DateTime) (l : List ρ) : List ρ :=
  l.mergeSort fun x y => decide (created_at y ≤ created_at x)

end

/-- The number of rows an UPDATE by key has touched. -/
def rows_affected {ρ : Type} : List Write × Option ρ → List Write × ℕ
  | (ws, none) => (ws, 0)
  | (ws, some _) => (ws, 1)

/-- `INTERVAL '1 minute' * POWER(2, attempt_count)`; the count starts at 0 and only grows. -/
def redelivery_delay (attempt_count : Int32) : DateTime :=
  minute * (1 <<< attempt_count.toInt.toNat : ℕ)

/-- A query: nothing is written. -/
def read {α : Type} (a : α) : Except DbError (List Write × α) := .ok ([], a)

/-- The scanned items that a DELETE still finds once it has waited for their locks. -/
def still_there (db : Db) (invoice_id : Uuid) (scanned : List Uuid) : List Uuid :=
  scanned.filter fun l => (db.line_item l).any fun r => decide (r.invoice_id = invoice_id)

/-- A statement on the database `db` its session sees, at NOW() = `now`. -/
def run (now : DateTime) (c : Choice) (db : Db) :
    (s : Stmt) → Except DbError (List Write × s.Result)
  | .select_customer_id customer_id business_id =>
    read ((lookup db.customers customer_id (·.business_id = business_id)).map (·.id))
  | .insert_invoice invoice_id business_id customer_id total_cents due_date => do
    unused db.invoices invoice_id "invoices_pkey"
    references db.customers customer_id
    let r : Invoice :=
      { id := invoice_id, business_id, customer_id, state := .Draft, total_cents, due_date,
        created_at := now, updated_at := now, versioning := 1 }
    return ([.put_invoice r], r)
  | .insert_line_item invoice_id description quantity unit_amount_cents => do
    unused db.invoice_line_items c.uuid "invoice_line_items_pkey"
    references db.invoices invoice_id
    if quantity ≤ 0 ∨ unit_amount_cents ≤ 0 then throw .CheckViolation
    let r : LineItem :=
      { id := c.uuid, invoice_id, description, quantity, unit_amount_cents, created_at := now }
    return ([.put_line_item r], r)
  | .select_invoice invoice_id business_id =>
    read (lookup db.invoices invoice_id (·.business_id = business_id))
  | .select_line_items invoice_id =>
    read (select db.invoice_line_items c.order (·.invoice_id = invoice_id))
  | .claim_draft invoice_id versioning =>
    rows_affected <$> update db.invoices invoice_id
      (fun r => r.versioning = versioning ∧ r.state = .Draft)
      (fun r => (next_i32 r.versioning).map fun v => { r with updated_at := now, versioning := v })
      .put_invoice
  | .select_invoice_state invoice_id business_id =>
    read ((lookup db.invoices invoice_id (·.business_id = business_id)).map (·.state))
  | .update_due_date due_date invoice_id =>
    rows_affected <$> update db.invoices invoice_id (fun _ => true)
      (fun r => .ok { r with due_date, updated_at := now }) .put_invoice
  | .scan_line_items invoice_id =>
    read ((select db.invoice_line_items c.order (·.invoice_id = invoice_id)).map (·.id))
  | .delete_line_items invoice_id scanned =>
    let gone := still_there db invoice_id scanned
    .ok (gone.map .delete_line_item, gone.length)
  | .update_total total_cents invoice_id =>
    rows_affected <$> update db.invoices invoice_id (fun _ => true)
      (fun r => .ok { r with total_cents, updated_at := now }) .put_invoice
  | .select_updated invoice_id => read (db.invoices.find invoice_id)
  | .list_invoices business_id filter_state =>
    read (newest_first (·.created_at) (select db.invoices c.order fun r =>
      r.business_id = business_id ∧ (filter_state = none ∨ filter_state = some r.state)))
  | .update_state target_state invoice_id business_id versioning =>
    update db.invoices invoice_id
      (fun r => r.business_id = business_id ∧ r.versioning = versioning)
      (fun r => (next_i32 r.versioning).map fun v =>
        { r with state := target_state, updated_at := now, versioning := v })
      .put_invoice
  | .select_state_at_version invoice_id business_id versioning =>
    read ((lookup db.invoices invoice_id
      (fun r => r.business_id = business_id ∧ r.versioning = versioning)).map (·.state))
  | .select_response key =>
    read ((lookup db.idempotency_keys key (fun r => r.created_at > now - hours24)).map
      (·.response_body))
  | .claim_open invoice_id versioning =>
    rows_affected <$> update db.invoices invoice_id
      (fun r => r.state = .Open ∧ r.versioning = versioning)
      (fun r => (next_i32 r.versioning).map fun v =>
        { r with state := .Processing, updated_at := now, versioning := v })
      .put_invoice
  | .insert_attempt attempt_id invoice_id card_token => do
    unused db.payment_attempts attempt_id "payment_attempts_pkey"
    references db.invoices invoice_id
    let r : AttemptRow :=
      { id := attempt_id, invoice_id, status := .Pending, card_token, psp_reference := none,
        failure_code := none, created_at := now, updated_at := now, retry_count := 0,
        next_retry_at := none }
    return ([.put_attempt r], r.toPaymentAttempt)
  | .insert_key key response_status response_body => do
    unused db.idempotency_keys key "idempotency_keys_key_business_id_invoice_id_idx"
    references db.invoices key.2.2
    let r : IdempotencyKey :=
      { key := key.1, business_id := key.2.1, invoice_id := key.2.2, response_status,
        response_body, created_at := now, updated_at := now }
    return ([.put_key r], (1 : ℕ))
  | .attempt_succeeded psp_ref attempt_id =>
    (fun p => (p.1, p.2.map (·.toPaymentAttempt))) <$>
      update db.payment_attempts attempt_id (fun _ => true)
        (fun r => .ok
          { r with status := .Succeeded, psp_reference := some psp_ref, updated_at := now })
        .put_attempt
  | .attempt_failed code attempt_id =>
    (fun p => (p.1, p.2.map (·.toPaymentAttempt))) <$>
      update db.payment_attempts attempt_id (fun _ => true)
        (fun r => .ok { r with status := .Failed, failure_code := some code, updated_at := now })
        .put_attempt
  | .settle_invoice state invoice_id =>
    rows_affected <$> update db.invoices invoice_id (fun _ => true)
      (fun r => (next_i32 r.versioning).map fun v =>
        { r with state, updated_at := now, versioning := v })
      .put_invoice
  | .update_response response_body response_status key =>
    rows_affected <$> update db.idempotency_keys key (fun _ => true)
      (fun r => .ok { r with response_body, response_status, updated_at := now }) .put_key
  | .select_pending =>
    read (select db.payment_attempts c.order fun r => r.status = .Pending ∧
      (∀ t ∈ r.next_retry_at, t ≤ now) ∧ r.created_at > now - hours24)
  | .select_expired =>
    read (select db.payment_attempts c.order fun r => r.status = .Pending ∧
      r.created_at ≤ now - hours24)
  | .expire_attempt attempt_id =>
    rows_affected <$> update db.payment_attempts attempt_id (fun _ => true)
      (fun r => .ok
        { r with
          status := .Failed, failure_code := some "reconciliation_timeout", updated_at := now })
      .put_attempt
  | .reopen_invoice invoice_id =>
    rows_affected <$> update db.invoices invoice_id (fun _ => true)
      (fun r => .ok { r with state := .Open, updated_at := now }) .put_invoice
  | .schedule_retry backoff_mins attempt_id =>
    rows_affected <$> update db.payment_attempts attempt_id (fun _ => true)
      (fun r => (next_i32 r.retry_count).map fun n =>
        { r with
          retry_count := n, next_retry_at := some (now + backoff_mins.toInt * minute),
          updated_at := now })
      .put_attempt
  | .mark_succeeded psp_ref attempt_id =>
    rows_affected <$> update db.payment_attempts attempt_id (fun _ => true)
      (fun r => .ok { r with status := .Succeeded, psp_reference := psp_ref, updated_at := now })
      .put_attempt
  | .mark_failed code attempt_id =>
    rows_affected <$> update db.payment_attempts attempt_id (fun _ => true)
      (fun r => .ok { r with status := .Failed, failure_code := code, updated_at := now })
      .put_attempt
  | .leave_processing state invoice_id =>
    rows_affected <$> update db.invoices invoice_id (fun r => r.state = .Processing)
      (fun r => .ok { r with state, updated_at := now }) .put_invoice
  | .select_business_id invoice_id => read ((db.invoices.find invoice_id).map (·.business_id))
  | .insert_customer id business_id name email => do
    unused db.customers id "customers_pkey"
    if db.customers.rows.any fun r => r.business_id = business_id ∧ r.email = email then
      throw (.UniqueViolation "customers_business_id_email_key")
    let r : Customer := { id, business_id, name, email, created_at := now }
    return ([.put_customer r], r)
  | .select_customer id business_id =>
    read (lookup db.customers id (·.business_id = business_id))
  | .list_customers business_id =>
    read (newest_first (·.created_at) (select db.customers c.order (·.business_id = business_id)))
  | .insert_endpoint business_id url secret => do
    unused db.webhook_endpoints c.uuid "webhook_endpoints_pkey"
    let r : WebhookEndpoint :=
      { id := c.uuid, business_id, url, secret, active := true, created_at := now }
    return ([.put_endpoint r], r)
  | .select_endpoint id business_id =>
    read (lookup db.webhook_endpoints id (·.business_id = business_id))
  | .list_endpoints business_id =>
    read (newest_first (·.created_at)
      (select db.webhook_endpoints c.order (·.business_id = business_id)))
  | .deactivate_endpoint id business_id =>
    rows_affected <$> update db.webhook_endpoints id (·.business_id = business_id)
      (fun r => .ok { r with active := false }) .put_endpoint
  | .select_active_endpoints business_id =>
    read (select db.webhook_endpoints c.order fun r => r.business_id = business_id ∧ r.active)
  | .insert_delivery webhook_endpoint_id event_type payload => do
    unused db.webhook_deliveries c.uuid "webhook_deliveries_pkey"
    references db.webhook_endpoints webhook_endpoint_id
    let r : WebhookDelivery :=
      { id := c.uuid, webhook_endpoint_id, event_type, payload, status := .pending,
        attempt_count := 0, next_retry_at := some now, created_at := now, updated_at := now }
    return ([.put_delivery r], (1 : ℕ))
  | .select_due_deliveries =>
    let due := select db.webhook_deliveries c.order fun wd =>
      wd.status = .pending ∧ ∃ t ∈ wd.next_retry_at, t ≤ now
    let joined := due.filterMap fun wd =>
      (db.endpoint wd.webhook_endpoint_id).map fun we =>
        (⟨wd.id, wd.payload, wd.attempt_count, we.url, we.secret⟩ : DueDelivery)
    read (joined.take 10)
  | .mark_delivered delivery_id =>
    rows_affected <$> update db.webhook_deliveries delivery_id (fun _ => true)
      (fun wd => (next_i32 wd.attempt_count).map fun n =>
        { wd with status := .delivered, attempt_count := n, updated_at := now })
      .put_delivery
  | .schedule_redelivery delivery_id =>
    rows_affected <$> update db.webhook_deliveries delivery_id (fun _ => true)
      (fun wd => (next_i32 wd.attempt_count).map fun n =>
        { wd with
          attempt_count := n, next_retry_at := some (now + redelivery_delay wd.attempt_count),
          status := if wd.attempt_count ≥ 4 then .failed else .pending, updated_at := now })
      .put_delivery

end Stmt

end Payman
