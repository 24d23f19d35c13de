import Payman.Schemes.Table
import Payman.Schemes.Sessions
import Mathlib.Data.Int.Notation

/-! The rows of the billing database and the writes that change them.

    Columns keep their names. `i32` and `i64` are fixed-width; a timestamp counts microseconds and a
    date counts days since the epoch. A table is keyed by its primary key, `idempotency_keys` by its
    unique index `(key, business_id, invoice_id)`. -/

namespace Payman
open Schemes

abbrev Uuid := ℕ
/-- Microseconds since the epoch. -/
abbrev DateTime := ℤ
/-- Days since the epoch. -/
abbrev NaiveDate := ℤ

def minute : DateTime := 60000000
def hours24 : DateTime := 24 * 60 * minute
def date_naive (t : DateTime) : NaiveDate := t / hours24

inductive InvoiceState where | Draft | Open | Paid | Void | Uncollectible | Processing
  deriving DecidableEq

namespace InvoiceState

/-- State machine logic. -/
def can_transition_to : InvoiceState → InvoiceState → Bool
  | .Draft, .Open => true
  | .Draft, .Void => true
  | .Open, .Processing => true
  | .Processing, .Paid => true
  | .Processing, .Open => false
  | .Processing, .Uncollectible => true
  | .Open, .Void => true
  | .Open, .Uncollectible => true
  | _, _ => false

/-- What `{:?}` prints. -/
def debug : InvoiceState → String
  | .Draft => "Draft"
  | .Open => "Open"
  | .Paid => "Paid"
  | .Void => "Void"
  | .Uncollectible => "Uncollectible"
  | .Processing => "Processing"

end InvoiceState

inductive PaymentStatus where | Pending | Succeeded | Failed
  deriving DecidableEq

inductive DeliveryStatus where | pending | delivered | failed
  deriving DecidableEq

/-- A JSON value as `serde_json` builds it. Ids and timestamps are written as strings by their own
    crates; such a string stands here as the value it prints. -/
inductive Json : Type where
  | null
  | str (s : String)
  | uuid (u : Uuid)
  | datetime (t : DateTime)
  | obj (fields : List (String × Json))

structure Customer where
  id : Uuid
  business_id : Uuid
  name : String
  email : String
  created_at : DateTime
  deriving DecidableEq

structure Invoice where
  id : Uuid
  business_id : Uuid
  customer_id : Uuid
  state : InvoiceState
  total_cents : Int64
  due_date : NaiveDate
  created_at : DateTime
  updated_at : DateTime
  versioning : Int32
  deriving DecidableEq

structure LineItem where
  id : Uuid
  invoice_id : Uuid
  description : String
  quantity : Int32
  unit_amount_cents : Int64
  created_at : DateTime
  deriving DecidableEq

structure PaymentAttempt where
  id : Uuid
  invoice_id : Uuid
  status : PaymentStatus
  card_token : String
  psp_reference : Option String
  failure_code : Option String
  created_at : DateTime
  updated_at : DateTime
  deriving DecidableEq

/-- A row of `payment_attempts`: what the API returns and the worker's two columns. -/
structure AttemptRow extends PaymentAttempt where
  retry_count : Int32
  next_retry_at : Option DateTime
  deriving DecidableEq

structure IdempotencyKey where
  key : String
  business_id : Uuid
  invoice_id : Uuid
  response_status : Int32
  response_body : Json
  created_at : DateTime
  updated_at : DateTime

structure WebhookEndpoint where
  id : Uuid
  business_id : Uuid
  url : String
  secret : String
  active : Bool
  created_at : DateTime
  deriving DecidableEq

structure WebhookDelivery where
  id : Uuid
  webhook_endpoint_id : Uuid
  event_type : String
  payload : Json
  status : DeliveryStatus
  attempt_count : Int32
  next_retry_at : Option DateTime
  created_at : DateTime
  updated_at : DateTime

/-- The unique index of `idempotency_keys`: key, business, invoice. -/
abbrev KeyIndex := String × Uuid × Uuid

def IdempotencyKey.index (r : IdempotencyKey) : KeyIndex := (r.key, r.business_id, r.invoice_id)

instance : Keyed Customer Uuid := ⟨Customer.id⟩
instance : Keyed Invoice Uuid := ⟨Invoice.id⟩
instance : Keyed LineItem Uuid := ⟨LineItem.id⟩
instance : Keyed AttemptRow Uuid := ⟨fun r => r.id⟩
instance : Keyed IdempotencyKey KeyIndex := ⟨IdempotencyKey.index⟩
instance : Keyed WebhookEndpoint Uuid := ⟨WebhookEndpoint.id⟩
instance : Keyed WebhookDelivery Uuid := ⟨WebhookDelivery.id⟩

@[simp] theorem key_customer (r : Customer) : Keyed.key r = r.id := rfl
@[simp] theorem key_invoice (r : Invoice) : Keyed.key r = r.id := rfl
@[simp] theorem key_line_item (r : LineItem) : Keyed.key r = r.id := rfl
@[simp] theorem key_attempt (r : AttemptRow) : Keyed.key r = r.id := rfl
@[simp] theorem key_idempotency_key (r : IdempotencyKey) : Keyed.key r = r.index := rfl
@[simp] theorem key_endpoint (r : WebhookEndpoint) : Keyed.key r = r.id := rfl
@[simp] theorem key_delivery (r : WebhookDelivery) : Keyed.key r = r.id := rfl

structure Db where
  customers : Table Customer
  invoices : Table Invoice
  invoice_line_items : Table LineItem
  payment_attempts : Table AttemptRow
  idempotency_keys : Table IdempotencyKey
  webhook_endpoints : Table WebhookEndpoint
  webhook_deliveries : Table WebhookDelivery

def Db.empty : Db := ⟨.empty, .empty, .empty, .empty, .empty, .empty, .empty⟩

/-- A row-level write: a new row version, or a deleted line item. -/
inductive Write : Type where
  | put_customer (r : Customer)
  | put_invoice (r : Invoice)
  | put_line_item (r : LineItem)
  | delete_line_item (id : Uuid)
  | put_attempt (r : AttemptRow)
  | put_key (r : IdempotencyKey)
  | put_endpoint (r : WebhookEndpoint)
  | put_delivery (r : WebhookDelivery)

/-- What a write locks: the row, and the entries of unique indexes it takes. -/
inductive LockKey where
  | customer (id : Uuid)
  | customer_email (business_id : Uuid) (email : String)
  | invoice (id : Uuid)
  | line_item (id : Uuid)
  | attempt (id : Uuid)
  | key (i : KeyIndex)
  | endpoint (id : Uuid)
  | delivery (id : Uuid)
  deriving DecidableEq

namespace Write

@[simp] def apply (db : Db) : Write → Db
  | .put_customer r => { db with customers := db.customers.put r }
  | .put_invoice r => { db with invoices := db.invoices.put r }
  | .put_line_item r => { db with invoice_line_items := db.invoice_line_items.put r }
  | .delete_line_item id => { db with invoice_line_items := db.invoice_line_items.erase id }
  | .put_attempt r => { db with payment_attempts := db.payment_attempts.put r }
  | .put_key r => { db with idempotency_keys := db.idempotency_keys.put r }
  | .put_endpoint r => { db with webhook_endpoints := db.webhook_endpoints.put r }
  | .put_delivery r => { db with webhook_deliveries := db.webhook_deliveries.put r }

@[simp] def locks : Write → List LockKey
  | .put_customer r => [.customer r.id, .customer_email r.business_id r.email]
  | .put_invoice r => [.invoice r.id]
  | .put_line_item r => [.line_item r.id]
  | .delete_line_item id => [.line_item id]
  | .put_attempt r => [.attempt r.id]
  | .put_key r => [.key r.index]
  | .put_endpoint r => [.endpoint r.id]
  | .put_delivery r => [.delivery r.id]

instance : RowWrite Write Db LockKey := ⟨apply, locks⟩

@[simp] theorem rowWrite_apply (db : Db) (w : Write) : RowWrite.apply db w = w.apply db := rfl
@[simp] theorem rowWrite_locks (w : Write) : (RowWrite.locks w : List LockKey) = w.locks := rfl

end Write

namespace Db

/-- The committed row of an invoice. -/
abbrev invoice (db : Db) (i : Uuid) : Option Invoice := db.invoices.find i
abbrev attempt (db : Db) (a : Uuid) : Option AttemptRow := db.payment_attempts.find a
abbrev line_item (db : Db) (l : Uuid) : Option LineItem := db.invoice_line_items.find l
abbrev idempotency_key (db : Db) (k : KeyIndex) : Option IdempotencyKey :=
  db.idempotency_keys.find k
abbrev endpoint (db : Db) (e : Uuid) : Option WebhookEndpoint := db.webhook_endpoints.find e
abbrev delivery (db : Db) (d : Uuid) : Option WebhookDelivery := db.webhook_deliveries.find d

theorem id_of_invoice {db : Db} {i : Uuid} {r : Invoice} (h : db.invoice i = some r) : r.id = i :=
  Table.find_key h

theorem id_of_attempt {db : Db} {a : Uuid} {row : AttemptRow} (h : db.attempt a = some row) :
    row.id = a := Table.find_key h

theorem id_of_endpoint {db : Db} {e : Uuid} {r : WebhookEndpoint} (h : db.endpoint e = some r) :
    r.id = e := Table.find_key h

theorem id_of_delivery {db : Db} {d : Uuid} {row : WebhookDelivery} (h : db.delivery d = some row) :
    row.id = d := Table.find_key h

theorem index_of_key {db : Db} {t : KeyIndex} {kr : IdempotencyKey}
    (h : db.idempotency_key t = some kr) : kr.index = t := Table.find_key h

theorem applyAll_put_line_items : ∀ (l : List LineItem) (db : Db),
    applyAll db (l.map Write.put_line_item) =
      { db with invoice_line_items := l.foldl Table.put db.invoice_line_items }
  | [], _ => rfl
  | _ :: l, _ => applyAll_put_line_items l _

theorem applyAll_delete_line_items : ∀ (l : List Uuid) (db : Db),
    applyAll db (l.map Write.delete_line_item) =
      { db with invoice_line_items := l.foldl Table.erase db.invoice_line_items }
  | [], _ => rfl
  | _ :: l, _ => applyAll_delete_line_items l _

/-! ### What each lock protects -/

theorem readsOnly_invoice (i : Uuid) :
    ReadsOnly (W := Write) (LockKey.invoice i) (fun db : Db => db.invoice i) := by
  intro db w h
  cases w <;> try rfl
  rename_i r
  exact Table.find_put_ne _ fun hk => h (by simp [← hk])

theorem readsOnly_attempt (a : Uuid) :
    ReadsOnly (W := Write) (LockKey.attempt a) (fun db : Db => db.attempt a) := by
  intro db w h
  cases w <;> try rfl
  rename_i r
  exact Table.find_put_ne _ fun hk => h (by simp [← hk])

theorem readsOnly_line_item (l : Uuid) :
    ReadsOnly (W := Write) (LockKey.line_item l) (fun db : Db => db.line_item l) := by
  intro db w h
  cases w <;> try rfl
  · rename_i r
    exact Table.find_put_ne _ fun hk => h (by simp [← hk])
  · rename_i id
    have hne : id ≠ l := fun hk => h (by simp [hk])
    exact (Table.find_erase _ _ _).trans (if_neg hne)

theorem readsOnly_key (k : KeyIndex) :
    ReadsOnly (W := Write) (LockKey.key k) (fun db : Db => db.idempotency_key k) := by
  intro db w h
  cases w <;> try rfl
  rename_i r
  exact Table.find_put_ne _ fun hk => h (by simp [← hk])

end Db

end Payman
