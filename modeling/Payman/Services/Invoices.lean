import Payman.Model.World
import Payman.Model.Text

/-! `services/invoices.rs`: create, read, edit, finalize and void invoices. -/

namespace Payman

structure CreateLineItemRequest where
  description : String
  quantity : Int32
  unit_amount_cents : Int64
  deriving DecidableEq

structure CreateInvoiceRequest where
  customer_id : Uuid
  due_date : NaiveDate
  line_items : List CreateLineItemRequest
  deriving DecidableEq

structure EditInvoiceRequest where
  due_date : Option NaiveDate
  line_items : Option (List CreateLineItemRequest)
  versioning : Int32
  deriving DecidableEq

structure FinalizeInvoiceRequest where
  versioning : Int32
  deriving DecidableEq

structure VoidInvoiceRequest where
  versioning : Int32
  deriving DecidableEq

structure ListInvoicesQuery where
  state : Option InvoiceState
  deriving DecidableEq

structure InvoiceResult where
  invoice : Invoice
  line_items : List LineItem
  deriving DecidableEq

/-- `item.quantity as i64 * item.unit_amount_cents`, which wraps. -/
def CreateLineItemRequest.amount (item : CreateLineItemRequest) : Int64 :=
  item.quantity.toInt64 * item.unit_amount_cents

/-- The sum of the items' amounts, which wraps too. -/
def total_of (items : List CreateLineItemRequest) : Int64 :=
  (items.map (·.amount)).foldl (· + ·) 0

def check_line_item (item : CreateLineItemRequest) : App Unit := do
  reject_if (item.quantity ≤ 0) (.BadRequest "quantity must be greater than zero")
  reject_if (item.unit_amount_cents ≤ 0) (.BadRequest "unit_amount_cents must be greater than zero")

def check_line_items : List CreateLineItemRequest → App Unit
  | [] => pure ()
  | item :: items => do
    check_line_item item
    check_line_items items

def check_total (total_cents : Int64) : App Unit :=
  reject_if (total_cents ≤ 0) (.BadRequest "invoice total must be greater than zero")

def check_due_date (due_date : NaiveDate) : App Unit := do
  let now ← utc_now
  reject_if (due_date < date_naive now) (.BadRequest "due_date cannot be in the past")

/-- The loop that inserts the items; `check` is what it does with an item first. -/
def insert_line_items (check : CreateLineItemRequest → App Unit) (invoice_id : Uuid) :
    List CreateLineItemRequest → App (List LineItem)
  | [] => pure []
  | item :: items => do
    check item
    let line_item ← sql (.insert_line_item invoice_id (trim item.description) item.quantity
      item.unit_amount_cents)
    let line_items ← insert_line_items check invoice_id items
    return line_item :: line_items

def create_invoice (business_id : Uuid) (req : CreateInvoiceRequest) : App InvoiceResult := do
  let _customer ← ok_or (← sql (.select_customer_id req.customer_id business_id)) .NotFound
  let total_cents := total_of req.line_items
  check_total total_cents
  check_due_date req.due_date
  transaction (do
    let invoice_id ← new_v4
    let invoice ← sql (.insert_invoice invoice_id business_id req.customer_id total_cents
      req.due_date)
    let line_items ← insert_line_items check_line_item invoice_id req.line_items
    return { invoice, line_items })

def get_invoice (invoice_id business_id : Uuid) : App InvoiceResult := do
  let invoice ← ok_or (← sql (.select_invoice invoice_id business_id)) .NotFound
  let line_items ← sql (.select_line_items invoice_id)
  return { invoice, line_items }

/-- The checks of `edit_invoice` on the items, before anything is read or written. -/
def check_edit_items : Option (List CreateLineItemRequest) → App Unit
  | none => pure ()
  | some items => do
    reject_if (items = []) (.BadRequest "invoice must have at least one line item")
    check_line_items items

/-- `DELETE FROM invoice_line_items WHERE invoice_id = $1`: scan, then delete what was seen. -/
def delete_line_items (invoice_id : Uuid) : App ℕ := do
  let scanned ← sql (.scan_line_items invoice_id)
  sql (.delete_line_items invoice_id scanned)

/-- Replace the items and store their total, or read the items that are there. -/
def replace_line_items (invoice_id : Uuid) :
    Option (List CreateLineItemRequest) → App (List LineItem)
  | none => sql (.select_line_items invoice_id)
  | some items => do
    let total_cents := total_of items
    check_total total_cents
    let _ ← delete_line_items invoice_id
    let new_items ← insert_line_items (fun _ => pure ()) invoice_id items
    let _ ← sql (.update_total total_cents invoice_id)
    return new_items

def set_due_date (invoice_id : Uuid) : Option NaiveDate → App Unit
  | none => pure ()
  | some due_date => do
    check_due_date due_date
    let _ ← sql (.update_due_date due_date invoice_id)

def edit_invoice (invoice_id business_id : Uuid) (req : EditInvoiceRequest) :
    App InvoiceResult := do
  check_edit_items req.line_items
  -- optimistic locking: this statement commits by itself, before the owner is checked
  let rows_affected : ℕ ← sql (.claim_draft invoice_id req.versioning)
  reject_if (rows_affected = 0) (.Conflict "invoice is being processed, try later!")
  transaction (do
    let state : InvoiceState ← ok_or
      (← sql (.select_invoice_state invoice_id business_id)) .NotFound
    reject_if (state ≠ .Draft) (.InvalidStateTransition
      ("cannot edit invoice in '" ++ state.debug ++ "' state, must be 'draft'"))
    set_due_date invoice_id req.due_date
    let line_items ← replace_line_items invoice_id req.line_items
    let invoice ← fetch_one (← sql (.select_updated invoice_id))
    return { invoice, line_items })

def list_invoices (business_id : Uuid) (query : ListInvoicesQuery) : App (List Invoice) :=
  sql (.list_invoices business_id query.state)

def check_transition (state target_state : InvoiceState) : App Unit :=
  reject_if (state.can_transition_to target_state = false) (.InvalidStateTransition
    ("cannot transition invoice from " ++ state.debug ++ " to " ++ target_state.debug))

def finalize_invoice (invoice_id business_id : Uuid) (req : FinalizeInvoiceRequest) :
    App Invoice := do
  let updated ← transaction (do
    let invoice : Invoice ← fetch_one (← sql (.select_invoice invoice_id business_id))
    check_transition invoice.state .Open
    ok_or (← sql (.update_state .Open invoice_id business_id req.versioning))
      (.Conflict "stale invoice version"))
  spawn_dispatch business_id invoice_id "invoice.finalized"
  return updated

/-- The transition that is checked is the one to `Open`, as in `finalize_invoice`. -/
def void_invoice (invoice_id business_id : Uuid) (req : VoidInvoiceRequest) : App Invoice :=
  transaction (do
    let state : InvoiceState ← ok_or
      (← sql (.select_state_at_version invoice_id business_id req.versioning)) .NotFound
    check_transition state .Open
    ok_or (← sql (.update_state .Void invoice_id business_id req.versioning))
      (.Conflict "stale invoice version"))

end Payman
