import Payman.Workers.Payment

/-! `services/payments.rs`: pay an invoice, at most once for an idempotency key. -/

namespace Payman

structure PayInvoiceRequest where
  card_token : String
  versioning : Int32
  deriving DecidableEq

/-- The first transaction: take the invoice, create the attempt and its idempotency record. -/
def start_attempt (index : KeyIndex) (req : PayInvoiceRequest) : App (Uuid × PaymentAttempt) :=
  transaction (do
    let rows_affected : ℕ ← sql (.claim_open index.2.2 req.versioning)
    reject_if (rows_affected = 0) (.Conflict "another transaction in progress, try later!")
    let attempt_id ← new_v4
    let attempt ← sql (.insert_attempt attempt_id index.2.2 req.card_token)
    let pending_body := PaymentAttempt.to_value attempt
    let _ ← sql (.insert_key index 0 pending_body)
    return (attempt_id, attempt))

/-- `if bad { tx2.rollback().await?; return Err(e) }`. -/
def rollback_if (bad : Prop) [Decidable bad] (e : AppError) : App Unit :=
  if bad then do
    rollback_tx
    throw e
  else pure ()

/-- The second transaction, for either outcome: `record` updates the attempt, the invoice goes to
    `state` whatever it was, and the answer is stored for replays. -/
def record_outcome (record : App (Option PaymentAttempt)) (state : InvoiceState)
    (event_type : String) (index : KeyIndex) : App PaymentAttempt := do
  let updated ← transaction (do
    let updated : PaymentAttempt ← fetch_one (← record)
    let rows_affected : ℕ ← sql (.settle_invoice state index.2.2)
    rollback_if (rows_affected = 0) (.Conflict "invoice state changed unexpectedly")
    let response_body := updated.to_value
    let _ ← sql (.update_response response_body 200 index)
    return updated)
  spawn_dispatch index.2.1 index.2.2 event_type
  return updated

/-- No outcome is known: the attempt stays pending and is what a replay returns. -/
def leave_pending (attempt : PaymentAttempt) (index : KeyIndex) : App PaymentAttempt := do
  let _ ← sql (.update_response attempt.to_value 202 index)
  return attempt

/-- What `pay_invoice` does once the attempt is committed. -/
def charge_attempt (index : KeyIndex) (req : PayInvoiceRequest) (attempt_id : Uuid)
    (attempt : PaymentAttempt) : App PaymentAttempt := do
  match ← call_psp attempt_id req.card_token with
  | .Succeeded psp_ref =>
    record_outcome (sql (.attempt_succeeded psp_ref attempt_id)) .Paid "invoice.paid" index
  | .Failed code =>
    record_outcome (sql (.attempt_failed code attempt_id)) .Open "invoice.payment_failed" index
  | .TimedOut => leave_pending attempt index
  | .NetworkError => leave_pending attempt index

def pay_invoice (invoice_id business_id : Uuid) (idempotency_key : String)
    (req : PayInvoiceRequest) : App PaymentAttempt := do
  let index : KeyIndex := (idempotency_key, business_id, invoice_id)
  let existing : Option Json ← sql (.select_response index)
  match existing with
  | some response_body => ok_or (PaymentAttempt.from_value response_body) .Internal
  | none =>
    let (attempt_id, attempt) ← start_attempt index req
    charge_attempt index req attempt_id attempt

end Payman
