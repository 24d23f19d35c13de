import Payman.Workers.Payment

/-! `workers/payment_status_worker.rs`: one tick of the reconciliation worker. -/

namespace Payman

def get_business_id (invoice_id : Uuid) : App Uuid := do
  fetch_one (← sql (.select_business_id invoice_id))

/-- 1, 2, 4, 8 minutes, then 16: `2_i64.pow(retry_count as u32).min(16) as i32`, and `pow` wraps. -/
def backoff_mins (retry_count : Int32) : Int32 :=
  (min ((2 : Int64) ^ retry_count.toUInt32.toNat) 16).toInt32

/-- The outcome transaction, opened by the caller: `record` updates the attempt, and the invoice
    goes to `state` if it is still being processed. -/
def settle_attempt (record : App ℕ) (state : InvoiceState) (event_type : String)
    (invoice_id : Uuid) : App Unit := do
  or_drop (do
    let _ ← record
    let _ ← sql (.leave_processing state invoice_id)
    commit_tx)
  let business_id ← get_business_id invoice_id
  spawn_dispatch business_id invoice_id event_type

/-- An answer of the PSP with a body. -/
def apply_outcome (outcome : PspBody) (attempt_id invoice_id : Uuid) : App Unit := do
  begin_tx
  if outcome.status = "succeeded" then
    settle_attempt (sql (.mark_succeeded outcome.psp_ref attempt_id)) .Paid "invoice.paid"
      invoice_id
  else if outcome.status = "failed" then
    settle_attempt (sql (.mark_failed outcome.code attempt_id)) .Open "invoice.payment_failed"
      invoice_id
  else
    drop_tx

def reconcile_attempt (attempt_id invoice_id : Uuid) (retry_count : Int32) : App Unit := do
  match ← get_charge attempt_id with
  | .timed_out => pure ()
  | .network_error => pure ()
  | .response status body =>
    if status = 404 then
      let _ ← sql (.schedule_retry (backoff_mins retry_count) attempt_id)
    else if is_success status then
      let outcome ← ok_or body .Internal
      apply_outcome outcome attempt_id invoice_id
    else
      pure ()

/-- An attempt that is still pending after 24 hours is failed and its invoice is reopened. -/
def expire (attempt_id invoice_id : Uuid) : App Unit :=
  transaction (do
    let _ ← sql (.expire_attempt attempt_id)
    let _ ← sql (.reopen_invoice invoice_id))

def reconcile_all : List AttemptRow → App Unit
  | [] => pure ()
  | attempt :: attempts => do
    log_error (reconcile_attempt attempt.id attempt.invoice_id attempt.retry_count)
    reconcile_all attempts

def expire_all : List AttemptRow → App Unit
  | [] => pure ()
  | attempt :: expired => do
    expire attempt.id attempt.invoice_id
    expire_all expired

def tick : App Unit := do
  let attempts ← sql .select_pending
  reconcile_all attempts
  let expired ← sql .select_expired
  expire_all expired

end Payman
