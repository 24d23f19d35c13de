import Payman.Workers.Webhook

/-! `workers/webhook_worker.rs`: one tick of the webhook worker. -/

namespace Payman

def deliver_all : List DueDelivery → App Unit
  | [] => pure ()
  | delivery :: deliveries => do
    log_error (deliver delivery.id delivery.url delivery.secret delivery.payload)
    deliver_all deliveries

def process_pending_deliveries : App Unit := do
  let deliveries : List DueDelivery ← sql .select_due_deliveries
  deliver_all deliveries

end Payman
