import Payman.Model.World
import Payman.Model.Text

/-! `services/customers.rs` and `services/webhook.rs`: customers and webhook endpoints. -/

namespace Payman

structure CreateCustomerRequest where
  name : String
  email : String
  deriving DecidableEq

structure CreateWebhookEndpointRequest where
  url : String
  deriving DecidableEq

/-- A taken e-mail address is the caller's conflict, not a database failure. -/
def email_conflict : AppError → AppError
  | .Database (.UniqueViolation "customers_business_id_email_key") =>
    .Conflict "customer with this email already exists"
  | e => e

def create_customer (req : CreateCustomerRequest) (business_id : Uuid) : App Customer := do
  let id ← new_v4
  let customer := sql (.insert_customer id business_id (trim req.name) (trim req.email))
  customer.adapt email_conflict

def get_customer (id business_id : Uuid) : App Customer := do
  ok_or (← sql (.select_customer id business_id)) .NotFound

def list_customers (business_id : Uuid) : App (List Customer) := sql (.list_customers business_id)

def create_endpoint (business_id : Uuid) (req : CreateWebhookEndpointRequest) :
    App WebhookEndpoint := do
  let u ← new_v4
  sql (.insert_endpoint business_id (trim req.url) ("whsec_" ++ hex_digits u))

def get_endpoint (id business_id : Uuid) : App WebhookEndpoint := do
  ok_or (← sql (.select_endpoint id business_id)) .NotFound

def list_endpoints (business_id : Uuid) : App (List WebhookEndpoint) :=
  sql (.list_endpoints business_id)

/-- A soft delete: the endpoint is only marked inactive. -/
def delete_endpoint (id business_id : Uuid) : App Unit := do
  let rows_affected : ℕ ← sql (.deactivate_endpoint id business_id)
  reject_if (rows_affected = 0) .NotFound

end Payman
