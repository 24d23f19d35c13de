import Payman.Services.Invoices
import Payman.Services.Payments
import Payman.Services.Customers

/-! The handlers that check a request before they hand it to their service. The other routes pass
    the authenticated business, the path and the body on unchanged. -/

namespace Payman.Handlers

def create_invoice (business_id : Uuid) (req : CreateInvoiceRequest) : App InvoiceResult := do
  reject_if (req.line_items = []) (.BadRequest "invoice must have at least one line item")
  Payman.create_invoice business_id req

/-- `idempotency_key` is the header, if there is one. -/
def pay_invoice (invoice_id business_id : Uuid) (idempotency_key : Option String)
    (req : PayInvoiceRequest) : App PaymentAttempt := do
  let idempotency_key ← ok_or idempotency_key (.BadRequest "Idempotency-Key header is required")
  Payman.pay_invoice invoice_id business_id idempotency_key req

def create_customer (business_id : Uuid) (req : CreateCustomerRequest) : App Customer := do
  reject_if (trim req.name = "") (.BadRequest "name cannot be empty")
  reject_if (trim req.email = "") (.BadRequest "email cannot be empty")
  Payman.create_customer req business_id

def create_endpoint (business_id : Uuid) (req : CreateWebhookEndpointRequest) :
    App WebhookEndpoint := do
  reject_if (trim req.url = "") (.BadRequest "url cannot be empty")
  reject_if (starts_with "http://" req.url = false ∧ starts_with "https://" req.url = false)
    (.BadRequest "url must start with http:// or https://")
  Payman.create_endpoint business_id req

end Payman.Handlers
