import Payman.Model.World
import Payman.Model.Text

/-! `workers/webhook.rs`: `dispatch` queues one delivery for each active endpoint, `deliver` makes
    one attempt at a delivery, `sign_payload` signs it. -/

namespace Payman

def payload (event_type : String) (invoice_id business_id : Uuid) (timestamp : DateTime) : Json :=
  .obj [("event", .str event_type), ("invoice_id", .uuid invoice_id),
    ("business_id", .uuid business_id), ("timestamp", .datetime timestamp)]

def insert_deliveries (event_type : String) (payload : Json) : List WebhookEndpoint → App Unit
  | [] => pure ()
  | endpoint :: endpoints => do
    let _ ← sql (.insert_delivery endpoint.id event_type payload)
    insert_deliveries event_type payload endpoints

def dispatch (business_id invoice_id : Uuid) (event_type : String) : App Unit := do
  let endpoints : List WebhookEndpoint ← sql (.select_active_endpoints business_id)
  match endpoints with
  | [] => pure ()
  | endpoints =>
    let timestamp ← utc_now
    insert_deliveries event_type (payload event_type invoice_id business_id timestamp) endpoints

/-- Only an answer in time with a 2xx status is a success. -/
def delivered : Answer → Bool
  | .timed_out => false
  | .network_error => false
  | .response status _ => is_success status

/-- `Utc::now().timestamp()`: whole seconds. -/
def timestamp (now : DateTime) : ℤ := now / 1000000

def deliver (delivery_id : Uuid) (url secret : String) (payload : Json) : App Unit := do
  let now ← utc_now
  let response ← post_webhook delivery_id url secret payload (timestamp now)
  if delivered response then
    let _ ← sql (.mark_delivered delivery_id)
  else
    let _ ← sql (.schedule_redelivery delivery_id)

/-! ### The request on the wire -/

/-- An HTTP request that the worker sends with POST. -/
structure HttpRequest where
  url : String
  headers : List (String × String)
  body : String
  deriving DecidableEq

section
-- `serde_json::to_string`, and HMAC-SHA256 of a message under a key
variable (to_string : Json → String) (hmac_sha256 : String → String → List UInt8)

def sign_payload (secret payload : String) (timestamp : ℤ) : String :=
  let message := toString timestamp ++ "." ++ payload
  hex_encode (hmac_sha256 secret message)

/-- What `deliver` puts on the wire for a POST. -/
def Post.request (post : Post) : HttpRequest :=
  let payload_str := to_string post.payload
  let signature := sign_payload hmac_sha256 post.secret payload_str post.timestamp
  { url := post.url,
    headers := [("Content-Type", "application/json"),
      ("X-Webhook-Signature", "sha256=" ++ signature)],
    body := payload_str }

end

end Payman
