import Payman.Model.Types

/-! `PaymentAttempt` as the JSON value kept in `idempotency_keys.response_body`.

    `to_value` and `from_value` follow the derived `Serialize` and `Deserialize`: one field a
    column, statuses in lower case, `None` as `null`. The stored replay is faithful because decoding
    undoes encoding. -/

namespace Payman

/-- The value of an object's field. -/
def Json.field (name : String) : Json → Option Json
  | .obj fields => fields.lookup name
  | _ => none

def Json.as_uuid : Json → Option Uuid
  | .uuid u => some u
  | _ => none

def Json.as_datetime : Json → Option DateTime
  | .datetime t => some t
  | _ => none

def Json.as_str : Json → Option String
  | .str s => some s
  | _ => none

/-- `Option<String>`: a missing field and `null` are both `None`. -/
def Json.as_optional_str : Option Json → Option (Option String)
  | none => some none
  | some .null => some none
  | some (.str s) => some (some s)
  | some _ => none

def optional_str : Option String → Json
  | none => .null
  | some s => .str s

namespace PaymentStatus

def to_value : PaymentStatus → Json
  | .Pending => .str "pending"
  | .Succeeded => .str "succeeded"
  | .Failed => .str "failed"

def from_value (v : Json) : Option PaymentStatus := do
  let s ← v.as_str
  if s = "pending" then some .Pending
  else if s = "succeeded" then some .Succeeded
  else if s = "failed" then some .Failed
  else none

theorem from_to_value (s : PaymentStatus) : from_value s.to_value = some s := by
  cases s <;> decide

end PaymentStatus

namespace PaymentAttempt

def to_value (a : PaymentAttempt) : Json :=
  .obj [("id", .uuid a.id), ("invoice_id", .uuid a.invoice_id), ("status", a.status.to_value),
    ("card_token", .str a.card_token), ("psp_reference", optional_str a.psp_reference),
    ("failure_code", optional_str a.failure_code), ("created_at", .datetime a.created_at),
    ("updated_at", .datetime a.updated_at)]

def from_value (v : Json) : Option PaymentAttempt := do
  let id ← (← v.field "id").as_uuid
  let invoice_id ← (← v.field "invoice_id").as_uuid
  let status ← PaymentStatus.from_value (← v.field "status")
  let card_token ← (← v.field "card_token").as_str
  let psp_reference ← Json.as_optional_str (v.field "psp_reference")
  let failure_code ← Json.as_optional_str (v.field "failure_code")
  let created_at ← (← v.field "created_at").as_datetime
  let updated_at ← (← v.field "updated_at").as_datetime
  return { id, invoice_id, status, card_token, psp_reference, failure_code, created_at, updated_at }

theorem as_optional_str_optional_str (o : Option String) :
    Json.as_optional_str (some (optional_str o)) = some o := by cases o <;> rfl

/-- CORRECT: an attempt survives the round trip through its JSON value, field by field. -/
theorem from_to_value (a : PaymentAttempt) : from_value a.to_value = some a := by
  have hstatus := PaymentStatus.from_to_value a.status
  simp [from_value, to_value, Json.field, List.lookup_cons, Json.as_uuid, Json.as_str,
    Json.as_datetime, as_optional_str_optional_str, hstatus]

end PaymentAttempt

end Payman
