import Payman.Model.Registry
import Payman.Model.Text

/-! `middleware/auth.rs`: who sent a request. -/

namespace Payman.Registry

/-- `header` is the request's first `Authorization` header, if it has one. -/
def extract_api_key (header : Option HeaderValue) : Except AppError String := do
  let some value := header | throw .Unauthorized
  let some auth_header := value.to_str | throw .Unauthorized
  let some key := strip_prefix "Bearer " auth_header | throw .Unauthorized
  if starts_with "sk_live_" key = false ∨ key.utf8ByteSize ≠ 40 ∨ key = "" then
    throw .Unauthorized
  return key

-- the SHA-256 digest of a text's bytes
variable (sha256 : String → List UInt8)

def hash_api_key (key : String) : String := hex_encode (sha256 key)

def find_business_by_key (key_hash : String) : App Business := do
  let row : Option Business ← sql (.select_business key_hash)
  match row with
  | some r => pure r
  | none => throw .Unauthorized

/-- The business that the request goes on with. -/
def auth_middleware (header : Option HeaderValue) : App Business := do
  let api_key ← ExceptT.mk (pure (extract_api_key header))
  let key_hash := hash_api_key sha256 api_key
  find_business_by_key key_hash

end Payman.Registry
