import Payman.Middleware.Auth

/-! `utils/api_key.rs`, `services/businesses.rs` and their handler: a new business and its key. -/

namespace Payman.Registry

structure GeneratedApiKey where
  raw : String
  hash : String
  key_prefix : String

structure CreateBusinessResult where
  business_id : Uuid
  api_key : String
  key_prefix : String
  deriving DecidableEq

structure CreateBusinessRequest where
  name : String
  deriving DecidableEq

/-- `raw` for the UUID that was drawn. -/
def raw_api_key (u : Uuid) : String := "sk_live_" ++ remove '-' (hyphenated u)

variable (sha256 : String → List UInt8)

def generate_api_key : App GeneratedApiKey := do
  let u ← new_v4
  let raw := raw_api_key u
  pure ⟨raw, hash_api_key sha256 raw, String.ofList (raw.toList.take 16)⟩

def create_business (name : String) : App CreateBusinessResult := do
  let api_key ← generate_api_key sha256
  let business_id ← new_v4
  transaction (do
    let _ ← sql (.insert_business business_id name)
    let id ← new_v4
    let _ ← sql (.insert_api_key id business_id api_key.hash api_key.key_prefix))
  pure ⟨business_id, api_key.raw, api_key.key_prefix⟩

def Handlers.create_business (req : CreateBusinessRequest) : App CreateBusinessResult := do
  if trim req.name = "" then
    throw (.BadRequest "name cannot be empty")
  Registry.create_business sha256 (trim req.name)

end Payman.Registry
