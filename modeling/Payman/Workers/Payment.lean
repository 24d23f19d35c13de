import Payman.Model.World

/-! `workers/payment.rs`: the charge request to the PSP. -/

namespace Payman

inductive PspResult where
  | Succeeded (psp_ref : String)
  | Failed (code : String)
  | TimedOut
  | NetworkError
  deriving DecidableEq

/-- How the answer to `POST /charge` is read. Any status but "succeeded" counts as a failure. -/
def psp_result : Answer → PspResult
  | .timed_out => .TimedOut
  | .network_error => .NetworkError
  | .response status body =>
    if is_success status then
      match body with
      | none => .NetworkError
      | some psp =>
        if psp.status = "succeeded" then .Succeeded (psp.psp_ref.getD "")
        else .Failed (psp.code.getD "unknown")
    else .NetworkError

def call_psp (attempt_id : Uuid) (card_token : String) : App PspResult := do
  send_charge attempt_id card_token
  let answer ← recv_charge attempt_id
  return psp_result answer

end Payman
