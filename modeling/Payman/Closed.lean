import Payman.Bin.Psp
import Payman.Schemes.Steps
import Payman.System

/-! Payman together with the mock PSP.

    Nothing is left to the environment but the network and the order of steps: the answer to a charge
    is the response of its handler, if it comes within five seconds, and the answer to a status query
    is what the store says. There is one clock, which Payman's operations have to keep. -/

namespace Payman
open Schemes

/-- `tokio::time::timeout(Duration::from_secs(5), ..)` around the charge. -/
def psp_timeout : DateTime := 5000000

/-- A `POST /charge` that was sent; its handler is gone once the connection is. -/
structure Call where
  request : MockPsp.ChargeRequest
  sent_at : DateTime
  handler : Option MockPsp.Handler

structure Closed where
  payman : Sys
  psp : MockPsp.State
  calls : Pid → Option Call
  clock : DateTime

namespace Closed

def initial : Closed := ⟨.initial, .initial, fun _ => none, 0⟩

inductive Label where
  | payman (l : Sys.Label)
  /-- Time passes. -/
  | elapse (d : ℕ)
  /-- The handler of `p`'s charge takes a step. -/
  | handle (p : Pid) (u : Uuid)
  /-- The connection of `p`'s charge is closed, by either side or by neither. -/
  | hang_up (p : Pid)
  /-- The `n`-th spawned task takes a step. -/
  | settle (n : ℕ) (u : Uuid)

/-- How `p`'s charge for attempt `a` may end at this moment. -/
def Receives (s : Closed) (p : Pid) (a : Uuid) : Answer → Prop
  | .timed_out => ∃ call ∈ s.calls p, call.request.attempt_id = a ∧
    call.sent_at + psp_timeout ≤ s.clock
  | .network_error => True
  | ans@(.response ..) => ∃ call ∈ s.calls p, call.request.attempt_id = a ∧
    s.clock < call.sent_at + psp_timeout ∧ ∃ h ∈ call.handler, h.response s.clock = some ans

instance (s : Closed) (p : Pid) (a : Uuid) : ∀ ans, Decidable (s.Receives p a ans)
  | .timed_out => inferInstanceAs (Decidable (∃ _ ∈ _, _))
  | .network_error => isTrue trivial
  | .response .. => inferInstanceAs (Decidable (∃ _ ∈ _, _))

/-- The answer to operation `e` of process `p` is one that can come. -/
def Admits (s : Closed) (p : Pid) (ans : Answer) : Option Eff → Prop
  | some (.recv_charge a) => s.Receives p a ans
  | some (.get_charge a) => ans = .timed_out ∨ ans = .network_error ∨
    ans = MockPsp.into_response (MockPsp.get_outcome s.psp.store a)
  | _ => True

instance (s : Closed) (p : Pid) (ans : Answer) : ∀ e, Decidable (s.Admits p ans e)
  | some (.recv_charge a) => inferInstanceAs (Decidable (s.Receives p a ans))
  | some (.get_charge _) => inferInstanceAs (Decidable (_ ∨ _ ∨ _))
  | some .begin | some .commit | some .rollback | some .drop | some (.sql _) | some .new_v4
  | some .utc_now | some (.send_charge ..) | some (.spawn_dispatch _) | some (.post_webhook ..)
  | none => isTrue trivial

/-- A step of Payman now, with an answer that can come. -/
def Allows (s : Closed) : Sys.Label → Prop
  | .exec p c => s.payman.world.now + c.elapsed = s.clock ∧ s.Admits p c.answer (s.payman.head p)
  | _ => True

instance (s : Closed) : ∀ l, Decidable (s.Allows l)
  | .exec .. => inferInstanceAs (Decidable (_ ∧ _))
  | .arrive .. | .background _ | .tick | .webhook_tick | .kill _ => isTrue trivial

/-- The calls after a step of Payman: a charge reaches the PSP when it is sent. -/
def send (s : Closed) : Sys.Label → Pid → Option Call
  | .exec p _ =>
    match s.payman.head p with
    | some (.send_charge attempt_id card_token) =>
      let request : MockPsp.ChargeRequest := ⟨card_token, attempt_id⟩
      Function.update s.calls p (some ⟨request, s.clock, some ⟨s.clock, MockPsp.charge request⟩⟩)
    | _ => s.calls
  | _ => s.calls

def step (s : Closed) : Label → Option Closed
  | .payman l =>
    if s.Allows l then
      (s.payman.step l).map fun payman => { s with payman, calls := s.send l }
    else none
  | .elapse d => some { s with clock := s.clock + d }
  | .handle p u =>
    match s.calls p with
    | some ⟨request, sent_at, some h⟩ =>
      (h.step s.clock u s.psp).map fun (psp, h) =>
        { s with psp, calls := Function.update s.calls p (some ⟨request, sent_at, some h⟩) }
    | _ => none
  | .hang_up p =>
    match s.calls p with
    | some call =>
      some { s with calls := Function.update s.calls p (some { call with handler := none }) }
    | none => none
  | .settle n u => (s.psp.run_task u n).map fun psp => { s with psp }

/-- Reached from an empty installation by steps whose labels `ok` admits. -/
abbrev Run (ok : Closed → Label → Prop) : Closed → Closed → Prop := Schemes.Run step ok

def Reachable (s : Closed) : Prop := Run (fun _ _ => True) initial s

/-- Take a list of steps. -/
abbrev steps (s : Closed) (ls : List Label) : Option Closed := Schemes.steps step s ls

end Closed

end Payman
