import Payman.Model.Sql
import Payman.Model.Text
import Payman.Schemes.Program

/-! `bin/psp.rs`: the mock PSP.

    A handler is a program over the operations of the runtime: it sleeps, draws a UUID, writes to the
    shared store under its lock, or spawns the task that settles a slow charge. A handler whose
    client hangs up is dropped where it is; a spawned task is not. -/

namespace Payman.MockPsp
open Schemes

structure ChargeRequest where
  card_token : String
  attempt_id : Uuid
  deriving DecidableEq

structure ChargeOutcome where
  status : String
  psp_ref : Option String
  code : Option String
  deriving DecidableEq

abbrev OutcomeStore := Uuid → Option ChargeOutcome

abbrev StatusCode := ℕ

inductive Eff where
  | sleep (ms : ℕ)
  | new_v4
  | insert (attempt_id : Uuid) (outcome : ChargeOutcome)
  /-- `tokio::spawn` of the task that settles `attempt_id`. -/
  | spawn (attempt_id : Uuid)

def Eff.Reply : Eff → Type
  | .sleep _ => Unit
  | .new_v4 => Uuid
  | .insert .. => Unit
  | .spawn _ => Unit

/-- The operations of the PSP's programs. -/
abbrev mock : Signature := ⟨Eff, Eff.Reply⟩

def sleep (ms : ℕ) : Prog mock Unit := .op (.sleep ms) .ret
def new_v4 : Prog mock Uuid := .op .new_v4 .ret
def insert (attempt_id : Uuid) (outcome : ChargeOutcome) : Prog mock Unit :=
  .op (.insert attempt_id outcome) .ret
def spawn (attempt_id : Uuid) : Prog mock Unit := .op (.spawn attempt_id) .ret

def succeeded (u : Uuid) : ChargeOutcome := ⟨"succeeded", some (hyphenated u), none⟩
def failed (code : String) : ChargeOutcome := ⟨"failed", none, some code⟩

/-- What the spawned task does. -/
def settle (attempt_id : Uuid) : Prog mock Unit := do
  let outcome := succeeded (← new_v4)
  insert attempt_id outcome

def charge (req : ChargeRequest) : Prog mock (Except StatusCode ChargeOutcome) :=
  match req.card_token with
  | "tok_success" => do
    sleep 100
    let outcome := succeeded (← new_v4)
    insert req.attempt_id outcome
    return .ok outcome
  | "tok_insufficient_funds" => do
    sleep 100
    let outcome := failed "insufficient_funds"
    insert req.attempt_id outcome
    return .ok outcome
  | "tok_card_declined" => do
    sleep 100
    let outcome := failed "card_declined"
    insert req.attempt_id outcome
    return .ok outcome
  | "tok_timeout" => do
    spawn req.attempt_id
    sleep 30000
    -- not the outcome that the task has stored: this reference is another one
    return .ok (succeeded (← new_v4))
  | "tok_network_error" => return .error 500
  | _ => return .error 400

def get_outcome (store : OutcomeStore) (attempt_id : Uuid) : Except StatusCode ChargeOutcome :=
  match store attempt_id with
  | some outcome => .ok outcome
  | none => .error 404

/-! ### On the wire -/

/-- What the client decodes from the JSON of an outcome. -/
def ChargeOutcome.body (outcome : ChargeOutcome) : PspBody :=
  ⟨outcome.status, outcome.psp_ref, outcome.code⟩

/-- The response to a request: an error has a status and no body. -/
def into_response : Except StatusCode ChargeOutcome → Answer
  | .ok outcome => .response 200 (some outcome.body)
  | .error status => .response status none

/-! ### The runtime -/

/-- A handler at work: it takes no step before `wake`. -/
structure Handler where
  wake : DateTime
  prog : Prog mock (Except StatusCode ChargeOutcome)

/-- A spawned task at work. -/
structure Task where
  attempt_id : Uuid
  prog : Prog mock Unit

/-- The store, and the tasks spawned so far. -/
structure State where
  store : OutcomeStore
  tasks : List Task

namespace State

def initial : State := ⟨fun _ => none, []⟩

/-- One operation, for the UUID that it would draw. -/
def act (u : Uuid) (s : State) : (e : Eff) → State × e.Reply
  | .sleep _ => (s, ())
  | .new_v4 => (s, u)
  | .insert attempt_id outcome =>
    ({ s with store := Function.update s.store attempt_id (some outcome) }, ())
  | .spawn attempt_id => ({ s with tasks := s.tasks ++ [⟨attempt_id, settle attempt_id⟩] }, ())

end State

/-- How long an operation suspends its program, in microseconds. -/
def Eff.pause : Eff → DateTime
  | .sleep ms => 1000 * ms
  | _ => 0

/-- A step of a handler at time `now`. -/
def Handler.step (now : DateTime) (u : Uuid) (s : State) (h : Handler) : Option (State × Handler) :=
  match h.prog with
  | .ret _ => none
  | .op e k =>
    if h.wake ≤ now then
      let (s, r) := s.act u e
      some (s, ⟨now + e.pause, k r⟩)
    else none

/-- The response of a handler that has returned by `now`. -/
def Handler.response (now : DateTime) (h : Handler) : Option Answer :=
  match h.prog with
  | .ret r => if h.wake ≤ now then some (into_response r) else none
  | .op _ _ => none

/-- A step of task `n`. -/
def State.run_task (u : Uuid) (n : ℕ) (s : State) : Option State :=
  match s.tasks[n]? with
  | some ⟨attempt_id, .op e k⟩ =>
    let (s, r) := s.act u e
    some { s with tasks := s.tasks.set n ⟨attempt_id, k r⟩ }
  | _ => none

end Payman.MockPsp
