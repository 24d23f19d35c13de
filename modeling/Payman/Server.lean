import Payman.Services.Businesses
import Payman.System

/-! The whole server: signing up, authentication, and behind it the billing system.

    Calls of `create_business` and requests on their way through `auth_middleware` are processes of
    their own, interleaved operation by operation with each other and with every step of the billing
    system. A request reaches its handler only as the business it has been authenticated as. -/

namespace Payman.Registry
open Schemes

/-- How a request enters: to sign up, or with its `Authorization` header. -/
inductive Entry where
  | create_business (req : CreateBusinessRequest)
  | authenticate (header : Option HeaderValue)
  deriving DecidableEq

inductive Outcome where
  | created (res : CreateBusinessResult)
  | authenticated (business : Business)
  deriving DecidableEq

/-- A process: how it entered and what is left of its program, nothing if it was killed. -/
structure Proc where
  entry : Entry
  prog : Option (Prog registry (Except AppError Outcome))

structure Server where
  registry : World
  procs : ℕ → Option Proc
  billing : Sys

variable (sha256 : String → List UInt8)

def Entry.program : Entry → App Outcome
  | .create_business req => .created <$> Handlers.create_business sha256 req
  | .authenticate header => .authenticated <$> auth_middleware sha256 header

namespace Server

def initial : Server := ⟨.initial, fun _ => none, .initial⟩

inductive Label where
  | arrive (n : ℕ) (entry : Entry)
  | exec (n : ℕ) (c : Choice)
  | kill (n : ℕ)
  /-- `next.run(req)`: request `n` goes on to its handler. -/
  | handle (n : ℕ) (q : Request)
  | billing (l : Sys.Label)

/-- How process `n` entered. -/
def entry (s : Server) (n : ℕ) : Option Entry := (s.procs n).map (·.entry)

/-- Process `n` has not returned, nor been killed. -/
def running (s : Server) (n : ℕ) : Bool :=
  match s.procs n with
  | some ⟨_, some (.op _ _)⟩ => true
  | _ => false

/-- What process `n` has returned. -/
def outcome (s : Server) (n : ℕ) : Option (Except AppError Outcome) :=
  match s.procs n with
  | some ⟨_, some (.ret r)⟩ => some r
  | _ => none

/-- Process `n` becomes `pr` and the registry `w`. -/
def set (s : Server) (n : ℕ) (pr : Proc) (w : World) : Server :=
  { s with registry := w, procs := Function.update s.procs n (some pr) }

def step (s : Server) : Label → Option Server
  | .arrive n entry =>
    if (s.procs n).isNone then some (s.set n ⟨entry, some (entry.program sha256).run⟩ s.registry)
    else none
  | .exec n c =>
    match s.procs n with
    | some ⟨entry, some (.op e k)⟩ =>
      (s.registry.exec n e c).map fun (w, r) => s.set n ⟨entry, some (k r)⟩ w
    | _ => none
  | .kill n =>
    match s.procs n with
    | some ⟨entry, some (.op _ _)⟩ =>
      some (s.set n ⟨entry, none⟩ { s.registry with sessions := s.registry.sessions.rollback n })
    | _ => none
  | .handle n q =>
    match s.outcome n with
    | some (.ok (.authenticated business)) =>
      if business.id = q.business then
        (s.billing.step (.arrive n q)).map fun billing => { s with billing }
      else none
    | _ => none
  | .billing (.arrive ..) => none
  | .billing l => (s.billing.step l).map fun billing => { s with billing }

/-- Reached from an empty installation. -/
def Reachable (s : Server) : Prop :=
  Relation.ReflTransGen (fun s s' : Server => ∃ l, s.step sha256 l = some s') initial s

/-- Take a list of steps. -/
def steps (s : Server) : List Label → Option Server
  | [] => some s
  | l :: ls => (s.step sha256 l).bind fun s' => s'.steps ls

end Server

end Payman.Registry
