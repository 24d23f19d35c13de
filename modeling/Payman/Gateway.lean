import Payman.Middleware.RateLimiter
import Payman.Schemes.Steps
import Payman.Server

/-! `main.rs`: the routes, and the layers in front of them.

    Every request passes the limiter of its address. Signing up lies right behind it; the other
    routes lie behind authentication and the limiter of their business. Both limiters write to one
    Redis. A request is stopped where a limiter asks Redis: other requests come in between, and the
    answer may not come at all. -/

namespace Payman.Registry
open Schemes

/-- The address of a client; the server listens on IPv4 only. -/
structure Ipv4Addr where
  a : UInt8
  b : UInt8
  c : UInt8
  d : UInt8
  deriving DecidableEq

def Ipv4Addr.to_string (ip : Ipv4Addr) : String :=
  toString ip.a.toNat ++ "." ++ toString ip.b.toNat ++ "." ++ toString ip.c.toNat ++ "." ++
    toString ip.d.toNat

/-- The key of a business in Redis; `business` is what authentication has attached to the request. -/
def business_key (business : Option Business) : String :=
  (business.map fun b => hyphenated b.id).getD "unknown"

/-- `format!("{}-{}", now, uuid)`. -/
def log_member (now : ℕ) (uuid : Uuid) : String := toString now ++ "-" ++ hyphenated uuid

/-- What becomes of a script: Redis answers, or runs it and the answer is lost, or never sees it. -/
inductive Fate where
  | answered
  | lost
  | unreached
  deriving DecidableEq

/-- `is_allowed` from the call of the script on. -/
def ask (fate : Fate) (s : Limiter) (x : Execution) : Limiter × Bool :=
  let r := x.request
  let (_, result) :=
    sliding_log_script r.key r.now WINDOW_MS MAX_REQUESTS r.member (s.db.at_ x.time)
  match fate with
  | .answered =>
    (s.execute WINDOW_MS MAX_REQUESTS x, is_allowed (.ok result : Except Unit ℕ))
  | .lost => (s.execute WINDOW_MS MAX_REQUESTS x, is_allowed (.error () : Except Unit ℕ))
  | .unreached => (s, is_allowed (.error () : Except Unit ℕ))

/-- Where a request goes. -/
inductive Route where
  | health
  | create_business (req : CreateBusinessRequest)
  | protected_routes (header : Option HeaderValue)

/-- What lies behind the limiter of the address. -/
def Route.entry : Route → Option Entry
  | .health => none
  | .create_business req => some (.create_business req)
  | .protected_routes header => some (.authenticate header)

inductive Layer where
  | ip
  | business
  deriving DecidableEq

/-- A request at a limiter: it has not come there; it is about to run its script; it has passed; it
    has been sent away. -/
inductive Check where
  | unasked
  | asking (r : RateRequest)
  | passed (r : RateRequest)
  | refused (r : RateRequest)
  deriving DecidableEq

structure Passage where
  ip : Ipv4Addr
  route : Route
  checks : Layer → Check

def Passage.check (p : Passage) (layer : Layer) (c : Check) : Passage :=
  { p with checks := Function.update p.checks layer c }

structure Gateway where
  server : Server
  limiter : Limiter
  requests : ℕ → Option Passage
  /-- The UUIDs that requests have drawn for the logs. -/
  minted : List Uuid

variable (sha256 : String → List UInt8)

namespace Gateway

def initial : Gateway := ⟨.initial, .initial, fun _ => none, []⟩

inductive Label where
  | connect (n : ℕ) (ip : Ipv4Addr) (route : Route)
  /-- The request comes to a limiter, which reads the clock. -/
  | come (layer : Layer) (n : ℕ) (now : ℕ) (uuid : Uuid)
  /-- Its script, at a Redis whose clock shows `time`. -/
  | script (layer : Layer) (n : ℕ) (time : ℤ) (fate : Fate)
  | handle (n : ℕ) (q : Request)
  | server (l : Server.Label)

def set (g : Gateway) (n : ℕ) (p : Passage) : Gateway :=
  { g with requests := Function.update g.requests n (some p) }

/-- The key of a request at a limiter. Nobody comes to the second one who is not authenticated. -/
def key (g : Gateway) (n : ℕ) (p : Passage) : Layer → Option String
  | .ip => some p.ip.to_string
  | .business =>
    match g.server.outcome n with
    | some (.ok (.authenticated business)) => some (business_key (some business))
    | _ => none

/-- `next.run(req)` of a limiter. Who has passed the second one waits for its handler. -/
def next (g : Gateway) (layer : Layer) (n : ℕ) (route : Route) : Option Gateway :=
  match layer, route.entry with
  | .ip, some entry => (g.server.step sha256 (.arrive n entry)).map fun server => { g with server }
  | _, _ => some g

def step (g : Gateway) : Label → Option Gateway
  | .connect n ip route =>
    if (g.requests n).isNone then some (g.set n ⟨ip, route, fun _ => .unasked⟩) else none
  | .come layer n now uuid => do
    let p ← g.requests n
    let key ← g.key n p layer
    match p.checks layer with
    | .unasked =>
      some { g.set n (p.check layer (.asking ⟨key, now, log_member now uuid⟩)) with
        minted := uuid :: g.minted }
    | _ => none
  | .script layer n time fate => do
    let p ← g.requests n
    match p.checks layer with
    | .asking r =>
      let (limiter, allowed) := ask fate g.limiter ⟨time, r⟩
      if allowed then
        ({ g with limiter }.set n (p.check layer (.passed r))).next sha256 layer n p.route
      else some ({ g with limiter }.set n (p.check layer (.refused r)))
    | _ => none
  | .handle n q => do
    let p ← g.requests n
    match p.checks .business with
    | .passed _ =>
      let server ← g.server.step sha256 (.handle n q)
      some { g with server }
    | _ => none
  | .server (.arrive ..) => none
  | .server (.handle ..) => none
  | .server l => (g.server.step sha256 l).map fun server => { g with server }

/-- Runs whose steps all meet `ok`. -/
abbrev Run (ok : Gateway → Label → Prop) : Gateway → Gateway → Prop :=
  Schemes.Run (step sha256) ok

/-- Take a list of steps. -/
abbrev steps (g : Gateway) (ls : List Label) : Option Gateway := Schemes.steps (step sha256) g ls

end Gateway

end Payman.Registry
