import Payman.Model.Redis

/-! `middleware/rate_limiter.rs`: the sliding log that both rate limiters keep in Redis.

    Redis runs the script as one step. Lua's numbers are exact below 2^53, so they are integers
    here. -/

namespace Payman

def WINDOW_MS : ℕ := 60000
def MAX_REQUESTS : ℕ := 100

/-- `SLIDING_LOG_SCRIPT`. -/
def sliding_log_script (key : String) (now window max_req : ℕ) (member : String) (db : Redis) :
    Redis × ℕ :=
  let cutoff : ℤ := (now : ℤ) - window
  let db := db.zremrangebyscore key 0 cutoff
  let count := db.zcard key
  if count ≥ max_req then (db, 0)
  else
    let db := db.zadd key now member
    let db := db.pexpire key (window + 1000)
    (db, 1)

/-- What `is_allowed` makes of the script's result: an error of Redis lets the request pass. -/
def is_allowed {ε : Type} : Except ε ℕ → Bool
  | .ok 1 => true
  | .ok _ => false
  | .error _ => true

/-- A request as the limiter sees it: the client's address or business, the time in milliseconds,
    and a fresh UUID in `member`. -/
structure RateRequest where
  key : String
  now : ℕ
  member : String
  deriving DecidableEq

/-- One request, at a Redis whose clock is `skew` ahead of the caller's. -/
def RateRequest.serve (window max_req : ℕ) (skew : ℤ) (r : RateRequest) (db : Redis) :
    Redis × Bool :=
  let (db, result) := sliding_log_script r.key r.now window max_req r.member
    (db.at_ (r.now + skew))
  (db, is_allowed (.ok result : Except Unit ℕ))

/-- A sequence of requests, each with its decision. -/
def serve_all (window max_req : ℕ) (skew : ℤ) : List RateRequest → Redis → List (RateRequest × Bool)
  | [], _ => []
  | r :: rs, db =>
    let (db, allowed) := r.serve window max_req skew db
    (r, allowed) :: serve_all window max_req skew rs db

/-! ### Scripts in the order in which they reach Redis

    `is_allowed` reads the caller's clock before it contacts Redis, and callers do not wait for each
    other: the times of the requests need not be in the order of their scripts, nor agree with
    Redis's own clock. -/

/-- A request whose script is executed when Redis's clock shows `time`. -/
structure Execution where
  time : ℤ
  request : RateRequest

/-- The limiter at work: what Redis holds, and the requests allowed so far, oldest first. -/
structure Limiter where
  db : Redis
  allowed : List RateRequest

namespace Limiter

/-- Nothing has been allowed yet. -/
def initial : Limiter := ⟨.empty true, []⟩

def execute (window max_req : ℕ) (s : Limiter) (x : Execution) : Limiter :=
  let r := x.request
  let (db, result) := sliding_log_script r.key r.now window max_req r.member (s.db.at_ x.time)
  ⟨db, if is_allowed (.ok result : Except Unit ℕ) then s.allowed ++ [r] else s.allowed⟩

def execute_all (window max_req : ℕ) (s : Limiter) (xs : List Execution) : Limiter :=
  xs.foldl (execute window max_req) s

end Limiter

end Payman
