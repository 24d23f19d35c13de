import Payman.Model.Sql
import Payman.Schemes.Rely

/-! The shared world of all requests and workers, and the operations that act on it.

    The world is the database with its sessions, the clock, the requests sent to the PSP and to
    webhook endpoints, the background tasks spawned, and the history of commits. `exec` is one
    operation of process `p` for one choice of the environment; it has no result while the operation
    waits for a row lock. A statement outside a transaction commits by itself; NOW() is the start of
    the transaction. -/

namespace Payman
open Schemes

inductive AppError where
  | NotFound
  | Unauthorized
  | BadRequest (message : String)
  | Conflict (message : String)
  | InvalidStateTransition (message : String)
  | Database (e : DbError)
  | Internal
  | TooManyRequests
  deriving DecidableEq

/-- Who acts: the `n`-th API call, the `n`-th spawned task, the reconciliation worker, or the webhook
    worker. -/
inductive Pid where
  | call (n : ℕ)
  | task (n : ℕ)
  | worker
  | webhook_worker
  deriving DecidableEq

/-- A `POST /charge` that has been sent. -/
structure Charge where
  pid : Pid
  attempt_id : Uuid
  card_token : String
  deriving DecidableEq

/-- A `dispatch` handed to `tokio::spawn`. -/
structure DispatchTask where
  business_id : Uuid
  invoice_id : Uuid
  event_type : String
  deriving DecidableEq

/-- A POST to a webhook endpoint: for which delivery, what went into the request, and how it
    ended. -/
structure Post where
  delivery_id : Uuid
  url : String
  secret : String
  payload : Json
  /-- Seconds since the epoch when it was signed. -/
  timestamp : ℤ
  answer : Answer

/-- A committed transaction: who committed, the database before, and the row versions written. -/
structure Commit where
  pid : Pid
  before : Db
  writes : List Write

def Commit.after (c : Commit) : Db := applyAll c.before c.writes

/-- `charges`, `spawned`, `history` and `posts` list the latest entry first. -/
structure World where
  sessions : Sessions Pid DateTime Write
  now : DateTime
  charges : List Charge
  spawned : List DispatchTask
  history : List Commit
  posts : List Post

namespace World

/-- A new installation. -/
def initial : World := ⟨.idle .empty, 0, [], [], [], []⟩

/-- The committed database. -/
abbrev db (w : World) : Db := w.sessions.db

/-- The open transaction of a process. -/
abbrev tx (w : World) (p : Pid) : Option (Tx DateTime Write) := w.sessions.txs p

/-- NOW() for a process: the start of its transaction, or the clock. -/
def sql_now (w : World) (p : Pid) : DateTime :=
  match w.tx p with
  | none => w.now
  | some t => t.began

def elapse (w : World) (d : ℕ) : World := { w with now := w.now + d }

end World

inductive Eff : Type where
  | begin
  | commit
  | rollback
  | drop
  | sql (s : Stmt)
  | new_v4
  | utc_now
  | send_charge (attempt_id : Uuid) (card_token : String)
  | recv_charge (attempt_id : Uuid)
  | get_charge (attempt_id : Uuid)
  | spawn_dispatch (t : DispatchTask)
  | post_webhook (delivery_id : Uuid) (url secret : String) (payload : Json) (timestamp : ℤ)

def Eff.Reply : Eff → Type
  | .begin => Except DbError Unit
  | .commit => Except DbError Unit
  | .rollback => Except DbError Unit
  | .drop => Unit
  | .sql s => Except DbError s.Result
  | .new_v4 => Uuid
  | .utc_now => DateTime
  | .send_charge .. => Unit
  | .recv_charge _ => Answer
  | .get_charge _ => Answer
  | .spawn_dispatch _ => Unit
  | .post_webhook .. => Answer

theorem Eff.reply_nonempty (e : Eff) : Nonempty e.Reply := by
  cases e
  case begin | commit | rollback | sql => exact ⟨.error .Connection⟩
  case drop | send_charge | spawn_dispatch => exact ⟨()⟩
  case new_v4 => exact ⟨(0 : ℕ)⟩
  case utc_now => exact ⟨(0 : ℤ)⟩
  case recv_charge | get_charge | post_webhook => exact ⟨Answer.timed_out⟩

/-- The operations of Payman's programs. -/
abbrev payman : Signature := ⟨Eff, Eff.Reply⟩

namespace World

/-- The writes `ws` of process `p` take effect: in its open transaction, or committed at once. -/
def record (p : Pid) (ws : List Write) (w : World) : Option World :=
  if hfree : w.sessions.Free p ws then
    match htx : w.tx p with
    | some t => some { w with sessions := w.sessions.stage p t ws htx hfree }
    | none =>
      if ws.isEmpty then some w
      else some { w with
        sessions := w.sessions.autocommit ws
        history := ⟨p, w.db, ws⟩ :: w.history }
  else none

/-- The commit of `p`'s transaction. -/
def commit (p : Pid) (t : Tx DateTime Write) (w : World) : World :=
  { w with
    sessions := w.sessions.commit p
    history := ⟨p, w.db, t.writes⟩ :: w.history }

/-- An operation at the current time. A call that fails has had no effect, and neither has a failing
    COMMIT: a failure stands for a call that the database has not carried out, not for an answer lost
    on the way back. Sending a charge or a webhook is one POST; redirects are not followed. -/
def act (p : Pid) (c : Choice) (w : World) : (e : Eff) → Option (World × e.Reply)
  | .begin =>
    if c.fail then some (w, .error .Connection)
    else some ({ w with sessions := w.sessions.start p w.now }, .ok ())
  | .commit =>
    match w.tx p with
    | none => some (w, .error .Connection)
    | some t => if c.fail then some (w, .error .Connection) else some (w.commit p t, .ok ())
  | .rollback =>
    if c.fail then some (w, .error .Connection)
    else some ({ w with sessions := w.sessions.rollback p }, .ok ())
  | .drop => some ({ w with sessions := w.sessions.rollback p }, ())
  | .sql s =>
    if c.fail then some (w, .error .Connection)
    else match s.run (w.sql_now p) c (w.sessions.view p) with
      | .error e => some (w, .error e)
      | .ok (ws, r) => (w.record p ws).map fun w' => (w', .ok r)
  | .new_v4 => some (w, c.uuid)
  | .utc_now => some (w, w.now)
  | .send_charge attempt_id card_token =>
    some ({ w with charges := ⟨p, attempt_id, card_token⟩ :: w.charges }, ())
  | .recv_charge _ => some (w, c.answer)
  | .get_charge _ => some (w, c.answer)
  | .spawn_dispatch t => some ({ w with spawned := t :: w.spawned }, ())
  | .post_webhook delivery_id url secret payload timestamp =>
    some ({ w with
      posts := ⟨delivery_id, url, secret, payload, timestamp, c.answer⟩ :: w.posts }, c.answer)

/-- One operation of process `p`, some time after the last step of the run. -/
def exec (p : Pid) (e : Eff) (c : Choice) (w : World) : Option (World × e.Reply) :=
  (w.elapse c.elapsed).act p c e

end World

/-! ### The programs' building blocks -/

/-- A program that may fail with an `AppError`. -/
abbrev App (α : Type) := ExceptT AppError (Prog payman) α

/-- `sqlx::Error` becomes `AppError::Database`. -/
def or_database {α : Type} : Except DbError α → Except AppError α
  | .ok a => .ok a
  | .error e => .error (.Database e)

def sql (s : Stmt) : App s.Result := ExceptT.mk (.op (.sql s) fun r => .ret (or_database r))
def begin_tx : App Unit := ExceptT.mk (.op .begin fun r => .ret (or_database r))
def commit_tx : App Unit := ExceptT.mk (.op .commit fun r => .ret (or_database r))
def rollback_tx : App Unit := ExceptT.mk (.op .rollback fun r => .ret (or_database r))
def drop_tx : App Unit := ExceptT.mk (.op .drop fun _ => .ret (.ok ()))
def new_v4 : App Uuid := ExceptT.mk (.op .new_v4 fun u => .ret (.ok u))
def utc_now : App DateTime := ExceptT.mk (.op .utc_now fun t => .ret (.ok t))
def send_charge (attempt_id : Uuid) (card_token : String) : App Unit :=
  ExceptT.mk (.op (.send_charge attempt_id card_token) fun _ => .ret (.ok ()))
def recv_charge (attempt_id : Uuid) : App Answer :=
  ExceptT.mk (.op (.recv_charge attempt_id) fun a => .ret (.ok a))
def get_charge (attempt_id : Uuid) : App Answer :=
  ExceptT.mk (.op (.get_charge attempt_id) fun a => .ret (.ok a))
def spawn_dispatch (business_id invoice_id : Uuid) (event_type : String) : App Unit :=
  ExceptT.mk (.op (.spawn_dispatch ⟨business_id, invoice_id, event_type⟩) fun _ => .ret (.ok ()))

def post_webhook (delivery_id : Uuid) (url secret : String) (payload : Json) (timestamp : ℤ) :
    App Answer :=
  ExceptT.mk (.op (.post_webhook delivery_id url secret payload timestamp) fun a => .ret (.ok a))

/-- `ok_or(e)?`. -/
def ok_or {α : Type} (o : Option α) (e : AppError) : App α :=
  match o with
  | some a => pure a
  | none => throw e

/-- `if bad { return Err(e) }`. -/
def reject_if (bad : Prop) [Decidable bad] (e : AppError) : App Unit :=
  if bad then throw e else pure ()

/-- `fetch_one`: no row is an error of the database call. -/
def fetch_one {α : Type} (o : Option α) : App α := ok_or o (.Database .RowNotFound)

/-- `if let Err(e) = body { error!(..) }`: an error is only logged. -/
def log_error (body : App Unit) : App Unit := ExceptT.mk (do
  let _ ← body.run
  pure (.ok ()))

/-- A scope that owns an open transaction: leaving it early with `?` drops the transaction. -/
def or_drop {α : Type} (body : App α) : App α := ExceptT.mk (do
  match ← body.run with
  | .ok a => pure (.ok a)
  | .error e => do
    let _ ← drop_tx.run
    pure (.error e))

/-- `let mut tx = db.begin().await?; body; tx.commit().await?`. -/
def transaction {α : Type} (body : App α) : App α := do
  begin_tx
  or_drop (do
    let a ← body
    commit_tx
    pure a)

end Payman
