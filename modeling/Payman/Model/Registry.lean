import Payman.Model.World

/-! Businesses and their API keys: the two tables that signing up and authentication use, their SQL,
    and the operations on them.

    No other part of the server reads or writes these tables, so they have a world of their own.
    `api_keys` is keyed by its unique index `key_hash`. -/

namespace Payman.Registry
open Schemes

structure Business where
  id : Uuid
  name : String
  created_at : DateTime
  deriving DecidableEq

structure ApiKey where
  id : Uuid
  business_id : Uuid
  key_hash : String
  key_prefix : String
  revoked : Bool
  created_at : DateTime
  deriving DecidableEq

instance : Keyed Business Uuid := ⟨Business.id⟩
instance : Keyed ApiKey String := ⟨ApiKey.key_hash⟩

@[simp] theorem key_business (r : Business) : Keyed.key r = r.id := rfl
@[simp] theorem key_api_key (r : ApiKey) : Keyed.key r = r.key_hash := rfl

structure Db where
  businesses : Table Business
  api_keys : Table ApiKey

/-- A new row. -/
inductive Write : Type where
  | put_business (r : Business)
  | put_api_key (r : ApiKey)

/-- What a write locks: the entries of the unique indexes that it takes. -/
inductive LockKey where
  | business (id : Uuid)
  | api_key (id : Uuid)
  | key_hash (h : String)
  deriving DecidableEq

namespace Write

@[simp] def apply (db : Db) : Write → Db
  | .put_business r => { db with businesses := db.businesses.put r }
  | .put_api_key r => { db with api_keys := db.api_keys.put r }

@[simp] def locks : Write → List LockKey
  | .put_business r => [.business r.id]
  | .put_api_key r => [.api_key r.id, .key_hash r.key_hash]

instance : RowWrite Write Db LockKey := ⟨apply, locks⟩

@[simp] theorem rowWrite_apply (db : Db) (w : Write) : RowWrite.apply db w = w.apply db := rfl
@[simp] theorem rowWrite_locks (w : Write) : (RowWrite.locks w : List LockKey) = w.locks := rfl

end Write

theorem readsOnly_business (b : Uuid) :
    ReadsOnly (W := Write) (LockKey.business b) (fun db : Db => db.businesses.find b) := by
  intro db w h
  cases w <;> try rfl
  rename_i r
  exact Table.find_put_ne _ fun hk => h (by simp [← hk])

theorem readsOnly_api_key (h : String) :
    ReadsOnly (W := Write) (LockKey.key_hash h) (fun db : Db => db.api_keys.find h) := by
  intro db w hl
  cases w <;> try rfl
  rename_i r
  exact Table.find_put_ne _ fun hk => hl (by simp [← hk])

/-! ### Statements -/

inductive Stmt : Type where
  | insert_business (id : Uuid) (name : String)
  | insert_api_key (id business_id : Uuid) (key_hash key_prefix : String)
  | select_business (key_hash : String)

namespace Stmt

def Result : Stmt → Type
  | .insert_business .. => Unit
  | .insert_api_key .. => Unit
  | .select_business _ => Option Business

/-- `businesses b JOIN api_keys k ON k.business_id = b.id WHERE k.key_hash = $1 AND NOT k.revoked`. -/
def owners (db : Db) (key_hash : String) : List Business :=
  (db.api_keys.rows.filter fun k => k.key_hash = key_hash && !k.revoked).flatMap fun k =>
    db.businesses.rows.filter fun b => k.business_id = b.id

/-- A statement on the database `db` its session sees, at NOW() = `now`. -/
def run (now : DateTime) (c : Choice) (db : Db) :
    (s : Stmt) → Except DbError (List Write × s.Result)
  | .insert_business id name => do
    Payman.Stmt.unused db.businesses id "businesses_pkey"
    return ([.put_business { id, name, created_at := now }], ())
  | .insert_api_key id business_id key_hash key_prefix => do
    if db.api_keys.rows.any fun k => k.id = id then
      throw (.UniqueViolation "api_keys_pkey")
    Payman.Stmt.unused db.api_keys key_hash "api_keys_key_hash_key"
    Payman.Stmt.references db.businesses business_id
    let r : ApiKey :=
      { id, business_id, key_hash, key_prefix, revoked := false, created_at := now }
    return ([.put_api_key r], ())
  | .select_business key_hash => return ([], (arrange c.order (owners db key_hash)).head?)

end Stmt

/-! ### Operations -/

/-- The database with its sessions, one for each process, and the clock. -/
structure World where
  sessions : Sessions ℕ DateTime Write
  now : DateTime

namespace World

def initial : World := ⟨.idle ⟨.empty, .empty⟩, 0⟩

/-- The committed database. -/
abbrev db (w : World) : Db := w.sessions.db

/-- The open transaction of a process. -/
abbrev tx (w : World) (p : ℕ) : Option (Tx DateTime Write) := w.sessions.txs p

/-- NOW() for a process: the start of its transaction, or the clock. -/
def sql_now (w : World) (p : ℕ) : DateTime :=
  match w.tx p with
  | none => w.now
  | some t => t.began

end World

inductive Eff : Type where
  | begin
  | commit
  | drop
  | sql (s : Stmt)
  | new_v4

def Eff.Reply : Eff → Type
  | .begin => Except DbError Unit
  | .commit => Except DbError Unit
  | .drop => Unit
  | .sql s => Except DbError s.Result
  | .new_v4 => Uuid

/-- The operations of signing up and authentication. -/
abbrev registry : Signature := ⟨Eff, Eff.Reply⟩

namespace World

/-- The writes `ws` of process `p` take effect: in its open transaction, or committed at once. -/
def record (p : ℕ) (ws : List Write) (w : World) : Option World :=
  if hfree : w.sessions.Free p ws then
    match htx : w.tx p with
    | some t => some { w with sessions := w.sessions.stage p t ws htx hfree }
    | none => some { w with sessions := w.sessions.autocommit ws }
  else none

/-- An operation at the current time. -/
def act (p : ℕ) (c : Choice) (w : World) : (e : Eff) → Option (World × e.Reply)
  | .begin =>
    if c.fail then some (w, .error .Connection)
    else some ({ w with sessions := w.sessions.start p w.now }, .ok ())
  | .commit =>
    if c.fail then some (w, .error .Connection)
    else some ({ w with sessions := w.sessions.commit p }, .ok ())
  | .drop => some ({ w with sessions := w.sessions.rollback p }, ())
  | .sql s =>
    if c.fail then some (w, .error .Connection)
    else match s.run (w.sql_now p) c (w.sessions.view p) with
      | .error e => some (w, .error e)
      | .ok (ws, r) => (w.record p ws).map fun w' => (w', .ok r)
  | .new_v4 => some (w, c.uuid)

/-- One operation of process `p`, some time after the last step of the run. -/
def exec (p : ℕ) (e : Eff) (c : Choice) (w : World) : Option (World × e.Reply) :=
  World.act p c { w with now := w.now + c.elapsed } e

end World

/-- A program that may fail with an `AppError`. -/
abbrev App (α : Type) := ExceptT AppError (Prog registry) α

def sql (s : Stmt) : App s.Result := ExceptT.mk (.op (.sql s) fun r => .ret (or_database r))
def begin_tx : App Unit := ExceptT.mk (.op .begin fun r => .ret (or_database r))
def commit_tx : App Unit := ExceptT.mk (.op .commit fun r => .ret (or_database r))
def drop_tx : App Unit := ExceptT.mk (.op .drop fun _ => .ret (.ok ()))
def new_v4 : App Uuid := ExceptT.mk (.op .new_v4 fun u => .ret (.ok u))

/-- A scope that owns an open transaction: leaving it early with `?` drops the transaction. -/
def or_drop {α : Type} (body : App α) : App α := ExceptT.mk (do
  match ← body.run with
  | .ok a => pure (.ok a)
  | .error e => do
    let _ ← drop_tx.run
    pure (.error e))

/-- `let mut tx = db.begin().await?; body; tx.commit().await?`. -/
def transaction {α : Type} (body : App α) : App α := do
  begin_tx
  or_drop (do
    let a ← body
    commit_tx
    pure a)

end Payman.Registry
