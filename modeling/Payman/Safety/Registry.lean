import Payman.Schemes.Protocol
import Payman.Server

/-! Signing up and authentication, step by step.

    A call of `create_business` follows a protocol; its phase says what its transaction holds and
    which rows are known to be absent until it commits. The rows of a business and its key are
    committed together, in the step in which the call returns the key, and no other step writes
    them, so every row of `api_keys` belongs to a key that has been returned. -/

namespace Payman.Registry
open Schemes

-- what the texts are does not matter here
attribute [local irreducible] trim raw_api_key hash_api_key

variable (sha256 : String → List UInt8)

/-- The hash of the key that was made from the UUID `k`. -/
def stored_hash (k : Uuid) : String := hash_api_key sha256 (raw_api_key k)

/-- The `key_prefix` column of that key. -/
def stored_text (k : Uuid) : String := String.ofList ((raw_api_key k).toList.take 16)

/-- What the call returns that drew `k` for the key and `b` for the business. -/
def result (k b : Uuid) : CreateBusinessResult := ⟨b, raw_api_key k, stored_text k⟩

/-- Where a call of `create_business` is: which UUIDs it has drawn, and how far its transaction is. -/
inductive Phase where
  | begun
  | keyed (k : Uuid)
  | drawn (k b : Uuid)
  | opened (k b : Uuid)
  | inserted (k b : Uuid)
  | numbered (k b id : Uuid)
  | stored (k b : Uuid)
  | committed (k b : Uuid)
  | failing
  | finished

/-- The protocol of `create_business`. -/
inductive Phase.Step (name : String) : Phase → (e : Eff) → e.Reply → Phase → Prop
  | key {k : Uuid} : Step name .begun .new_v4 k (.keyed k)
  | business {k b : Uuid} : Step name (.keyed k) .new_v4 b (.drawn k b)
  | begin {k b : Uuid} : Step name (.drawn k b) .begin (.ok ()) (.opened k b)
  | not_begun {k b : Uuid} {err : DbError} : Step name (.drawn k b) .begin (.error err) .finished
  | insert {k b : Uuid} :
      Step name (.opened k b) (.sql (.insert_business b name)) (.ok ()) (.inserted k b)
  | not_inserted {k b : Uuid} {err : DbError} :
      Step name (.opened k b) (.sql (.insert_business b name)) (.error err) .failing
  | number {k b id : Uuid} : Step name (.inserted k b) .new_v4 id (.numbered k b id)
  | store {k b id : Uuid} : Step name (.numbered k b id)
      (.sql (.insert_api_key id b (stored_hash sha256 k) (stored_text k))) (.ok ()) (.stored k b)
  | not_stored {k b id : Uuid} {err : DbError} : Step name (.numbered k b id)
      (.sql (.insert_api_key id b (stored_hash sha256 k) (stored_text k))) (.error err) .failing
  | commit {k b : Uuid} : Step name (.stored k b) .commit (.ok ()) (.committed k b)
  | not_committed {k b : Uuid} {err : DbError} :
      Step name (.stored k b) .commit (.error err) .failing
  | drop : Step name .failing .drop () .finished

/-- In which phase a call returns what. -/
def Phase.Ends : Except AppError Outcome → Phase → Prop
  | .ok (.created res), x => ∃ k b, x = .committed k b ∧ res = result k b
  | .ok (.authenticated _), _ => False
  | .error _, x => x = .begun ∨ x = .finished

variable {sha256}

/-- Leaving the scope of the transaction early drops it. -/
theorem or_drop_follows {name : String} {x : Phase} {body : App Unit} {fin : Phase}
    (h : Follows (Phase.Step sha256 name) (Safe.Either (fun _ y => y = fin) (· = .failing))
      body.run x) :
    Follows (Phase.Step sha256 name) (Safe.Either (fun _ y => y = fin) (· = .finished))
      (or_drop body).run x := by
  refine .bind (fun r y hy => ?_) h
  cases r with
  | ok a => exact hy
  | error e =>
    have hy : y = .failing := hy
    subst hy
    exact fun r => ⟨_, .drop, rfl⟩

/-- The statements of the transaction. -/
def insertions (sha256 : String → List UInt8) (name : String) (k b : Uuid) : App Unit := do
  let _ ← sql (.insert_business b name)
  let id ← new_v4
  let _ ← sql (.insert_api_key id b (stored_hash sha256 k) (stored_text k))

theorem insertions_follow (name : String) (k b : Uuid) :
    Follows (Phase.Step sha256 name) (Safe.Either (fun _ y => y = .stored k b) (· = .failing))
      (insertions sha256 name k b).run (.opened k b) := by
  refine .seqE fun r => ?_
  cases r with
  | error err => exact ⟨_, .not_inserted, rfl⟩
  | ok u =>
    refine ⟨_, .insert, .seqE fun id => ⟨_, .number, .seqE fun r => ?_⟩⟩
    cases r with
    | error err => exact ⟨_, .not_stored, rfl⟩
    | ok u => exact ⟨_, .store, rfl⟩

theorem transaction_follows (name : String) (k b : Uuid) :
    Follows (Phase.Step sha256 name) (Safe.Either (fun _ y => y = .committed k b) (· = .finished))
      (transaction (insertions sha256 name k b)).run (.drawn k b) := by
  refine .seqE fun r => ?_
  cases r with
  | error err => exact ⟨_, .not_begun, rfl⟩
  | ok u =>
    refine ⟨_, .begin, or_drop_follows (.bindE (insertions_follow name k b) ?_)⟩
    rintro a y rfl
    refine .seqE fun r => ?_
    cases r with
    | error err => exact ⟨_, .not_committed, rfl⟩
    | ok u => exact ⟨_, .commit, rfl⟩

/-- CORRECT: signing up follows the protocol. -/
theorem create_business_follows (req : CreateBusinessRequest) :
    Follows (Phase.Step sha256 (trim req.name)) Phase.Ends
      ((Entry.create_business req).program sha256).run .begun := by
  have hhandler : Follows (Phase.Step sha256 (trim req.name))
      (Safe.Either (fun res y => ∃ k b, y = .committed k b ∧ res = result k b)
        fun y => y = .begun ∨ y = .finished)
      (Handlers.create_business sha256 req).run .begun := by
    by_cases hname : trim req.name = ""
    · rw [Handlers.create_business, if_pos hname]
      exact .inl rfl
    · rw [Handlers.create_business, if_neg hname]
      refine .seqE fun k => ⟨_, .key, .seqE fun b => ⟨_, .business, ?_⟩⟩
      have htx : Follows (Phase.Step sha256 (trim req.name))
          (Safe.Either (fun _ y => y = .committed k b) fun y => y = .begun ∨ y = .finished)
          (transaction (insertions sha256 (trim req.name) k b)).run (.drawn k b) := by
        refine (transaction_follows (trim req.name) k b).imp fun r y hy => ?_
        cases r with
        | ok u => exact hy
        | error e => exact .inr hy
      refine .bindE htx ?_
      rintro u y rfl
      exact ⟨k, b, rfl, rfl⟩
  have hprogram : Follows (Phase.Step sha256 (trim req.name))
      (Safe.Either (fun r y => Phase.Ends (.ok r) y) fun y => y = .begun ∨ y = .finished)
      ((Entry.create_business req).program sha256).run .begun := .mapE hhandler
  refine hprogram.imp fun r y hy => ?_
  cases r <;> exact hy

theorem Eff.reply_nonempty (e : Eff) : Nonempty e.Reply := by
  cases e
  case begin | commit | sql => exact ⟨.error .Connection⟩
  case drop => exact ⟨()⟩
  case new_v4 => exact ⟨(0 : ℕ)⟩

/-- Nothing follows the commit but the result. -/
theorem ret_of_committed {name : String} {k b : Uuid}
    {prog : Prog registry (Except AppError Outcome)}
    (h : Follows (Phase.Step sha256 name) Phase.Ends prog (.committed k b)) :
    prog = .ret (.ok (.created (result k b))) := by
  cases prog with
  | op e k' =>
    obtain ⟨r⟩ := e.reply_nonempty
    obtain ⟨x, hstep, -⟩ := h r
    cases hstep
  | ret a =>
    rcases a with e | res | biz
    · rcases h with h | h <;> cases h
    · obtain ⟨k', b', hx, rfl⟩ := h
      cases hx
      rfl
    · cases h

/-! ### What a phase knows of the tables -/

/-- Rows that are there stay as they are. -/
structure Grows (db db' : Db) : Prop where
  businesses : ∀ b r, db.businesses.find b = some r → db'.businesses.find b = some r
  api_keys : ∀ h r, db.api_keys.find h = some r → db'.api_keys.find h = some r

theorem Grows.refl (db : Db) : Grows db db := ⟨fun _ _ h => h, fun _ _ h => h⟩

/-- The row of a key, as it is inserted. -/
def key_row (sha256 : String → List UInt8) (id k b : Uuid) (t : DateTime) : ApiKey :=
  { id, business_id := b, key_hash := stored_hash sha256 k, key_prefix := stored_text k,
    revoked := false, created_at := t }

/-- `create_business` has made business `b` and the key from `k` for it. -/
inductive Signs (sha256 : String → List UInt8) (name : String) (k b : Uuid) (db db' : Db) : Prop
  | intro (t : DateTime) (id : Uuid) (hb : db.businesses.find b = none)
      (hk : db.api_keys.find (stored_hash sha256 k) = none)
      (hdb : db' = ⟨db.businesses.put ⟨b, name, t⟩, db.api_keys.put (key_row sha256 id k b t)⟩)

theorem Signs.grows {name : String} {k b : Uuid} {db db' : Db} (h : Signs sha256 name k b db db') :
    Grows db db' := by
  obtain ⟨t, id, hb, hk, rfl⟩ := h
  constructor
  · intro b' r hr
    refine (Table.find_put_ne _ fun hbb : b = b' => ?_).trans hr
    rw [hbb, hr] at hb
    cases hb
  · intro h' r hr
    refine (Table.find_put_ne _ fun hkk : stored_hash sha256 k = h' => ?_).trans hr
    rw [hkk, hr] at hk
    cases hk

/-- Business `b` is there under its name, and the key made from `k` is its key. -/
structure Registered (sha256 : String → List UInt8) (name : String) (k b : Uuid) (db : Db) :
    Prop where
  api_key : ∃ row, db.api_keys.find (stored_hash sha256 k) = some row ∧ row.business_id = b ∧
    row.revoked = false
  business : ∃ r, db.businesses.find b = some r ∧ r.name = name

theorem Signs.registered {name : String} {k b : Uuid} {db db' : Db}
    (h : Signs sha256 name k b db db') : Registered sha256 name k b db' := by
  obtain ⟨t, id, -, -, rfl⟩ := h
  constructor
  · exact ⟨key_row sha256 id k b t, (Table.find_put ..).trans (if_pos rfl), rfl, rfl⟩
  · exact ⟨⟨b, name, t⟩, (Table.find_put ..).trans (if_pos rfl), rfl⟩

theorem Registered.mono {name : String} {k b : Uuid} {db db' : Db}
    (h : Registered sha256 name k b db) (hg : Grows db db') : Registered sha256 name k b db' := by
  obtain ⟨⟨row, hrow, hprops⟩, ⟨r, hr, hname⟩⟩ := h
  exact ⟨⟨row, hg.api_keys _ _ hrow, hprops⟩, ⟨r, hg.businesses _ _ hr, hname⟩⟩

/-- What a call in a phase has written, and which rows are absent until it commits. -/
def Phase.Holds (sha256 : String → List UInt8) (name : String) (tx : Option (Tx DateTime Write))
    (db : Db) : Phase → Prop
  | .begun | .keyed _ | .drawn .. | .finished => tx = none
  | .opened .. => ∃ t, tx = some ⟨t, []⟩
  | .inserted _ b | .numbered _ b _ =>
    db.businesses.find b = none ∧ ∃ t, tx = some ⟨t, [.put_business ⟨b, name, t⟩]⟩
  | .stored k b => db.businesses.find b = none ∧ db.api_keys.find (stored_hash sha256 k) = none ∧
    ∃ t id, tx = some ⟨t, [.put_business ⟨b, name, t⟩, .put_api_key (key_row sha256 id k b t)]⟩
  | .committed k b => tx = none ∧ Registered sha256 name k b db
  | .failing => True

/-- The steps of others leave it true: what it has inserted is locked. -/
theorem Phase.Holds.frame {name : String} {x : Phase} {p : ℕ} {w w' : World}
    (h : x.Holds sha256 name (w.tx p) w.db) (hf : Sessions.Frame p w.sessions w'.sessions)
    (hg : Grows w.db w'.db) : x.Holds sha256 name (w'.tx p) w'.db := by
  have htx : w'.tx p = w.tx p := hf.tx
  rw [htx]
  cases x with
  | begun | keyed | drawn | finished | opened => exact h
  | failing => trivial
  | inserted k b | numbered k b id =>
    obtain ⟨hb, t, ht⟩ := h
    exact ⟨(hf.locked _ ht _ (by simp) _ (readsOnly_business b)).trans hb, t, ht⟩
  | stored k b =>
    obtain ⟨hb, hk, t, id, ht⟩ := h
    exact ⟨(hf.locked _ ht _ (by simp) _ (readsOnly_business b)).trans hb,
      (hf.locked _ ht _ (by simp [key_row]) _ (readsOnly_api_key (stored_hash sha256 k))).trans hk,
      t, id, ht⟩
  | committed k b => exact ⟨h.1, h.2.mono hg⟩

/-! ### Operations -/

/-- Another process's operation. -/
theorem World.exec_frame {w w' : World} {p q : ℕ} {e : Eff} {c : Choice} {r : e.Reply}
    (h : w.exec p e c = some (w', r)) (hne : q ≠ p) :
    Sessions.Frame q w.sessions w'.sessions := by
  cases e with
  | begin =>
    simp only [World.exec, World.act] at h
    split at h <;> cases h
    · exact .refl ..
    · exact Sessions.frame_start hne
  | commit =>
    simp only [World.exec, World.act] at h
    split at h <;> cases h
    · exact .refl ..
    · exact Sessions.frame_commit hne
  | drop => cases h; exact Sessions.frame_rollback hne
  | new_v4 => cases h; exact .refl ..
  | sql s =>
    simp only [World.exec, World.act] at h
    split at h
    · cases h; exact .refl ..
    · split at h
      · cases h; exact .refl ..
      · obtain ⟨w₁, hrec, hw⟩ := Option.map_eq_some_iff.mp h
        cases hw
        simp only [World.record] at hrec
        split at hrec
        · rename_i hfree
          split at hrec <;> cases hrec
          · rename_i t htx
            exact Sessions.frame_stage htx hfree hne
          · exact Sessions.frame_autocommit hfree hne
        · cases hrec

theorem World.view_of_tx {w : World} {p : ℕ} {t : Tx DateTime Write} (h : w.tx p = some t) :
    w.sessions.view p = applyAll w.db t.writes := by
  have h : w.sessions.txs p = some t := h
  rw [Sessions.view, h]

/-- A statement in an open transaction that succeeds. -/
theorem World.exec_sql {w w' : World} {p : ℕ} {c : Choice} {s : Stmt} {r : s.Result}
    {t : Tx DateTime Write} (h : w.exec p (.sql s) c = some (w', .ok r)) (htx : w.tx p = some t) :
    w'.db = w.db ∧ ∃ ws, s.run t.began c (applyAll w.db t.writes) = .ok (ws, r) ∧
      w'.tx p = some ⟨t.began, t.writes ++ ws⟩ := by
  have hnow : World.sql_now { w with now := w.now + c.elapsed } p = t.began := by
    have htx : w.sessions.txs p = some t := htx
    rw [World.sql_now, World.tx, htx]
  simp only [World.exec, World.act, hnow, World.view_of_tx htx] at h
  split at h
  · cases h
  · split at h
    · cases h
    · rename_i ws r' hrun
      obtain ⟨w₁, hrec, hw⟩ := Option.map_eq_some_iff.mp h
      cases hw
      simp only [World.record] at hrec
      split at hrec
      · split at hrec
        · rename_i t' ht'
          cases hrec
          cases htx.symm.trans ht'
          exact ⟨rfl, ws, hrun, Function.update_self ..⟩
        · rename_i ht'
          cases htx.symm.trans ht'
      · cases hrec

/-- A failed operation changes no row. -/
theorem World.exec_error {w w' : World} {p : ℕ} {c : Choice} {s : Stmt} {err : DbError}
    (h : w.exec p (.sql s) c = some (w', .error err)) : w'.sessions = w.sessions := by
  simp only [World.exec, World.act] at h
  split at h
  · cases h; rfl
  · split at h
    · cases h; rfl
    · obtain ⟨w₁, -, hw⟩ := Option.map_eq_some_iff.mp h
      cases hw

theorem Stmt.run_insert_business {now : DateTime} {c : Choice} {db : Db} {b : Uuid} {name : String}
    {ws : List Write} (h : (Stmt.insert_business b name).run now c db = .ok (ws, ())) :
    db.businesses.find b = none ∧ ws = [.put_business ⟨b, name, now⟩] := by
  simp only [Stmt.run, Payman.Stmt.unused] at h
  split at h
  · cases h
  · rename_i hb
    cases h
    exact ⟨by simpa using hb, rfl⟩

theorem Stmt.run_insert_api_key {now : DateTime} {c : Choice} {db : Db} {id b : Uuid}
    {h' pre : String} {ws : List Write}
    (h : (Stmt.insert_api_key id b h' pre).run now c db = .ok (ws, ())) :
    db.api_keys.find h' = none ∧ ws = [.put_api_key ⟨id, b, h', pre, false, now⟩] := by
  simp only [Stmt.run, Payman.Stmt.unused, Payman.Stmt.references] at h
  split at h
  · cases h
  · split at h
    · cases h
    · rename_i hk
      split at h
      · cases h
        exact ⟨by simpa using hk, rfl⟩
      · cases h

/-- CORRECT (step): one operation of `create_business`. Only its commit changes the tables, and it
    makes the business and its key in one step. -/
theorem Phase.Holds.exec {name : String} {x x' : Phase} {p : ℕ} {w w' : World} {e : Eff}
    {c : Choice} {r : e.Reply} (h : x.Holds sha256 name (w.tx p) w.db)
    (hstep : Phase.Step sha256 name x e r x') (hx : w.exec p e c = some (w', r)) :
    x'.Holds sha256 name (w'.tx p) w'.db ∧
      (w'.db = w.db ∨ ∃ k b, x' = .committed k b ∧ Signs sha256 name k b w.db w'.db) := by
  cases hstep with
  | key | business | number => cases hx; exact ⟨h, .inl rfl⟩
  | drop => cases hx; exact ⟨Function.update_self .., .inl rfl⟩
  | not_begun =>
    simp only [World.exec, World.act] at hx
    split at hx <;> cases hx
    exact ⟨h, .inl rfl⟩
  | begin =>
    simp only [World.exec, World.act] at hx
    split at hx <;> cases hx
    exact ⟨⟨_, Function.update_self ..⟩, .inl rfl⟩
  | not_inserted | not_stored => exact ⟨trivial, .inl (congrArg Sessions.db (World.exec_error hx))⟩
  | not_committed =>
    simp only [World.exec, World.act] at hx
    split at hx <;> cases hx
    exact ⟨trivial, .inl rfl⟩
  | insert =>
    obtain ⟨t, ht⟩ := h
    obtain ⟨hdb, ws, hrun, htx⟩ := World.exec_sql hx ht
    obtain ⟨hb, rfl⟩ := Stmt.run_insert_business hrun
    exact ⟨⟨hdb ▸ hb, t, htx⟩, .inl hdb⟩
  | store =>
    obtain ⟨hb, t, ht⟩ := h
    obtain ⟨hdb, ws, hrun, htx⟩ := World.exec_sql hx ht
    obtain ⟨hk, rfl⟩ := Stmt.run_insert_api_key hrun
    exact ⟨⟨hdb ▸ hb, hdb ▸ hk, t, _, htx⟩, .inl hdb⟩
  | @commit k b =>
    obtain ⟨hb, hk, t, id, ht⟩ := h
    have hview : w.sessions.view p =
        ⟨w.db.businesses.put ⟨b, name, t⟩, w.db.api_keys.put (key_row sha256 id k b t)⟩ :=
      World.view_of_tx ht
    simp only [World.exec, World.act] at hx
    split at hx <;> cases hx
    have hsigns : Signs sha256 name k b w.db (w.sessions.view p) := ⟨t, id, hb, hk, hview⟩
    exact ⟨⟨Function.update_self .., hsigns.registered⟩, .inr ⟨k, b, rfl, hsigns⟩⟩

/-! ### Authentication -/

/-- What `auth_middleware` makes of the answer of its query. -/
def answered : Except DbError (Option Business) → Except AppError Outcome
  | .ok (some b) => .ok (.authenticated b)
  | .ok none => .error .Unauthorized
  | .error e => .error (.Database e)

/-- Authentication is one query, if the header has the form of a key. -/
theorem authenticate_program (header : Option HeaderValue) :
    ((Entry.authenticate header).program sha256).run =
      match extract_api_key header with
      | .error e => .ret (.error e)
      | .ok key => .op (.sql (.select_business (hash_api_key sha256 key))) fun r =>
        .ret (answered r) := by
  show (Outcome.authenticated <$> auth_middleware sha256 header).run = _
  rw [auth_middleware]
  cases extract_api_key header with
  | error e => rfl
  | ok key =>
    refine congrArg (Prog.op _) (funext fun r => ?_)
    rcases r with err | _ | b <;> rfl

/-- The answer to the query of `auth_middleware` on the committed tables. -/
def queried (c : Choice) (db : Db) (key_hash : String) : Except DbError (Option Business) :=
  if c.fail then .error .Connection else .ok (arrange c.order (Stmt.owners db key_hash)).head?

theorem World.exec_select {w : World} {p : ℕ} {c : Choice} {h : String} (htx : w.tx p = none) :
    w.exec p (.sql (.select_business h)) c =
      some ({ w with now := w.now + c.elapsed }, queried c w.db h) := by
  have htx : w.sessions.txs p = none := htx
  have hview : w.sessions.view p = w.db := by rw [Sessions.view, htx]
  have hfree : w.sessions.Free p [] := fun k hk => by cases hk
  have hrec : World.record p [] { w with now := w.now + c.elapsed } =
      some { w with now := w.now + c.elapsed } := by
    rw [World.record, dif_pos hfree]
    split
    · rename_i t ht
      cases htx.symm.trans ht
    · rfl
  simp only [World.exec, World.act, Stmt.run, hview, queried]
  cases c.fail with
  | true => rfl
  | false => exact congrArg (Option.map _) hrec

theorem mem_owners {db : Db} {h : String} {b : Business} (hb : b ∈ Stmt.owners db h) :
    ∃ row ∈ db.api_keys.rows, row.key_hash = h ∧ row.business_id = b.id := by
  obtain ⟨row, hrow, hbiz⟩ := List.mem_flatMap.mp hb
  simp only [List.mem_filter, Bool.and_eq_true, decide_eq_true_eq] at hrow hbiz
  exact ⟨row, hrow.1, hrow.2.1, hbiz.2⟩

/-- A key that is there and not revoked has one owner. -/
theorem owners_eq {db : Db} {h : String} {row : ApiKey} {b : Business}
    (hrow : db.api_keys.find h = some row) (hrev : row.revoked = false)
    (hb : db.businesses.find row.business_id = some b) : Stmt.owners db h = [b] := by
  have hkeys : db.api_keys.rows.filter (fun k => k.key_hash = h && !k.revoked) = [row] := by
    have hkey : db.api_keys.rows.filter (fun k => decide (k.key_hash = h)) = [row] := by
      have hfilter := db.api_keys.filter_key h
      rw [hrow] at hfilter
      exact hfilter
    have hsplit : db.api_keys.rows.filter (fun k => k.key_hash = h && !k.revoked) =
        (db.api_keys.rows.filter fun k => decide (k.key_hash = h)).filter fun k => !k.revoked := by
      rw [List.filter_filter]
      exact List.filter_congr fun k _ => Bool.and_comm ..
    rw [hsplit, hkey]
    simp [hrev]
  have hbiz : db.businesses.rows.filter (fun r => decide (row.business_id = r.id)) = [b] := by
    have hfilter := db.businesses.filter_key row.business_id
    rw [hb] at hfilter
    refine (List.filter_congr fun r _ => ?_).trans hfilter
    exact decide_eq_decide.mpr eq_comm
  rw [Stmt.owners, hkeys, List.flatMap_singleton, hbiz]

/-! ### The server -/

namespace Server
variable {s s' : Server} {n m : ℕ}

theorem outcome_of_ret {entry : Entry} {r : Except AppError Outcome}
    (h : s.procs n = some ⟨entry, some (.ret r)⟩) : s.outcome n = some r := by rw [outcome, h]

@[simp] theorem set_procs_self {pr : Proc} {w : World} : (s.set n pr w).procs n = some pr :=
  Function.update_self ..

theorem set_procs_ne {pr : Proc} {w : World} (h : m ≠ n) : (s.set n pr w).procs m = s.procs m :=
  Function.update_of_ne h ..

/-- A step of a process that has not returned keeps what the others have returned. -/
theorem outcome_set {pr : Proc} {w : World} {r : Except AppError Outcome}
    (hn : s.outcome n = none) (hm : s.outcome m = some r) : (s.set n pr w).outcome m = some r := by
  have hne : m ≠ n := by
    rintro rfl
    cases hn.symm.trans hm
  rw [outcome, set_procs_ne hne]
  exact hm

theorem outcome_of_op {entry : Entry} {e : Eff}
    {k : e.Reply → Prog Registry.registry (Except AppError Outcome)}
    (h : s.procs n = some ⟨entry, some (.op e k)⟩) : s.outcome n = none := by rw [outcome, h]

/-- What a step of the server can be. A step of billing brings a call there only if somebody who has
    been authenticated as its business goes on with it. -/
inductive Moves (sha256 : String → List UInt8) (s : Server) : Label → Server → Prop
  | arrive {n : ℕ} (entry : Entry) (hn : s.procs n = none) : Moves sha256 s (.arrive n entry)
      (s.set n ⟨entry, some (entry.program sha256).run⟩ s.registry)
  | exec {n : ℕ} {c : Choice} {entry : Entry} {e : Eff}
      {k : e.Reply → Prog Registry.registry (Except AppError Outcome)} {w : World} {r : e.Reply}
      (hp : s.procs n = some ⟨entry, some (.op e k)⟩) (hx : s.registry.exec n e c = some (w, r)) :
      Moves sha256 s (.exec n c) (s.set n ⟨entry, some (k r)⟩ w)
  | kill {n : ℕ} {entry : Entry} {e : Eff}
      {k : e.Reply → Prog Registry.registry (Except AppError Outcome)}
      (hp : s.procs n = some ⟨entry, some (.op e k)⟩) : Moves sha256 s (.kill n)
      (s.set n ⟨entry, none⟩ { s.registry with sessions := s.registry.sessions.rollback n })
  | billing {l : Label} {lb : Sys.Label} {billing : Sys}
      (hstep : s.billing.step lb = some billing)
      (hcall : ∀ n q, lb = .arrive n q → l = .handle n q ∧ ∃ biz,
        s.outcome n = some (.ok (.authenticated biz)) ∧ biz.id = q.business)
      (harrive : ∀ n entry, l ≠ .arrive n entry) : Moves sha256 s l { s with billing }

theorem moves {l : Label} (h : s.step sha256 l = some s') : s.Moves sha256 l s' := by
  cases l with
  | arrive n entry =>
    simp only [step, Option.isNone_iff_eq_none] at h
    split at h <;> cases h
    rename_i hn
    exact .arrive entry hn
  | exec n c =>
    simp only [step] at h
    split at h
    · rename_i entry e k hp
      obtain ⟨⟨w, r⟩, hx, rfl⟩ := Option.map_eq_some_iff.mp h
      exact .exec hp hx
    · cases h
  | kill n =>
    simp only [step] at h
    split at h <;> cases h
    rename_i entry e k hp
    exact .kill hp
  | handle n q =>
    simp only [step] at h
    split at h
    · rename_i biz hbiz
      split at h
      · rename_i hb
        obtain ⟨billing, hstep, rfl⟩ := Option.map_eq_some_iff.mp h
        refine .billing hstep (fun n' q' heq => ?_) nofun
        cases heq
        exact ⟨rfl, biz, hbiz, hb⟩
      · cases h
    · cases h
  | billing l =>
    cases l with
    | arrive n q => cases h
    | _ =>
      obtain ⟨billing, hstep, rfl⟩ := Option.map_eq_some_iff.mp h
      exact .billing hstep (fun n q heq => by cases heq) nofun

/-- What a process has returned stays returned. -/
theorem outcome_stays {l : Label} (h : s.step sha256 l = some s') {r : Except AppError Outcome}
    (hm : s.outcome m = some r) : s'.outcome m = some r := by
  cases moves h with
  | arrive entry hn => exact outcome_set (by rw [outcome, hn]) hm
  | exec hp => exact outcome_set (outcome_of_op hp) hm
  | kill hp => exact outcome_set (outcome_of_op hp) hm
  | billing => exact hm

/-- A process was there before, or it has just arrived. -/
theorem entry_before {l : Label} (h : s.step sha256 l = some s') {entry : Entry}
    (hm : s'.entry m = some entry) : s.entry m = some entry ∨ l = .arrive m entry := by
  have hset : ∀ {n : ℕ} {pr : Proc} {w : World}, (s.set n pr w).entry m = some entry →
      s.entry m = some entry ∨ m = n ∧ pr.entry = entry := fun {n pr w} hm => by
    by_cases hmn : m = n
    · subst hmn
      rw [Server.entry, set_procs_self] at hm
      exact .inr ⟨rfl, Option.some.inj hm⟩
    · rw [Server.entry, set_procs_ne hmn] at hm
      exact .inl hm
  -- whoever goes on, or is killed, is the process that has arrived
  have hkept : ∀ {n e prog prog' w}, s.procs n = some ⟨e, prog⟩ →
      (s.set n ⟨e, prog'⟩ w).entry m = some entry → s.entry m = some entry :=
    fun {n e prog prog' w} hp hm => by
      rcases hset hm with hm | ⟨rfl, rfl⟩
      · exact hm
      · rw [Server.entry, hp, Option.map_some]
  cases moves h with
  | arrive e hn => exact (hset hm).imp_right fun ⟨hmn, he⟩ => by rw [hmn, ← he]
  | exec hp => exact .inl (hkept hp hm)
  | kill hp => exact .inl (hkept hp hm)
  | billing => exact .inl hm

end Server

/-- Where an authentication is: before its query, or it has returned, a business only for a key in
    the table. -/
inductive Asks (sha256 : String → List UInt8) (header : Option HeaderValue) (db : Db) :
    Prog registry (Except AppError Outcome) → Prop
  | asking {key : String} (hkey : extract_api_key header = .ok key) :
      Asks sha256 header db (.op (.sql (.select_business (hash_api_key sha256 key))) fun r =>
        .ret (answered r))
  | refused (e : AppError) : Asks sha256 header db (.ret (.error e))
  | accepted {key : String} {b : Business} (hkey : extract_api_key header = .ok key)
      (hrow : ∃ row, db.api_keys.find (hash_api_key sha256 key) = some row ∧
        row.business_id = b.id) : Asks sha256 header db (.ret (.ok (.authenticated b)))

theorem Asks.mono {header : Option HeaderValue} {db db' : Db}
    {prog : Prog registry (Except AppError Outcome)} (h : Asks sha256 header db prog)
    (hg : Grows db db') : Asks sha256 header db' prog := by
  cases h with
  | asking hkey => exact .asking hkey
  | refused e => exact .refused e
  | accepted hkey hrow =>
    obtain ⟨row, hrow, hb⟩ := hrow
    exact .accepted hkey ⟨row, hg.api_keys _ _ hrow, hb⟩

theorem Asks.start (header : Option HeaderValue) (db : Db) :
    Asks sha256 header db ((Entry.authenticate header).program sha256).run := by
  rw [authenticate_program]
  cases hkey : extract_api_key header with
  | error e => exact .refused e
  | ok key => exact .asking hkey

structure Server.Inv (sha256 : String → List UInt8) (s : Server) : Prop where
  idle : ∀ n, s.procs n = none → s.registry.tx n = none
  signs : ∀ n req prog, s.procs n = some ⟨.create_business req, some prog⟩ →
    ∃ x, Follows (Phase.Step sha256 (trim req.name)) Phase.Ends prog x ∧
      x.Holds sha256 (trim req.name) (s.registry.tx n) s.registry.db
  asks : ∀ n header prog, s.procs n = some ⟨.authenticate header, some prog⟩ →
    s.registry.tx n = none ∧ Asks sha256 header s.registry.db prog
  issued : ∀ h row, s.registry.db.api_keys.find h = some row → ∃ n k,
    s.outcome n = some (.ok (.created (result k row.business_id))) ∧ h = stored_hash sha256 k

namespace Server.Inv
variable {s s' : Server} {n : ℕ} {l : Label}

theorem initial : Inv sha256 Server.initial where
  idle := fun _ _ => rfl
  signs := fun _ _ _ h => by cases h
  asks := fun _ _ _ h => by cases h
  issued := fun _ _ h => by cases h

/-- A process that has not returned goes on as `pr`, and the others do not mind. -/
theorem set (h : Inv sha256 s) (hn : s.outcome n = none) {pr : Proc} {w : World}
    (hframe : ∀ m, m ≠ n → Sessions.Frame m s.registry.sessions w.sessions)
    (hg : Grows s.registry.db w.db)
    (hsigns : ∀ req prog, pr = ⟨.create_business req, some prog⟩ →
      ∃ x, Follows (Phase.Step sha256 (trim req.name)) Phase.Ends prog x ∧
        x.Holds sha256 (trim req.name) (w.tx n) w.db)
    (hasks : ∀ header prog, pr = ⟨.authenticate header, some prog⟩ →
      w.tx n = none ∧ Asks sha256 header w.db prog)
    (hissued : ∀ key row, w.db.api_keys.find key = some row →
      s.registry.db.api_keys.find key = some row ∨ ∃ k,
        pr.prog = some (.ret (.ok (.created (result k row.business_id)))) ∧
          key = stored_hash sha256 k) : Inv sha256 (s.set n pr w) where
  idle := fun m hm => by
    by_cases hmn : m = n
    · subst hmn
      rw [set_procs_self] at hm
      cases hm
    · rw [set_procs_ne hmn] at hm
      exact (hframe m hmn).tx.trans (h.idle m hm)
  signs := fun m req prog hm => by
    by_cases hmn : m = n
    · subst hmn
      rw [set_procs_self, Option.some.injEq] at hm
      exact hsigns req prog hm
    · rw [set_procs_ne hmn] at hm
      obtain ⟨x, hx, hholds⟩ := h.signs m req prog hm
      exact ⟨x, hx, hholds.frame (hframe m hmn) hg⟩
  asks := fun m header prog hm => by
    by_cases hmn : m = n
    · subst hmn
      rw [set_procs_self, Option.some.injEq] at hm
      exact hasks header prog hm
    · rw [set_procs_ne hmn] at hm
      obtain ⟨htx, hasks⟩ := h.asks m header prog hm
      exact ⟨(hframe m hmn).tx.trans htx, hasks.mono hg⟩
  issued := fun key row hrow => by
    rcases hissued key row hrow with hold | ⟨k, hprog, hk⟩
    · obtain ⟨m, k, hm, hk⟩ := h.issued key row hold
      exact ⟨m, k, outcome_set hn hm, hk⟩
    · obtain ⟨entry, prog⟩ := pr
      cases hprog
      exact ⟨n, k, outcome_of_ret set_procs_self, hk⟩

/-- CORRECT (step): one operation of a call of `create_business` or of an authentication. -/
theorem exec (h : Inv sha256 s) {c : Choice} {entry : Entry} {e : Eff}
    {k : e.Reply → Prog Registry.registry (Except AppError Outcome)} {w : World} {r : e.Reply}
    (hp : s.procs n = some ⟨entry, some (.op e k)⟩)
    (hx : s.registry.exec n e c = some (w, r)) :
    Inv sha256 (s.set n ⟨entry, some (k r)⟩ w) := by
  have hn := outcome_of_op hp
  have hframe := fun m (hm : m ≠ n) => World.exec_frame hx hm
  cases entry with
  | create_business req =>
    obtain ⟨x, hfollows, hholds⟩ := h.signs n req _ hp
    obtain ⟨x', hstep, hrest⟩ := hfollows r
    obtain ⟨hholds', hdb⟩ := hholds.exec hstep hx
    have hg : Grows s.registry.db w.db := by
      rcases hdb with hdb | ⟨_, _, _, hsigns⟩
      · exact hdb ▸ Grows.refl _
      · exact hsigns.grows
    refine h.set hn hframe hg (fun req' prog hpr => ?_) (fun header prog hpr => ?_) ?_
    · cases hpr
      exact ⟨x', hrest, hholds'⟩
    · cases hpr
    · intro key row hrow
      rcases hdb with hdb | ⟨ku, b, rfl, hsigns⟩
      · exact .inl (hdb ▸ hrow)
      · obtain ⟨t, id, -, -, hdb⟩ := hsigns
        rw [hdb, Table.find_put] at hrow
        split at hrow
        · rename_i hkey
          cases hrow
          exact .inr ⟨ku, congrArg some (ret_of_committed hrest), hkey.symm⟩
        · exact .inl hrow
  | authenticate header =>
    obtain ⟨htx, hasks⟩ := h.asks n header _ hp
    cases hasks with
    | @asking key hkey =>
      rw [World.exec_select htx] at hx
      cases hx
      refine h.set hn hframe (Grows.refl _) (fun req prog hpr => ?_) (fun header' prog hpr => ?_)
        fun _ _ hrow => .inl hrow
      · cases hpr
      · cases hpr
        refine ⟨htx, ?_⟩
        rw [queried]
        split
        · exact .refused _
        · cases hhead : (arrange c.order (Stmt.owners s.registry.db (hash_api_key sha256 key))).head?
            with
          | none => exact .refused _
          | some b =>
            obtain ⟨row, hrow, hkeyrow, hb⟩ := mem_owners (mem_arrange.mp (List.mem_of_mem_head? hhead))
            exact .accepted hkey ⟨row, Table.find_eq_some.mpr ⟨hrow, hkeyrow⟩, hb⟩

theorem start (h : Inv sha256 s) (hn : s.procs n = none) (entry : Entry) :
    Inv sha256 (s.set n ⟨entry, some (entry.program sha256).run⟩ s.registry) := by
  have hout : s.outcome n = none := by rw [outcome, hn]
  refine h.set hout (fun m _ => .refl ..) (.refl _) (fun req prog hpr => ?_)
    (fun header prog hpr => ?_) fun _ _ hrow => .inl hrow
  · cases hpr
    exact ⟨.begun, create_business_follows req, h.idle n hn⟩
  · cases hpr
    exact ⟨h.idle n hn, .start header _⟩

theorem kill (h : Inv sha256 s) {entry : Entry} {e : Eff}
    {k : e.Reply → Prog Registry.registry (Except AppError Outcome)}
    (hp : s.procs n = some ⟨entry, some (.op e k)⟩) :
    Inv sha256 (s.set n ⟨entry, none⟩
      { s.registry with sessions := s.registry.sessions.rollback n }) :=
  h.set (outcome_of_op hp) (fun _ hm => Sessions.frame_rollback hm) (.refl _)
    (fun _ _ hpr => by cases hpr) (fun _ _ hpr => by cases hpr) fun _ _ hrow => .inl hrow

/-- CORRECT (step): every step of the server keeps the invariant. -/
theorem step (h : Inv sha256 s) (hstep : s.step sha256 l = some s') : Inv sha256 s' := by
  cases moves hstep with
  | arrive entry hn => exact h.start hn entry
  | exec hp hx => exact h.exec hp hx
  | kill hp => exact h.kill hp
  | billing => exact ⟨h.idle, h.signs, h.asks, h.issued⟩

end Server.Inv

/-- CORRECT (run): it holds in every state that is reached. -/
theorem Server.Reachable.inv {s : Server} (h : s.Reachable sha256) : s.Inv sha256 := by
  induction h with
  | refl => exact .initial
  | tail _ hstep ih =>
    obtain ⟨l, hl⟩ := hstep
    exact ih.step hl

end Payman.Registry
