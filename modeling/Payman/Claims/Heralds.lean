import Payman.Claims.Idempotency
import Payman.Claims.Psp
import Payman.Claims.Versions
import Payman.Safety.Errands
import Payman.Safety.Heralds

/-! One herald in the running system.

    While outcomes are recorded once each, a process that has an event to announce is the one that
    has just settled the attempt: it was pending when the process committed, what is committed is
    what the PSP has said, and the attempt is the last one that the process has recorded. -/

namespace Payman
open Schemes

variable {fate : Uuid → Option Verdict} {db db' : Db} {a : Uuid} {row : AttemptRow}
  {ws : List Write}

/-! ### Settled attempts -/

/-- The writes leave the attempt as it is, or one of them is its row afterwards. -/
theorem Db.attempt_applyAll_cases (a : Uuid) : ∀ (ws : List Write) (db : Db),
    ((applyAll db ws).attempt a = db.attempt a ∧ ∀ row, Write.put_attempt row ∈ ws → row.id ≠ a) ∨
      ∃ row, Write.put_attempt row ∈ ws ∧ row.id = a ∧ (applyAll db ws).attempt a = some row
  | [], _ => .inl ⟨rfl, fun _ h => by cases h⟩
  | w :: ws, db => by
    have hcases := Db.attempt_applyAll_cases a ws (RowWrite.apply db w)
    rcases hcases with ⟨heq, hno⟩ | ⟨row, hrow, hid, h⟩
    · by_cases hw : ∃ row, w = .put_attempt row ∧ row.id = a
      · obtain ⟨row, rfl, hid⟩ := hw
        exact .inr ⟨row, List.mem_cons_self .., hid,
          heq.trans ((Table.find_put ..).trans (if_pos hid))⟩
      · refine .inl ⟨heq.trans ?_, fun row hrow => ?_⟩
        · cases w with
          | put_attempt row => exact Table.find_put_ne _ fun hid => hw ⟨row, rfl, hid⟩
          | _ => rfl
        · rcases List.mem_cons.mp hrow with rfl | hrow
          · exact fun hid => hw ⟨row, rfl, hid⟩
          · exact hno row hrow
    · exact .inr ⟨row, List.mem_cons_of_mem _ hrow, hid, h⟩

/-- Writes of other tables. -/
theorem Db.attempt_of_no_write (h : ∀ row, Write.put_attempt row ∉ ws) (a : Uuid) :
    (applyAll db ws).attempt a = db.attempt a := by
  rcases Db.attempt_applyAll_cases a ws db with ⟨heq, -⟩ | ⟨row, hrow, -⟩
  · exact heq
  · exact absurd hrow (h row)

/-- How an attempt has been settled, if it has. -/
def Db.settled (db : Db) (a : Uuid) : Option PaymentStatus :=
  ((db.attempt a).map (·.status)).filter fun s => decide (s ≠ .Pending)

theorem Db.settled_of_final (hrow : db.attempt a = some row) (hs : row.status ≠ .Pending) :
    db.settled a = some row.status := by
  rw [Db.settled, hrow, Option.map_some, Option.filter_some, if_pos (decide_eq_true hs)]

theorem Db.settled_of_pending (hrow : db.attempt a = some row) (hs : row.status = .Pending) :
    db.settled a = none := by
  rw [Db.settled, hrow, Option.map_some, Option.filter_some, if_neg (by simp [hs])]

theorem Db.settled_of_none (h : db.attempt a = none) : db.settled a = none := by
  rw [Db.settled, h]
  rfl

theorem Db.settled_congr (h : db'.attempt a = db.attempt a) : db'.settled a = db.settled a := by
  rw [Db.settled, h, Db.settled]

/-- A row with the same status, or a new one that is pending. -/
theorem Db.settled_applyAll (hws : ∀ row, Write.put_attempt row ∈ ws →
      (db.attempt row.id).map (·.status) = some row.status ∨
        (row.status = .Pending ∧ db.attempt row.id = none)) (a : Uuid) :
    (applyAll db ws).settled a = db.settled a := by
  rcases Db.attempt_applyAll_cases a ws db with ⟨heq, -⟩ | ⟨row, hrow, rfl, h⟩
  · exact Db.settled_congr heq
  · rcases hws row hrow with hs | ⟨hs, hnone⟩
    · rw [Db.settled, h, Db.settled, hs]
      rfl
    · rw [Db.settled_of_pending h hs, Db.settled_of_none hnone]

/-- A transaction that settles the attempt `a` settles no other. -/
theorem Db.settled_of_all {s : PaymentStatus} (hs : s ≠ .Pending)
    (hsome : ∃ row, Write.put_attempt row ∈ ws)
    (hall : ∀ row, Write.put_attempt row ∈ ws → row.id = a ∧ row.status = s) :
    (applyAll db ws).settled a = some s ∧
      ∀ b, b ≠ a → (applyAll db ws).settled b = db.settled b := by
  refine ⟨?_, fun b hb => ?_⟩
  · rcases Db.attempt_applyAll_cases a ws db with ⟨-, hno⟩ | ⟨row, hrow, -, h⟩
    · obtain ⟨row, hrow⟩ := hsome
      exact absurd (hall row hrow).1 (hno row hrow)
    · obtain ⟨-, rfl⟩ := hall row hrow
      exact Db.settled_of_final h hs
  · rcases Db.attempt_applyAll_cases b ws db with ⟨heq, -⟩ | ⟨row, hrow, hid, -⟩
    · exact Db.settled_congr heq
    · exact absurd (hid.symm.trans (hall row hrow).1) hb

/-! ### Heralds in the running system -/

/-- What is left of a program follows the protocol from `x`. -/
def Herald.Of (pays : Option (Uuid × Uuid)) (x : Herald) :
    Option (Prog payman (Except AppError Response)) → Prop
  | none => x.Done
  | some prog => Follows (Herald.Step pays) (fun _ y => y.Done) prog x

/-- The attempts that a process may ask the PSP for, each with its invoice. -/
def Herald.known : Herald → List (Uuid × Uuid)
  | .quiet k | .busy k | .answered _ k | .ready _ k | .recording _ k | .due _ k
  | .named _ _ k => k

/-- What the PSP has said. -/
def Herald.news : Herald → Option News
  | .quiet _ | .busy _ => none
  | .answered x _ | .ready x _ | .recording x _ | .due x _ | .named x _ _ => some x

/-- What is committed and not announced yet. -/
def Herald.owes : Herald → Option News
  | .due x _ | .named x _ _ => some x
  | _ => none

/-- The business that the worker has looked up. -/
def Herald.business : Herald → Option Uuid
  | .named _ b _ => some b
  | _ => none

/-- A row of a transaction that records no answer of the PSP: it is new, or an attempt expires that
    the PSP has not declined. -/
def AttemptRow.Silent (fate : Uuid → Option Verdict) (db : Db) (row : AttemptRow) : Prop :=
  (row.status = .Pending ∧ db.attempt row.id = none) ∨
    (row.status = .Failed ∧ fate row.id ≠ some .declined)

/-- The transaction of a process in phase `x`. -/
def Herald.Owns (fate : Uuid → Option Verdict) (db : Db) :
    Herald → Option (Tx DateTime Write) → Prop
  | .busy _, o => ∃ t, o = some t ∧ ∀ row, .put_attempt row ∈ t.writes → row.Silent fate db
  | .ready _ _, o => ∃ t, o = some t ∧ ∀ row, .put_attempt row ∉ t.writes
  | .recording x _, o => ∃ t, o = some t ∧ (∃ row, .put_attempt row ∈ t.writes) ∧
    ∀ row, .put_attempt row ∈ t.writes → row.id = x.attempt ∧ row.status = x.verdict.status
  | _, o => o = none

/-- The attempts are there, on these invoices. -/
def Db.Knows (db : Db) (k : List (Uuid × Uuid)) : Prop :=
  ∀ y ∈ k, ∃ row, db.attempt y.1 = some row ∧ row.invoice_id = y.2

theorem Db.Knows.grows {db db' : Db} {k : List (Uuid × Uuid)} (h : db.Knows k)
    (hg : Grows db db') : db'.Knows k := by
  intro y hy
  obtain ⟨row, hrow, hi⟩ := h y hy
  obtain ⟨row', hrow', hi', -⟩ := hg.attempt _ row hrow
  exact ⟨row', hrow', hi'.trans hi⟩

/-- The invoice `i` is the business `b`'s. -/
def Db.Belongs (db : Db) (i b : Uuid) : Prop := ∃ r, db.invoice i = some r ∧ r.business_id = b

theorem Db.Belongs.grows {db db' : Db} {i b : Uuid} (h : db.Belongs i b) (hg : Grows db db') :
    db'.Belongs i b := by
  obtain ⟨r, hr, hb⟩ := h
  obtain ⟨r', hr', hb'⟩ := hg.invoice i r hr
  exact ⟨r', hr', hb'.trans hb⟩

/-- The attempt whose outcome process `p` has committed last, if that was its last commit. -/
def Sys.last (σ : Sys) (p : Pid) : Option Uuid :=
  (σ.world.history.find? fun c => decide (c.pid = p)).bind fun c =>
    (c.attempts.find? fun row => decide (row.status ≠ .Pending)).map (·.id)

/-- Process `p`, which pays for `pays` or is the worker, is in phase `x`. -/
structure Sys.Tells (fate : Uuid → Option Verdict) (σ : Sys) (p : Pid)
    (pays : Option (Uuid × Uuid)) (x : Herald) : Prop where
  phase : x.Of pays ((σ.procs p).bind (·.prog))
  tx : x.Owns fate σ.db (σ.world.tx p)
  known : σ.db.Knows x.known
  news : ∀ n, x.news = some n → (n.attempt, n.invoice) ∈ x.known ∧ fate n.attempt = some n.verdict
  owes : ∀ n, x.owes = some n → σ.last p = some n.attempt ∧
    ∀ b, x.business = some b → σ.db.Belongs n.invoice b

/-! ### The condition -/

/-- The attempts that a step settles: those with a final status in the transaction that it
    commits. -/
def Sys.settling (σ : Sys) : Sys.Label → List AttemptRow
  | .exec p _ =>
    match σ.head p, σ.world.tx p with
    | some .commit, some t =>
      (Commit.attempts ⟨p, σ.db, t.writes⟩).filter fun row => decide (row.status ≠ .Pending)
    | _, _ => []
  | _ => []

/-- The attempt that a step expires. -/
def Sys.expiring (σ : Sys) : Sys.Label → Option Uuid
  | .exec p _ =>
    match σ.head p with
    | some (.sql (.expire_attempt a)) => some a
    | _ => none
  | _ => none

/-- A step of a run in which outcomes are recorded once each: an attempt is pending when a
    transaction that settles it is committed, and no attempt expires that the PSP has declined. -/
structure Sys.Once (fate : Uuid → Option Verdict) (σ : Sys) (l : Sys.Label) : Prop where
  psp : Psp fate (fun _ => False) σ l
  pending : ∀ row ∈ σ.settling l, ∀ row₀ ∈ σ.db.attempt row.id, row₀.status = .Pending
  live : ∀ a ∈ σ.expiring l, fate a ≠ some .declined
  smooth : σ.Smooth l

instance (fate : Uuid → Option Verdict) (σ : Sys) (l : Sys.Label) : Decidable (σ.Once fate l) :=
  decidable_of_iff (Psp fate (fun _ => False) σ l ∧
    (∀ row ∈ σ.settling l, ∀ row₀ ∈ σ.db.attempt row.id, row₀.status = .Pending) ∧
    (∀ a ∈ σ.expiring l, fate a ≠ some .declined) ∧ σ.Smooth l)
    ⟨fun ⟨h₁, h₂, h₃, h₄⟩ => ⟨h₁, h₂, h₃, h₄⟩, fun ⟨h₁, h₂, h₃, h₄⟩ => ⟨h₁, h₂, h₃, h₄⟩⟩

/-! ### What the operations of the protocol do -/

/-- The task that an operation starts. -/
def Eff.task : Eff → Option DispatchTask
  | .spawn_dispatch t => some t
  | _ => none

/-- What a step does to the attempts that are settled and to what its process has to announce. -/
inductive Announces (fate : Uuid → Option Verdict) (pays : Option (Uuid × Uuid)) (db : Db)
    (e : Eff) (db' : Db) : Option News → Option News → Prop
  | kept {o : Option News} (hs : ∀ a, db'.settled a = db.settled a)
      (he : e.task = none) : Announces fate pays db e db' o o
  | expired (hs : ∀ a, db'.settled a = db.settled a ∨ (db.settled a = none ∧
      db'.settled a = some .Failed ∧ fate a ≠ some .declined)) (he : e.task = none) :
      Announces fate pays db e db' none none
  | recorded {n : News} (hn : db.settled n.attempt = none)
      (hs : db'.settled n.attempt = some n.verdict.status)
      (hother : ∀ a, a ≠ n.attempt → db'.settled a = db.settled a)
      (hfate : fate n.attempt = some n.verdict) (he : e.task = none) :
      Announces fate pays db e db' none (some n)
  | announced {n : News} {b : Uuid} (hs : ∀ a, db'.settled a = db.settled a)
      (he : e = .spawn_dispatch ⟨b, n.invoice, n.verdict.event⟩)
      (hb : db.Belongs n.invoice b ∨ pays = some (n.invoice, b)) :
      Announces fate pays db e db' (some n) none

theorem Announces.same {pays : Option (Uuid × Uuid)} {db db' : Db} {e : Eff} {o : Option News}
    (hdb : db' = db) (he : e.task = none) : Announces fate pays db e db' o o :=
  .kept (fun _ => by rw [hdb]) he

/-- Outside a transaction no statement of the protocol settles an attempt. -/
theorem Eff.Outside.settled {s : Stmt} (h : Eff.Outside (.sql s)) {now : DateTime} {c : Choice}
    {db : Db} {ws : List Write} {r : s.Result} (hrun : s.run now c db = .ok (ws, r)) (a : Uuid) :
    (applyAll db ws).settled a = db.settled a := by
  cases h with
  | select_response | select_pending | select_expired =>
    cases hrun
    rfl
  | update_response =>
    refine Db.settled_applyAll (fun row hrow => ?_) a
    rcases Stmt.rows_affected_ok hrun with ⟨-, rfl, -⟩ | ⟨_, _, -, -, -, rfl, -⟩ <;> simp at hrow
  | schedule_retry =>
    refine Db.settled_applyAll (fun row hrow => ?_) a
    rcases Stmt.run_schedule_retry hrun with rfl | ⟨row₀, hrow₀, n, at_, rfl⟩
    · simp at hrow
    · obtain rfl : row = _ := by simpa using hrow
      refine .inl ?_
      rw [show row₀.id = _ from Db.id_of_attempt hrow₀, hrow₀]
      rfl

/-- In a transaction that records no answer of the PSP. -/
theorem Eff.Inside.silent {s : Stmt} (h : Eff.Inside (.sql s)) {now : DateTime} {c : Choice}
    {db : Db} {vs ws : List Write} {r : s.Result}
    (hrun : s.run now c (applyAll db vs) = .ok (ws, r))
    (hlive : ∀ a, s = .expire_attempt a → fate a ≠ some .declined) :
    ∀ row, Write.put_attempt row ∈ ws → row.Silent fate db := by
  intro row hrow
  cases h with
  | claim_open | reopen_invoice =>
    rcases Stmt.rows_affected_ok hrun with ⟨-, rfl, -⟩ | ⟨_, _, -, -, -, rfl, -⟩ <;> simp at hrow
  | insert_key =>
    obtain ⟨-, rfl⟩ := Stmt.run_insert_key hrun
    simp at hrow
  | insert_attempt =>
    obtain ⟨hfresh, rfl, rfl⟩ := Stmt.run_insert_attempt hrun
    obtain rfl : row = _ := by simpa using hrow
    refine .inl ⟨rfl, ?_⟩
    rcases Db.attempt_applyAll_cases _ vs db with ⟨heq, -⟩ | ⟨row', -, -, h⟩
    · exact heq.symm.trans hfresh
    · cases hfresh.symm.trans h
  | @expire_attempt a =>
    rcases Stmt.rows_affected_ok hrun with ⟨-, rfl, -⟩ | ⟨row₀, row', hf, -, hset, rfl, -⟩
    · simp at hrow
    · obtain rfl : row = row' := by simpa using hrow
      cases hset
      refine .inr ⟨rfl, ?_⟩
      rw [show row₀.id = a from Db.id_of_attempt hf]
      exact hlive a rfl

/-- The update writes the verdict into the attempt's row. -/
theorem Stmt.Records.writes {s : Stmt} {a : Uuid} {v : Verdict} (h : s.Records a v)
    {now : DateTime} {c : Choice} {db : Db} {ws : List Write} {r : s.Result}
    (hrun : s.run now c db = .ok (ws, r)) {row₀ : AttemptRow} (hrow₀ : db.attempt a = some row₀) :
    ∃ row, ws = [.put_attempt row] ∧ row.id = a ∧ row.status = v.status := by
  have hid := Db.id_of_attempt hrow₀
  cases h with
  | attempt_succeeded | attempt_failed =>
    obtain ⟨⟨vs, o⟩, hu, heq⟩ := Stmt.map_ok hrun
    cases hu.symm.trans (Stmt.update_of hrow₀ rfl rfl)
    cases heq
    exact ⟨_, rfl, hid, rfl⟩
  | @mark_succeeded psp_ref =>
    exact ⟨_, Stmt.settled_ok (o := .succeeded psp_ref) hrun row₀ hrow₀, hid, rfl⟩
  | @mark_failed code =>
    exact ⟨_, Stmt.settled_ok (o := .failed code) hrun row₀ hrow₀, hid, rfl⟩

/-- The rest of the transaction writes no attempt. -/
theorem Stmt.Follows.writes {s : Stmt} (h : s.Follows) {now : DateTime} {c : Choice} {db : Db}
    {ws : List Write} {r : s.Result} (hrun : s.run now c db = .ok (ws, r)) (row : AttemptRow) :
    Write.put_attempt row ∉ ws := by
  intro hrow
  cases h with
  | settle_invoice | leave_processing | update_response =>
    rcases Stmt.rows_affected_ok hrun with ⟨-, rfl, -⟩ | ⟨_, _, -, -, -, rfl, -⟩ <;> simp at hrow

theorem Verdict.status_ne_pending (v : Verdict) : v.status ≠ .Pending := by cases v <;> decide

variable {σ σ' : Sys} {p : Pid} {pays : Option (Uuid × Uuid)} {x : Herald} {c : Choice}

theorem Eff.Outside.exec {e : Eff} (he : e.Outside) {w w' : World} {r : e.Reply}
    (hx : w.exec p e c = some (w', r)) (htx : w.tx p = none) :
    w'.tx p = none ∧ ∀ a, w'.db.settled a = w.db.settled a := by
  cases e with
  | drop =>
    obtain ⟨htx', hdb, -⟩ := World.drop_ok hx
    exact ⟨htx', fun _ => by rw [hdb]⟩
  | sql s =>
    obtain ⟨htx', ⟨err, -, hdb, -⟩ | ⟨ws, a, now, -, hrun, hdb, -⟩⟩ := World.sql_idle hx htx
    · exact ⟨htx', fun _ => by rw [hdb]⟩
    · exact ⟨htx', fun a => by rw [hdb, he.settled hrun]⟩
  | _ => cases he

/-- Operations of a transaction that records no answer. -/
theorem Eff.Inside.exec {e : Eff} (he : e.Inside) {w w' : World} {r : e.Reply}
    {t : Tx DateTime Write} (hx : w.exec p e c = some (w', r)) (htx : w.tx p = some t)
    (hsil : ∀ row, .put_attempt row ∈ t.writes → row.Silent fate w.db)
    (hlive : ∀ a, e = .sql (.expire_attempt a) → fate a ≠ some .declined) :
    (∃ t, w'.tx p = some t ∧ ∀ row, .put_attempt row ∈ t.writes → row.Silent fate w.db) ∧
      w'.db = w.db := by
  cases e with
  | new_v4 =>
    cases hx
    exact ⟨⟨t, htx, hsil⟩, rfl⟩
  | sql s =>
    obtain ⟨hdb, -, ⟨err, -, ht'⟩ | ⟨ws, r', -, hrun, ht'⟩⟩ := World.sql_inside hx htx
    · exact ⟨⟨t, ht', hsil⟩, hdb⟩
    · refine ⟨⟨_, ht', fun row hrow => ?_⟩, hdb⟩
      rcases List.mem_append.mp hrow with hrow | hrow
      · exact hsil row hrow
      · exact he.silent hrun (fun a ha => hlive a (by rw [ha])) row hrow
  | _ => cases he

/-- What a transaction that records no answer settles is expired. -/
theorem Db.settled_of_silent {db : Db} {ws : List Write}
    (hsil : ∀ row, .put_attempt row ∈ ws → row.Silent fate db)
    (hnew : ∀ row, .put_attempt row ∈ ws → row.status ≠ .Pending → db.settled row.id = none)
    (a : Uuid) : (applyAll db ws).settled a = db.settled a ∨ (db.settled a = none ∧
      (applyAll db ws).settled a = some .Failed ∧ fate a ≠ some .declined) := by
  rcases Db.attempt_applyAll_cases a ws db with ⟨heq, -⟩ | ⟨row, hrow, rfl, h⟩
  · exact .inl (Db.settled_congr heq)
  · rcases hsil row hrow with ⟨hs, hnone⟩ | ⟨hs, hfate⟩
    · exact .inl (by rw [Db.settled_of_pending h hs, Db.settled_of_none hnone])
    · have hne : row.status ≠ .Pending := by rw [hs]; decide
      exact .inr ⟨hnew row hrow hne, hs ▸ Db.settled_of_final h hne, hfate⟩

theorem Eff.Outside.task {e : Eff} (he : e.Outside) : e.task = none := by cases he <;> rfl

theorem Eff.Inside.task {e : Eff} (he : e.Inside) : e.task = none := by cases he <;> rfl

/-- The invoice of an attempt has a business. -/
theorem History.business {job : Pid → Option Job} {past : List Commit}
    (h : History .any job past db) (hrow : db.attempt a = some row) {i : Uuid}
    (hi : row.invoice_id = i) {now : DateTime} {r : Option Uuid}
    (hrun : Stmt.run now c db (.select_business_id i) = .ok (ws, r)) :
    ∃ b, r = some b := by
  subst hi
  obtain ⟨s, hs, -⟩ := h.known _ _ _ (Db.ledger_attempt hrow)
  obtain ⟨r, hr, -⟩ := Option.map_eq_some_iff.mp hs
  cases hrun
  exact ⟨r.business_id, congrArg (Option.map (·.business_id)) hr⟩

/-- What is committed as settled was pending. -/
theorem Sys.Once.unsettled (hl : σ.Once fate (.exec p c)) {t : Tx DateTime Write}
    (hhead : σ.head p = some .commit) (htx : σ.world.tx p = some t) {row : AttemptRow}
    (hrow : .put_attempt row ∈ t.writes) (hs : row.status ≠ .Pending) :
    σ.db.settled row.id = none := by
  have hmem : row ∈ σ.settling (.exec p c) := by
    simp only [Sys.settling, hhead, htx]
    exact List.mem_filter.mpr ⟨Commit.mem_attempts.mpr hrow, decide_eq_true hs⟩
  cases hrow₀ : σ.db.attempt row.id with
  | none => exact Db.settled_of_none hrow₀
  | some row₀ => exact Db.settled_of_pending hrow₀ (hl.pending row hmem row₀ hrow₀)

/-- The last commit of a process recorded the attempt `a`. -/
theorem Sys.last_of_commit {db : Db} {ws : List Write} {past : List Commit} {a : Uuid}
    (hh : σ.world.history = ⟨p, db, ws⟩ :: past) (hsome : ∃ row, .put_attempt row ∈ ws)
    (hall : ∀ row, .put_attempt row ∈ ws → row.id = a ∧ row.status ≠ .Pending) :
    σ.last p = some a := by
  have hfirst : (σ.world.history.find? fun c => decide (c.pid = p)) = some ⟨p, db, ws⟩ := by
    rw [hh, List.find?_cons_of_pos (by simp)]
  rw [Sys.last, hfirst, Option.bind_some]
  obtain ⟨row, hrow⟩ := hsome
  cases hfind : (Commit.attempts ⟨p, db, ws⟩).find? fun row => decide (row.status ≠ .Pending) with
  | none =>
    have hno := List.find?_eq_none.mp hfind row (Commit.mem_attempts.mpr hrow)
    exact absurd (decide_eq_true (hall row hrow).2) hno
  | some row' =>
    rw [Option.map_some, (hall row' (Commit.mem_attempts.mp (List.mem_of_find?_eq_some hfind))).1]

/-- It stays the last one when nothing is committed, or by another process. -/
theorem Sys.last_of_history (hh : σ'.world.history = σ.world.history) : σ'.last p = σ.last p := by
  rw [Sys.last, hh, Sys.last]

theorem Sys.last_of_other {q : Pid} {db : Db} {ws : List Write} (hq : q ≠ p)
    (hh : σ'.world.history = ⟨q, db, ws⟩ :: σ.world.history) : σ'.last p = σ.last p := by
  rw [Sys.last, hh, List.find?_cons_of_neg (by simpa using hq), Sys.last]

/-! ### One operation -/

theorem Herald.news_of_owes {n : News} (h : x.owes = some n) : x.news = some n := by
  cases x <;> first | exact h | cases h

/-- The step of a process in phase `x`. -/
theorem Sys.Tells.exec (h : σ.Tells fate p pays x) (hinv : Inv .any σ) {j : Job} {e : Eff}
    {k : e.Reply → Prog payman (Except AppError Response)} {w : World} {r : e.Reply}
    (hp : σ.procs p = some ⟨j, some (.op e k)⟩) (hx : σ.world.exec p e c = some (w, r))
    (hj : j.pays = pays) (hl : σ.Once fate (.exec p c)) :
    ∃ x', (σ.set p ⟨j, some (k r)⟩ w).Tells fate p pays x' ∧
      Announces fate pays σ.db e w.db x.owes x'.owes := by
  have hfollows := h.phase
  rw [hp] at hfollows
  obtain ⟨x', hstep, hk⟩ := hfollows r
  have hhead := Sys.head_of_op hp
  have hguar := (hinv.exec_keeps .any hp hx).1.1
  have hpsp : Truthful fate (fun _ => False) c.answer (some e) := by
    have hpsp := hl.psp
    rw [Psp, hhead] at hpsp
    exact hpsp
  have htells : x'.Owns fate w.db (w.tx p) → w.db.Knows x'.known →
      (∀ n, x'.news = some n → (n.attempt, n.invoice) ∈ x'.known ∧
        fate n.attempt = some n.verdict) →
      (∀ n, x'.owes = some n → (σ.set p ⟨j, some (k r)⟩ w).last p = some n.attempt ∧
        ∀ b, x'.business = some b → w.db.Belongs n.invoice b) →
      (σ.set p ⟨j, some (k r)⟩ w).Tells fate p pays x' := fun htx hknown hnews howes =>
    ⟨by rw [Sys.set_procs_self]; exact hk, htx, hknown, hnews, howes⟩
  have htold : x'.Owns fate w.db (w.tx p) → w.db.Knows x'.known →
      (∀ n, x'.news = some n → (n.attempt, n.invoice) ∈ x'.known ∧
        fate n.attempt = some n.verdict) →
      x'.owes = none → (σ.set p ⟨j, some (k r)⟩ w).Tells fate p pays x' :=
    fun htx hknown hnews ho => htells htx hknown hnews fun n hn => by cases ho.symm.trans hn
  have hquiet : x'.Owns fate w.db (w.tx p) → w.db.Knows x'.known → x'.news = none →
      (σ.set p ⟨j, some (k r)⟩ w).Tells fate p pays x' := fun htx hknown hn =>
    htells htx hknown (fun n hn' => by cases hn.symm.trans hn')
      fun n ho => by cases hn.symm.trans (Herald.news_of_owes ho)
  have hknown := h.known.grows hguar.grows
  have hnews := h.news
  have htx := h.tx
  refine ⟨x', ?_⟩
  cases hstep with
  | outside he =>
    obtain ⟨htx', hs⟩ := he.exec hx htx
    exact ⟨hquiet htx' hknown rfl, .kept hs he.task⟩
  | @select k rows =>
    obtain ⟨htx', ⟨err, hr, -⟩ | ⟨ws, rows', now, hr, hrun, hdb, -⟩⟩ := World.sql_idle hx htx
    · cases hr
    · cases hr
      have hws : ws = [] := by cases hrun; rfl
      subst hws
      refine ⟨hquiet htx' (fun y hy => ?_) rfl, .same hdb rfl⟩
      obtain ⟨row, hrow, rfl⟩ := List.mem_map.mp hy
      exact ⟨row, hdb ▸ ((Stmt.run_select_pending hrun).2 row hrow).1, rfl⟩
  | @charge k a i b card hi =>
    cases hx
    refine ⟨hquiet htx (fun y hy => ?_) rfl, .same rfl rfl⟩
    obtain rfl := List.mem_singleton.mp hy
    cases hguar with
    | quiet _ _ hc => exact absurd hc (List.cons_ne_self _ _)
    | commit _ _ _ hc _ => exact absurd hc (List.cons_ne_self _ _)
    | send a' card' _ _ hc hs =>
      have hc := (Charge.mk.inj (List.cons.inj hc).1).2
      obtain ⟨t, req, rfl, hrow, -⟩ := hs.committed
      obtain ⟨rfl, -⟩ := Prod.mk.inj (Option.some.inj (hj.trans hi))
      exact hc.1 ▸ hrow
  | posted hmem ho =>
    cases hx
    refine ⟨htold htx hknown (fun n hn => ?_) rfl, .same rfl rfl⟩
    cases hn
    exact ⟨hmem, fate_of_post hpsp.1 (hpsp.2 id) ho⟩
  | unposted => cases hx; exact ⟨hquiet htx hknown rfl, .same rfl rfl⟩
  | polled hmem hok ho =>
    obtain ⟨rfl, hans⟩ := Prod.mk.inj (Option.some.inj hx)
    have hagree : Answer.Agrees (fate _) c.answer := hpsp
    rw [hans] at hagree
    refine ⟨htold htx hknown (fun n hn => ?_) rfl, .same rfl rfl⟩
    cases hn
    exact ⟨hmem, fate_of_get hagree hok ho⟩
  | unpolled => cases hx; exact ⟨hquiet htx hknown rfl, .same rfl rfl⟩
  | open_ =>
    obtain ⟨⟨t, ht⟩, hdb, -⟩ := World.begin_ok hx
    refine ⟨hquiet ⟨_, ht, fun row hrow => ?_⟩ hknown rfl, .same hdb rfl⟩
    cases hrow
  | open_failed =>
    obtain ⟨ht, hdb, -⟩ := World.begin_error hx
    exact ⟨hquiet (ht.trans htx) hknown rfl, .same hdb rfl⟩
  | inside he =>
    obtain ⟨t, ht, hsil⟩ := htx
    obtain ⟨ht', hdb⟩ := he.exec hx ht hsil fun a ha => hl.live a (by
      show σ.expiring (.exec p c) = some a
      simp only [Sys.expiring, hhead, ha])
    exact ⟨hquiet (by rw [hdb]; exact ht') hknown rfl, .same hdb he.task⟩
  | close =>
    obtain ⟨t, ht, hsil⟩ := htx
    obtain ⟨t', ht₁, ht', hdb, -⟩ := World.commit_ok hx
    cases ht.symm.trans ht₁
    refine ⟨hquiet ht' hknown rfl, .expired (fun a => ?_) rfl⟩
    rw [hdb]
    exact Db.settled_of_silent hsil (fun row hrow hs => hl.unsettled hhead ht hrow hs) a
  | close_failed =>
    obtain ⟨t, ht, hsil⟩ := htx
    obtain ⟨ht', hdb, -⟩ := World.commit_error hx
    exact ⟨hquiet ⟨t, ht'.trans ht, hdb ▸ hsil⟩ hknown rfl, .same hdb rfl⟩
  | drop =>
    obtain ⟨ht, hdb, -⟩ := World.drop_ok hx
    exact ⟨hquiet ht hknown rfl, .same hdb rfl⟩
  | begin =>
    obtain ⟨⟨t, ht⟩, hdb, -⟩ := World.begin_ok hx
    refine ⟨htold ⟨_, ht, fun row hrow => ?_⟩ hknown hnews rfl, .same hdb rfl⟩
    cases hrow
  | begin_failed =>
    obtain ⟨ht, hdb, -⟩ := World.begin_error hx
    exact ⟨hquiet (ht.trans htx) hknown rfl, .same hdb rfl⟩
  | @record n k s r hs =>
    obtain ⟨t, ht, hno⟩ := htx
    obtain ⟨hdb, -, ⟨err, hr, -⟩ | ⟨ws, r', hr, hrun, ht'⟩⟩ := World.sql_inside hx ht
    · cases hr
    · obtain ⟨row₀, hrow₀, -⟩ := h.known _ (hnews n rfl).1
      obtain ⟨row, rfl, hid, hst⟩ := hs.writes hrun ((Db.attempt_of_no_write hno _).trans hrow₀)
      refine ⟨htold ⟨_, ht', ⟨row, by simp⟩, fun row' hrow' => ?_⟩ hknown hnews rfl,
        .same hdb rfl⟩
      rcases List.mem_append.mp hrow' with hrow' | hrow'
      · exact absurd hrow' (hno row')
      · obtain rfl : row' = row := by simpa using hrow'
        exact ⟨hid, hst⟩
  | record_failed hs =>
    obtain ⟨t, ht, hno⟩ := htx
    obtain ⟨hdb, -, ⟨err, -, ht'⟩ | ⟨ws, r', hr, -⟩⟩ := World.sql_inside hx ht
    · exact ⟨htold ⟨t, ht', hno⟩ hknown hnews rfl, .same hdb rfl⟩
    · cases hr
  | abandon =>
    obtain ⟨ht, hdb, -⟩ := World.drop_ok hx
    exact ⟨hquiet ht hknown rfl, .same hdb rfl⟩
  | follow hs =>
    obtain ⟨t, ht, ⟨row, hrow⟩, hall⟩ := htx
    obtain ⟨hdb, -, ⟨err, -, ht'⟩ | ⟨ws, r', -, hrun, ht'⟩⟩ := World.sql_inside hx ht
    · exact ⟨htold ⟨t, ht', ⟨row, hrow⟩, hall⟩ hknown hnews rfl, .same hdb rfl⟩
    · refine ⟨htold ⟨_, ht', ⟨row, List.mem_append_left _ hrow⟩, fun row' hrow' => ?_⟩ hknown
        hnews rfl, .same hdb rfl⟩
      rcases List.mem_append.mp hrow' with hrow' | hrow'
      · exact hall row' hrow'
      · exact absurd hrow' (hs.writes hrun row')
  | rollback =>
    obtain ⟨ht, hdb, -⟩ := World.rollback_ok hx
    exact ⟨hquiet ht hknown rfl, .same hdb rfl⟩
  | rollback_failed =>
    obtain ⟨t, ht, hrows⟩ := htx
    obtain ⟨ht', hdb, -⟩ := World.rollback_error hx
    exact ⟨htold ⟨t, ht'.trans ht, hrows⟩ hknown hnews rfl, .same hdb rfl⟩
  | undo =>
    obtain ⟨ht, hdb, -⟩ := World.drop_ok hx
    exact ⟨hquiet ht hknown rfl, .same hdb rfl⟩
  | @commit n k =>
    obtain ⟨t, ht, hsome, hall⟩ := htx
    obtain ⟨t', ht₁, ht', hdb, hh⟩ := World.commit_ok hx
    cases ht.symm.trans ht₁
    have hne := n.verdict.status_ne_pending
    obtain ⟨hs, hother⟩ : (applyAll σ.db t.writes).settled n.attempt = some n.verdict.status ∧
        ∀ a, a ≠ n.attempt → (applyAll σ.db t.writes).settled a = σ.db.settled a :=
      Db.settled_of_all hne hsome hall
    refine ⟨htells ht' hknown hnews (fun m hm => ?_), ?_⟩
    · cases hm
      refine ⟨Sys.last_of_commit hh hsome fun row hrow => ?_, fun b hb => by cases hb⟩
      exact (hall row hrow).imp_right fun hst => by rw [hst]; exact hne
    · obtain ⟨row, hrow⟩ := hsome
      obtain ⟨hid, hst⟩ := hall row hrow
      have hn := hl.unsettled hhead ht hrow (hst ▸ hne)
      exact .recorded (hid ▸ hn) (hdb ▸ hs) (hdb ▸ hother) (hnews n rfl).2 rfl
  | commit_failed =>
    obtain ⟨t, ht, hrows⟩ := htx
    obtain ⟨ht', hdb, -⟩ := World.commit_error hx
    exact ⟨htold ⟨t, ht'.trans ht, hrows⟩ hknown hnews rfl, .same hdb rfl⟩
  | announce hb =>
    cases hx
    exact ⟨hquiet htx hknown rfl, .announced (fun _ => rfl) rfl (.inr hb)⟩
  | @business n k b =>
    obtain ⟨ht', ⟨err, hr, -⟩ | ⟨ws, r', now, hr, hrun, hdb, hh, -⟩⟩ := World.sql_idle hx htx
    · cases hr
    · have hb : σ.db.Belongs n.invoice b := by
        cases hr
        exact Option.map_eq_some_iff.mp (Prod.mk.inj (Except.ok.inj hrun)).2
      have hws : ws = [] := by cases hrun; rfl
      subst hws
      refine ⟨htells ht' hknown hnews (fun m hm => ?_), .same hdb rfl⟩
      cases hm
      refine ⟨(Sys.last_of_history (hh rfl)).trans (h.owes n rfl).1, fun b' hb' => ?_⟩
      cases hb'
      exact hb.grows hguar.grows
  | @business_failed n k r hr =>
    exfalso
    obtain ⟨-, ⟨err, rfl, -⟩ | ⟨ws, r', now, rfl, hrun, -⟩⟩ := World.sql_idle hx htx
    · cases hl.smooth _ hhead _ hx
    · obtain ⟨row₀, hrow₀, hi⟩ := h.known _ (hnews n rfl).1
      obtain ⟨b, rfl⟩ := hinv.history.business hrow₀ hi hrun
      exact hr b rfl
  | announce_named =>
    cases hx
    refine ⟨hquiet htx hknown rfl, .announced (fun _ => rfl) rfl (.inl ?_)⟩
    exact (h.owes _ rfl).2 _ rfl

end Payman
