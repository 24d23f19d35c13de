import Payman.Schemes.Protocol
import Payman.Safety.Runs

/-! The reconciliation worker at work.

    A tick takes the attempts whose poll is due and asks the PSP for one after the other. `Poll` says
    where the worker is in its tick; whatever it commits meanwhile concerns the attempt that it has
    just asked for, and nobody else counts polls, so the counts that its query returned stay the
    counts of the attempts that are still to be asked for. -/

namespace Payman
open Schemes

/-- Where the worker is: before its query, with attempts to poll (and how often that was in vain so
    far), after a 404 for the attempt `a`, before and in the transaction that records an outcome of
    `a`, or with the attempts that are too old. -/
inductive Poll where
  | begun
  | polling (todo : List (Uuid × Int32))
  | unanswered (a : Uuid) (n : Int32) (todo : List (Uuid × Int32))
  | answered (a : Uuid) (todo : List (Uuid × Int32))
  | settling (a : Uuid) (todo : List (Uuid × Int32))
  | expiring

/-- The PSP knows nothing of the attempt. -/
def Answer.NotFound (ans : Answer) : Prop := ∃ body, ans = .response 404 body

/-- The statements of the transaction that records an outcome of `a`. -/
inductive Stmt.Settles (a : Uuid) : Stmt → Prop where
  | succeeded {psp_ref : Option String} : Settles a (.mark_succeeded psp_ref a)
  | failed {code : Option String} : Settles a (.mark_failed code a)
  | leave {state : InvoiceState} {i : Uuid} : Settles a (.leave_processing state i)

/-- The operations that expire an attempt. -/
inductive Eff.Expires : Eff → Prop where
  | begin : Expires .begin
  | mark {a : Uuid} : Expires (.sql (.expire_attempt a))
  | reopen {i : Uuid} : Expires (.sql (.reopen_invoice i))
  | commit : Expires .commit
  | drop : Expires .drop

/-- The protocol of the reconciliation worker. -/
inductive Poll.Step : Poll → (e : Eff) → e.Reply → Poll → Prop
  | select {rows : List AttemptRow} : Step .begun (.sql .select_pending) (.ok rows)
      (.polling (rows.map fun row => (row.id, row.retry_count)))
  | select_failed {err : DbError} :
      Step .begun (.sql .select_pending) (.error err) (.polling [])
  | not_found {a : Uuid} {n : Int32} {todo : List (Uuid × Int32)} {ans : Answer}
      (h : ans.NotFound) : Step (.polling ((a, n) :: todo)) (.get_charge a) ans
        (.unanswered a n todo)
  | outcome {a : Uuid} {n : Int32} {todo : List (Uuid × Int32)} {ans : Answer}
      (h : ¬ans.NotFound) : Step (.polling ((a, n) :: todo)) (.get_charge a) ans (.answered a todo)
  | unclear {a : Uuid} {n : Int32} {todo : List (Uuid × Int32)} {ans : Answer}
      (h : ¬ans.NotFound) : Step (.polling ((a, n) :: todo)) (.get_charge a) ans (.polling todo)
  | schedule {a : Uuid} {n : Int32} {todo : List (Uuid × Int32)} {r : Except DbError ℕ} :
      Step (.unanswered a n todo) (.sql (.schedule_retry (backoff_mins n) a)) r (.polling todo)
  | begin {a : Uuid} {todo : List (Uuid × Int32)} :
      Step (.answered a todo) .begin (.ok ()) (.settling a todo)
  | begin_failed {a : Uuid} {todo : List (Uuid × Int32)} {err : DbError} :
      Step (.answered a todo) .begin (.error err) (.polling todo)
  | settle {a : Uuid} {todo : List (Uuid × Int32)} {s : Stmt} {r : Except DbError s.Result}
      (h : s.Settles a) : Step (.settling a todo) (.sql s) r (.settling a todo)
  | commit {a : Uuid} {todo : List (Uuid × Int32)} :
      Step (.settling a todo) .commit (.ok ()) (.polling todo)
  | commit_failed {a : Uuid} {todo : List (Uuid × Int32)} {err : DbError} :
      Step (.settling a todo) .commit (.error err) (.settling a todo)
  | drop {a : Uuid} {todo : List (Uuid × Int32)} : Step (.settling a todo) .drop () (.polling todo)
  | business {i : Uuid} {todo : List (Uuid × Int32)} {r : Except DbError (Option Uuid)} :
      Step (.polling todo) (.sql (.select_business_id i)) r (.polling todo)
  | spawn {task : DispatchTask} {todo : List (Uuid × Int32)} :
      Step (.polling todo) (.spawn_dispatch task) () (.polling todo)
  | select_expired {r : Except DbError (List AttemptRow)} :
      Step (.polling []) (.sql .select_expired) r .expiring
  | expire {e : Eff} {r : e.Reply} (h : e.Expires) : Step .expiring e r .expiring

/-- The attempts that the worker still has to poll. -/
def Poll.todo : Poll → List (Uuid × Int32)
  | .begun | .expiring => []
  | .polling todo | .answered _ todo | .settling _ todo => todo
  | .unanswered a n todo => (a, n) :: todo

/-- The tick may end here. -/
def Poll.Done (x : Poll) : Prop := x.todo = []

/-! ### A tick follows the protocol -/

/-- An error of the body drops the transaction. -/
theorem or_drop_follows {X α : Type} {R : X → (e : Eff) → e.Reply → X → Prop}
    {ok : α → X → Prop} {err : X → Prop} {body : App α} {x : X}
    (h : Follows (S := payman) R (Safe.Either ok fun x => ∃ x', R x .drop () x' ∧ err x') body.run x) :
    Follows (S := payman) R (Safe.Either ok err) (or_drop body).run x := by
  refine .bind (fun r y hy => ?_) h
  cases r with
  | ok a => exact hy
  | error e =>
    obtain ⟨y', hR, herr⟩ := hy
    exact fun _ => ⟨y', hR, herr⟩

section
variable {a i : Uuid} {n : Int32} {todo : List (Uuid × Int32)}

/-- A statement of the outcome transaction. -/
theorem settles_follows {s : Stmt} (hs : s.Settles a) :
    Follows Poll.Step (fun _ x => x = .settling a todo) (sql s).run (.settling a todo) :=
  fun _ => ⟨_, .settle hs, rfl⟩

theorem settle_attempt_follows {record : App ℕ} {state : InvoiceState} {event_type : String}
    (hrecord : Follows Poll.Step (fun _ x => x = .settling a todo) record.run (.settling a todo)) :
    Follows Poll.Step (fun _ x => x = .polling todo)
      (settle_attempt record state event_type i).run (.settling a todo) := by
  have hdrop : ∃ x', Poll.Step (.settling a todo) .drop () x' ∧ x' = .polling todo :=
    ⟨_, .drop, rfl⟩
  have htx : Follows Poll.Step (fun _ x => x = .polling todo) (or_drop (do
      let _ ← record
      let _ ← sql (.leave_processing state i)
      commit_tx) : App Unit).run (.settling a todo) := by
    refine .ends (or_drop_follows (.thenE hrecord hdrop fun _ => ?_))
    refine .thenE (settles_follows .leave) hdrop fun _ r => ?_
    cases r with
    | ok u => exact ⟨_, .commit, rfl⟩
    | error err => exact ⟨_, .commit_failed, hdrop⟩
  refine .ends (.thenE htx rfl fun _ => .seqE (.seqE fun r => ⟨_, .business, ?_⟩))
  cases r with
  | error err => exact rfl
  | ok o =>
    cases o with
    | none => exact rfl
    | some b => exact fun _ => ⟨_, .spawn, rfl⟩

theorem apply_outcome_follows {psp : PspBody} :
    Follows Poll.Step (fun _ x => x = .polling todo) (apply_outcome psp a i).run
      (.answered a todo) := by
  intro r
  cases r with
  | error err => exact ⟨_, .begin_failed, rfl⟩
  | ok u =>
    refine ⟨_, .begin, ?_⟩
    show Follows Poll.Step _ (ite _ _ _ : App Unit).run _
    split
    · exact settle_attempt_follows (settles_follows .succeeded)
    · split
      · exact settle_attempt_follows (settles_follows .failed)
      · exact fun _ => ⟨_, .drop, rfl⟩

theorem reconcile_attempt_follows :
    Follows Poll.Step (fun _ x => x = .polling todo) (reconcile_attempt a i n).run
      (.polling ((a, n) :: todo)) := by
  intro ans
  cases ans with
  | timed_out => exact ⟨_, .unclear (by rintro ⟨_, h⟩; cases h), rfl⟩
  | network_error => exact ⟨_, .unclear (by rintro ⟨_, h⟩; cases h), rfl⟩
  | response status body =>
    by_cases hnf : status = 404
    · subst hnf
      refine ⟨_, .not_found ⟨body, rfl⟩, fun r => ⟨_, .schedule, ?_⟩⟩
      cases r <;> exact rfl
    · have hother : ¬(Answer.response status body).NotFound := by
        rintro ⟨_, h⟩
        cases h
        exact hnf rfl
      by_cases hok : is_success status = true
      · cases body with
        | none =>
          refine ⟨_, .unclear hother, ?_⟩
          show Follows Poll.Step _ (ite _ _ _ : App Unit).run _
          rw [if_neg hnf, if_pos hok]
          exact rfl
        | some psp =>
          refine ⟨_, .outcome hother, ?_⟩
          show Follows Poll.Step _ (ite _ _ _ : App Unit).run _
          rw [if_neg hnf, if_pos hok]
          exact apply_outcome_follows
      · refine ⟨_, .unclear hother, ?_⟩
        show Follows Poll.Step _ (ite _ _ _ : App Unit).run _
        rw [if_neg hnf, if_neg hok]
        exact rfl

end

/-- An error of one attempt is logged, and the next one follows. -/
theorem reconcile_all_follows : ∀ rows : List AttemptRow,
    Follows Poll.Step (fun _ x => x = .polling []) (reconcile_all rows).run
      (.polling (rows.map fun row => (row.id, row.retry_count)))
  | [] => rfl
  | row :: rows => by
    have hlog : Follows Poll.Step
        (Safe.Either (fun _ x => x = .polling (rows.map fun row => (row.id, row.retry_count)))
          fun _ => False)
        (log_error (reconcile_attempt row.id row.invoice_id row.retry_count)).run
        (.polling ((row.id, row.retry_count) :: rows.map fun row => (row.id, row.retry_count))) :=
      .bind (fun _ _ hx => hx) reconcile_attempt_follows
    refine .bind (fun r x hx => ?_) hlog
    cases r with
    | ok u =>
      rw [show x = _ from hx]
      exact reconcile_all_follows rows
    | error err => exact hx.elim

/-- An operation that expires an attempt. -/
theorem expires_follows {α : Type} {e : Eff} (he : e.Expires) {k : e.Reply → Except AppError α} :
    Follows (S := payman) Poll.Step (fun _ x => x = .expiring) (.op e fun r => .ret (k r))
      .expiring := fun _ => ⟨_, .expire he, rfl⟩

theorem expire_follows {a i : Uuid} :
    Follows Poll.Step (fun _ x => x = .expiring) (expire a i).run .expiring := by
  have hdrop : ∃ x', Poll.Step .expiring .drop () x' ∧ x' = .expiring := ⟨_, .expire .drop, rfl⟩
  refine .ends (.thenE (expires_follows .begin) rfl fun _ => or_drop_follows ?_)
  refine .thenE (.ends (.thenE (expires_follows .mark) rfl fun _ =>
    .thenE (expires_follows .reopen) rfl fun _ => rfl)) hdrop fun _ => ?_
  exact .thenE (expires_follows .commit) hdrop fun _ => rfl

theorem expire_all_follows : ∀ rows : List AttemptRow,
    Follows Poll.Step (fun _ x => x = .expiring) (expire_all rows).run .expiring
  | [] => rfl
  | row :: rows => .ends (.thenE expire_follows rfl fun _ => by
      refine (expire_all_follows rows).imp fun r x hx => ?_
      cases r <;> exact hx)

/-- CORRECT: a tick of the reconciliation worker follows the protocol. -/
theorem tick_follows : Follows Poll.Step (fun _ => Poll.Done) Job.tick.program.run .begun := by
  have hmain : Follows Poll.Step (Safe.Either (fun _ => Poll.Done) Poll.Done) tick.run .begun := by
    refine .seqE fun r => ?_
    cases r with
    | error err => exact ⟨_, .select_failed, rfl⟩
    | ok rows =>
      refine ⟨_, .select, .thenE (reconcile_all_follows rows) rfl fun _ => .seqE fun r => ?_⟩
      refine ⟨_, .select_expired, ?_⟩
      cases r with
      | error err => exact rfl
      | ok expired =>
        refine (expire_all_follows expired).imp fun r x hx => ?_
        subst hx
        cases r <;> exact rfl
  have hjob : Follows Poll.Step (Safe.Either (fun _ => Poll.Done) Poll.Done)
      Job.tick.program.run .begun := .mapE hmain
  refine hjob.imp fun r x hx => ?_
  cases r <;> exact hx

/-! ### The worker in the running system -/

/-- What is left of the worker's program follows the protocol from `x`. -/
def Poll.Of (x : Poll) : Option (Prog payman (Except AppError Response)) → Prop
  | none => x.Done
  | some prog => Follows Poll.Step (fun _ => Poll.Done) prog x

/-- The worker's transaction: none while it polls, and one for the attempt that it settles. -/
def Poll.Owns : Poll → Option (Tx DateTime Write) → Prop
  | .settling a _, o => ∃ t, o = some t ∧ ∀ b, LockKey.attempt b ∈ lockSet t.writes → b = a
  | .expiring, _ => True
  | _, o => o = none

/-- The attempts that the worker has in hand or still to poll. -/
def Poll.ids : Poll → List Uuid
  | .begun | .expiring => []
  | .polling todo => todo.map Prod.fst
  | .unanswered a _ todo | .answered a todo | .settling a todo => a :: todo.map Prod.fst

/-- The attempts that are still to be polled are as often counted as the query has found. -/
def Poll.Counted (db : Db) (todo : List (Uuid × Int32)) : Prop :=
  ∀ x ∈ todo, ∃ row, db.attempt x.1 = some row ∧ row.retry_count = x.2

/-- The worker is in phase `x`. -/
structure Sys.Polls (σ : Sys) (x : Poll) : Prop where
  phase : x.Of ((σ.procs .worker).bind (·.prog))
  tx : x.Owns (σ.world.tx .worker)
  nodup : x.ids.Nodup
  counts : Poll.Counted σ.db x.todo

/-- What a step of the system does to the worker's phase. -/
inductive Polled (σ : Sys) (l : Sys.Label) (σ' : Sys) : Poll → Poll → Prop where
  | idle {x : Poll} : Polled σ l σ' x x
  | begun {x : Poll} (hx : x.Done) : Polled σ l σ' x .begun
  | polled {x x' : Poll} {e : Eff} {r : e.Reply} (c : Choice) (hl : l = .exec .worker c)
      (hhead : σ.head .worker = some e) (hx : σ.world.exec .worker e c = some (σ'.world, r))
      (hstep : Poll.Step x e r x') : Polled σ l σ' x x'
  | killed {x : Poll} (hl : l = .kill .worker) : Polled σ l σ' x (.polling [])

section
variable {K : Setting} {T : Pid} {past : List Commit} {db : Db} {j : Job} {ws : List Write}
  {σ σ' : Sys} {l : Sys.Label} {x : Poll}

@[simp] theorem Outcome.record_retry_count (now : DateTime) (row : AttemptRow) (o : Outcome) :
    (o.record now row).retry_count = row.retry_count := by cases o <;> rfl

/-- Jobs other than the worker's do not count polls. -/
theorem Effect.attempts (h : Effect K T past db j ws) (hj : j ≠ .tick) :
    (applyAll db ws).payment_attempts = db.payment_attempts ∨
      ∃ row, (∀ row₀, db.attempt row.id = some row₀ → row.retry_count = row₀.retry_count) ∧
        (applyAll db ws).payment_attempts = db.payment_attempts.put row := by
  cases h with
  | pay_start hr hrow hfresh =>
    subst hrow
    refine .inr ⟨_, fun row₀ hrow₀ => ?_, rfl⟩
    cases hfresh.symm.trans hrow₀
  | pay_record hb hrow =>
    refine .inr ⟨_, fun row₀ hrow₀ => ?_, rfl⟩
    rw [Outcome.record_id, Db.id_of_attempt hrow] at hrow₀
    rw [Outcome.record_retry_count, Option.some.inj (hrow₀.symm.trans hrow)]
  | retry => exact absurd rfl hj
  | settle => exact absurd rfl hj
  | settle_only => exact absurd rfl hj
  | create hfresh hlines =>
    rw [applyAll_cons, Db.applyAll_put_line_items]
    exact .inl rfl
  | @edit_items b i req r r' pre items gone lines t _ _ _ hpre =>
    have hpre' : (pre = [] ∧ r' = r) ∨ pre = [.put_invoice r'] := hpre.imp_right And.left
    rw [applyAll_edit hpre']
    rcases hpre' with ⟨rfl, -⟩ | rfl <;> exact .inl rfl
  | _ => exact .inl rfl

theorem Poll.Counted.nil (db : Db) : Counted db [] := fun _ h => absurd h List.not_mem_nil

theorem Poll.Counted.of_attempts {db' : Db} {todo : List (Uuid × Int32)} (h : Counted db todo)
    (heq : ∀ x ∈ todo, db'.attempt x.1 = db.attempt x.1) : Counted db' todo := by
  intro x hx
  rw [heq x hx]
  exact h x hx

/-- Whoever else commits, the counts stay. -/
theorem Effect.counted (h : Effect K T past db j ws) (hj : j ≠ .tick)
    {todo : List (Uuid × Int32)} (hc : Poll.Counted db todo) :
    Poll.Counted (applyAll db ws) todo := by
  rcases h.attempts hj with heq | ⟨row, hrow, heq⟩
  · exact hc.of_attempts fun x _ => by rw [Db.attempt, heq]
  · intro x hx
    obtain ⟨row₀, hrow₀, hn⟩ := hc x hx
    by_cases hid : row.id = x.1
    · refine ⟨row, ?_, (hrow row₀ (hid ▸ hrow₀)).trans hn⟩
      rw [Db.attempt, heq, Table.find_put, key_attempt, if_pos hid]
    · refine ⟨row₀, ?_, hn⟩
      rw [Db.attempt, heq, Table.find_put_ne _ hid]
      exact hrow₀

/-- The operation that the worker issues next is one that its phase allows. -/
theorem Sys.Polls.next (h : σ.Polls x) {e : Eff} (he : σ.head .worker = some e) (r : e.Reply) :
    ∃ x', Poll.Step x e r x' := by
  obtain ⟨j, k, hp⟩ := Sys.op_of_head he
  have hx := h.phase
  rw [hp] at hx
  obtain ⟨x', hstep, -⟩ := hx r
  exact ⟨x', hstep⟩

/-- A worker at rest has nothing left to poll. -/
theorem Sys.Polls.rest (h : σ.Polls x) (he : σ.head .worker = none) : x.Done := by
  have hx := h.phase
  rcases Sys.rest_of_head he with hp | ⟨a, hp⟩
  · rw [hp] at hx
    exact hx
  · rw [hp] at hx
    exact hx

/-- After a 404 the worker's next operation schedules the next poll. -/
theorem Sys.Polls.head_unanswered {a : Uuid} {n : Int32} {todo : List (Uuid × Int32)}
    (h : σ.Polls (.unanswered a n todo)) :
    σ.head .worker = some (.sql (.schedule_retry (backoff_mins n) a)) := by
  cases he : σ.head .worker with
  | none => cases h.rest he
  | some e =>
    obtain ⟨r⟩ := e.reply_nonempty
    obtain ⟨x', hstep⟩ := h.next he r
    cases hstep
    rfl

/-- It schedules a poll only after a 404. -/
theorem Sys.Polls.unanswered (h : σ.Polls x) {a : Uuid} {m : Int32}
    (he : σ.head .worker = some (.sql (.schedule_retry m a))) :
    ∃ n todo, x = .unanswered a n todo ∧ m = backoff_mins n := by
  obtain ⟨x', hstep⟩ := h.next he (.error .Connection)
  cases hstep with
  | schedule => exact ⟨_, _, rfl, rfl⟩
  | settle hs => cases hs
  | expire he => cases he

/-- It asks for an attempt only when it is the next one to be polled. -/
theorem Sys.Polls.asking (h : σ.Polls x) {a : Uuid} (he : σ.head .worker = some (.get_charge a)) :
    ∃ n todo, x = .polling ((a, n) :: todo) := by
  obtain ⟨x', hstep⟩ := h.next he .timed_out
  cases hstep with
  | not_found | outcome | unclear => exact ⟨_, _, rfl⟩
  | expire he => cases he

/-- A step of another process. -/
theorem Sys.Polls.other (h : σ.Polls x) {pr : Proc} {w : World} {p : Pid} (hp : .worker ≠ p)
    (htx : w.tx .worker = σ.world.tx .worker) (hc : Poll.Counted w.db x.todo) :
    (σ.set p pr w).Polls x := by
  refine ⟨?_, ?_, h.nodup, hc⟩
  · rw [Sys.set_procs_ne hp]
    exact h.phase
  · rw [Sys.set_world, htx]
    exact h.tx

/-- A statement of the outcome transaction locks no other attempt. -/
theorem Stmt.Settles.locks {s : Stmt} {a b : Uuid} {now : DateTime} {c : Choice} {r : s.Result}
    (hs : s.Settles a) (hrun : s.run now c db = .ok (ws, r)) (hb : LockKey.attempt b ∈ lockSet ws) :
    b = a := by
  have hmark : ∀ (o : Outcome) {n : ℕ}, rows_affected <$> update db.payment_attempts a
      (fun _ => true) (fun r => .ok (o.record now r)) .put_attempt = .ok (ws, n) → b = a := by
    intro o n h
    rcases rows_affected_ok h with ⟨-, rfl, -⟩ | ⟨row, row', hf, -, hset, rfl, -⟩
    · simp at hb
    · cases hset
      have hid : row.id = a := Db.id_of_attempt hf
      simpa [hid] using hb
  cases hs with
  | @succeeded psp_ref => exact hmark (.succeeded psp_ref) hrun
  | @failed code => exact hmark (.failed code) hrun
  | leave =>
    rcases Stmt.run_leave_processing hrun with ⟨rfl, -⟩ | ⟨row, -, -, rfl⟩
    · simp at hb
    · simp at hb

/-- What the worker's transaction has not locked stays when it is committed. -/
theorem Poll.Counted.applyAll {todo : List (Uuid × Int32)} (h : Counted db todo)
    (hws : ∀ x ∈ todo, LockKey.attempt x.1 ∉ lockSet ws) : Counted (applyAll db ws) todo :=
  h.of_attempts fun x hx => (Db.readsOnly_attempt x.1).applyAll ws db (hws x hx)

/-- One operation of the worker. -/
theorem Sys.Polls.exec (h : σ.Polls x) {c : Choice} {j : Job} {e : Eff}
    {k : e.Reply → Prog payman (Except AppError Response)} {w : World} {r : e.Reply}
    (hp : σ.procs .worker = some ⟨j, some (.op e k)⟩)
    (hx : σ.world.exec .worker e c = some (w, r)) :
    ∃ x', Poll.Step x e r x' ∧ (σ.set .worker ⟨j, some (k r)⟩ w).Polls x' := by
  have hfollows := h.phase
  rw [hp] at hfollows
  obtain ⟨x', hstep, hk⟩ := hfollows r
  have htx := h.tx
  have hnd := h.nodup
  have hc := h.counts
  suffices hw : x'.Owns (w.tx .worker) ∧ x'.ids.Nodup ∧ Poll.Counted w.db x'.todo by
    refine ⟨x', hstep, ?_, hw.1, hw.2.1, hw.2.2⟩
    rw [Sys.set_procs_self]
    exact hk
  cases hstep with
  | @select rows =>
    obtain ⟨htx', ⟨err, hr, -⟩ | ⟨ws, r', now, hr, hrun, hdb, -⟩⟩ := World.sql_idle hx htx
    · cases hr
    · cases hr
      obtain rfl : ws = [] := by cases hrun; rfl
      obtain ⟨hids, hrows⟩ := Stmt.run_select_pending hrun
      refine ⟨htx', by simpa [Poll.ids, Function.comp_def] using hids, ?_⟩
      rintro y hy
      obtain ⟨row, hrow, rfl⟩ := List.mem_map.mp hy
      exact ⟨row, hdb ▸ (hrows row hrow).1, rfl⟩
  | select_failed =>
    obtain ⟨rfl, -⟩ := World.act_sql_error hx
    exact ⟨htx, List.nodup_nil, .nil _⟩
  | not_found => cases hx; exact ⟨htx, hnd, hc⟩
  | outcome => cases hx; exact ⟨htx, hnd, fun y hy => hc y (List.mem_cons_of_mem _ hy)⟩
  | unclear =>
    cases hx
    exact ⟨htx, (List.nodup_cons.mp hnd).2, fun y hy => hc y (List.mem_cons_of_mem _ hy)⟩
  | @schedule a n todo =>
    have hnd' := List.nodup_cons.mp hnd
    have hc' : Poll.Counted σ.db todo := fun y hy => hc y (List.mem_cons_of_mem _ hy)
    obtain ⟨htx', ⟨err, -, hdb, -⟩ | ⟨ws, r', now, -, hrun, hdb, -⟩⟩ := World.sql_idle hx htx
    · exact ⟨htx', hnd'.2, hdb ▸ hc'⟩
    · refine ⟨htx', hnd'.2, hdb ▸ hc'.applyAll fun y hy hmem => ?_⟩
      have hne : a ≠ y.1 := fun heq => hnd'.1 (heq ▸ List.mem_map_of_mem hy)
      rcases Stmt.run_schedule_retry hrun with rfl | ⟨row, hrow, _, _, rfl⟩
      · simp at hmem
      · have hid : row.id = a := Db.id_of_attempt hrow
        simp only [lockSet_cons, lockSet_nil, Write.rowWrite_locks, Write.locks, hid,
          List.append_nil, List.mem_singleton, LockKey.attempt.injEq] at hmem
        exact hne hmem.symm
  | begin =>
    obtain ⟨⟨t, ht⟩, hdb, -⟩ := World.begin_ok hx
    exact ⟨⟨_, ht, fun b hb => by simp at hb⟩, hnd, hdb ▸ hc⟩
  | begin_failed =>
    obtain ⟨ht, hdb, -⟩ := World.begin_error hx
    exact ⟨ht.trans htx, (List.nodup_cons.mp hnd).2, hdb ▸ hc⟩
  | settle hs =>
    obtain ⟨t, ht, hlocks⟩ := htx
    obtain ⟨hdb, -, ⟨err, -, htx'⟩ | ⟨ws, r', -, hrun, htx'⟩⟩ := World.sql_inside hx ht
    · exact ⟨⟨t, htx', hlocks⟩, hnd, hdb ▸ hc⟩
    · refine ⟨⟨_, htx', fun b hb => ?_⟩, hnd, hdb ▸ hc⟩
      rw [lockSet_append, List.mem_append] at hb
      exact hb.elim (hlocks b) (hs.locks hrun)
  | @commit a todo =>
    obtain ⟨t, ht, hlocks⟩ := htx
    have hnd' := List.nodup_cons.mp hnd
    obtain ⟨t', ht', htx', hdb, -⟩ := World.commit_ok hx
    cases ht.symm.trans ht'
    refine ⟨htx', hnd'.2, hdb ▸ hc.applyAll fun y hy hmem => hnd'.1 ?_⟩
    exact hlocks _ hmem ▸ List.mem_map_of_mem hy
  | commit_failed =>
    obtain ⟨t, ht, hlocks⟩ := htx
    obtain ⟨htx', hdb, -⟩ := World.commit_error hx
    exact ⟨⟨t, htx'.trans ht, hlocks⟩, hnd, hdb ▸ hc⟩
  | drop =>
    obtain ⟨htx', hdb, -⟩ := World.drop_ok hx
    exact ⟨htx', (List.nodup_cons.mp hnd).2, hdb ▸ hc⟩
  | business =>
    obtain ⟨htx', ⟨err, -, hdb, -⟩ | ⟨ws, r', now, -, hrun, hdb, -⟩⟩ := World.sql_idle hx htx
    · exact ⟨htx', hnd, hdb ▸ hc⟩
    · obtain rfl : ws = [] := by cases hrun; rfl
      exact ⟨htx', hnd, hdb ▸ hc⟩
  | spawn => cases hx; exact ⟨htx, hnd, hc⟩
  | select_expired => exact ⟨trivial, List.nodup_nil, .nil _⟩
  | expire => exact ⟨trivial, List.nodup_nil, .nil _⟩

/-- The worker's next step after a 404, if it is not cut off. -/
theorem Sys.Polls.schedules {a : Uuid} {n : Int32} {todo : List (Uuid × Int32)} {c : Choice}
    (h : σ.Polls (.unanswered a n todo)) (hc : c.fail = false) (hmax : n ≠ Int32.maxValue)
    (hstep : σ.step (.exec .worker c) = some σ') : ∃ row row', σ.db.attempt a = some row ∧
      row.retry_count = n ∧ σ'.db.attempt a = some row' ∧ row'.retry_count = n + 1 ∧
      row'.next_retry_at = some (σ'.world.now + (backoff_mins n).toInt * minute) := by
  obtain ⟨row, hrow, rfl⟩ := h.counts (a, n) (List.mem_cons_self ..)
  have htx : (σ.world.elapse c.elapsed).tx .worker = none := h.tx
  obtain ⟨j, k, hp⟩ := Sys.op_of_head h.head_unanswered
  simp only [Sys.step, hp] at hstep
  obtain ⟨⟨w, r⟩, hx, rfl⟩ := Option.map_eq_some_iff.mp hstep
  have hsets : ∀ now m, Stmt.run now c σ.db (.schedule_retry m a) = _ := fun _ _ =>
    Stmt.run_schedule_retry_of hrow hmax
  obtain ⟨_, rfl, rfl⟩ | ⟨ws, r', hrun, hrec, -⟩ := World.act_sql_cases hx
  · obtain ⟨-, hfail | herr⟩ := World.act_sql_error hx
    · cases hc.symm.trans hfail
    · rw [World.view_idle htx] at herr
      cases (hsets _ _).symm.trans herr
  · rw [World.view_idle htx, World.sql_now_idle htx] at hrun
    cases (hsets _ _).symm.trans hrun
    obtain ⟨-, hdb⟩ := World.record_idle hrec htx
    have hfind : ∀ row', row'.id = row.id → (σ.db.payment_attempts.put row').find a = some row' :=
      fun row' hid => (Table.find_put ..).trans (if_pos (hid.trans (Db.id_of_attempt hrow)))
    refine ⟨row, _, hrow, rfl, (congrArg (Db.attempt · a) hdb).trans (hfind _ rfl), rfl, ?_⟩
    rw [Sys.set_world, World.record_now hrec]

/-- CORRECT (step): every step of the system keeps to the worker's protocol. -/
theorem Sys.Polls.step (h : σ.Polls x) (hinv : Inv K σ) (hk : Honours K σ l)
    (hstep : σ.step l = some σ') : ∃ x', σ'.Polls x' ∧ Polled σ l σ' x x' := by
  cases Sys.moves hstep with
  | start p j hhead hp hfit =>
    by_cases hpw : .worker = p
    · subst hpw
      have hj : j = .tick := hfit.duty rfl
      subst hj
      refine ⟨.begun, ⟨?_, hinv.idle _ hhead, List.nodup_nil, .nil _⟩, .begun (h.rest hhead)⟩
      rw [Sys.start, Sys.set_procs_self]
      exact tick_follows
    · exact ⟨x, h.other hpw rfl h.counts, .idle⟩
  | kill p hl j e k hp =>
    by_cases hpw : .worker = p
    · subst hpw
      refine ⟨.polling [], ⟨?_, Sessions.txs_close .., List.nodup_nil, .nil _⟩, .killed hl⟩
      rw [Sys.set_procs_self]
      exact rfl
    · exact ⟨x, h.other hpw (Sessions.frame_rollback hpw).tx h.counts, .idle⟩
  | exec p c hl j e k w r hp hx =>
    subst hl
    by_cases hpw : .worker = p
    · subst hpw
      obtain ⟨x', hstep', hpolls⟩ := h.exec hp hx
      exact ⟨x', hpolls, .polled c rfl (Sys.head_of_op hp) hx hstep'⟩
    · have hj : j ≠ .tick := by
        rintro rfl
        have hfit := hinv.fits p _ (Sys.job_of_procs hp)
        cases p <;> first | exact hpw rfl | exact hfit.elim
      obtain ⟨⟨hg, -⟩, -, -⟩ := hinv.exec_keeps hk hp hx
      refine ⟨x, h.other hpw (World.exec_frame hx hpw).tx ?_, .idle⟩
      cases hg with
      | quiet hdb _ _ => exact hdb ▸ h.counts
      | send _ _ hdb _ _ _ => exact hdb ▸ h.counts
      | commit ws hdb _ _ he => exact hdb ▸ he.counted hj h.counts

theorem Sys.Polls.initial : Sys.initial.Polls (.polling []) := ⟨rfl, rfl, List.nodup_nil, .nil _⟩

end

end Payman
