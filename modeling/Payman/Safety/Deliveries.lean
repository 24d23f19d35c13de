import Payman.Schemes.Protocol
import Payman.Safety.Runs

/-! The webhook worker at work.

    The worker follows a protocol: it takes a batch of due deliveries, posts one after the other and
    records how each POST ended before the next one. `Turn` says what each step of the system does
    to the worker's phase, to the deliveries and to the POSTs; nobody else touches a delivery that
    is there, so a delivery of the batch is pending until it is posted and recorded. -/

namespace Payman
open Schemes

/-- Where the webhook worker is: before its query, with deliveries to post, or with a POST made for
    `d` that is not recorded yet. -/
inductive Phase where
  | begun
  | batch (todo : List Uuid)
  | posted (d : Uuid) (ok : Bool) (todo : List Uuid)

/-- The status update that follows a POST. -/
def report (d : Uuid) : Bool → Stmt
  | true => .mark_delivered d
  | false => .schedule_redelivery d

/-- The protocol of the webhook worker. -/
inductive Phase.Step : Phase → (e : Eff) → e.Reply → Phase → Prop
  | select {rows : List DueDelivery} :
      Step .begun (.sql .select_due_deliveries) (.ok rows) (.batch (rows.map (·.id)))
  | select_failed {err : DbError} :
      Step .begun (.sql .select_due_deliveries) (.error err) (.batch [])
  | clock {todo : List Uuid} {t : DateTime} : Step (.batch todo) .utc_now t (.batch todo)
  | post {d : Uuid} {todo : List Uuid} {url secret : String} {payload : Json} {t : ℤ}
      {ans : Answer} : Step (.batch (d :: todo)) (.post_webhook d url secret payload t) ans
        (.posted d (delivered ans) todo)
  | record {d : Uuid} {ok : Bool} {todo : List Uuid} {r : Except DbError (report d ok).Result} :
      Step (.posted d ok todo) (.sql (report d ok)) r (.batch todo)

/-- The deliveries of the batch that are not recorded. -/
def Phase.todo : Phase → List Uuid
  | .begun => []
  | .batch todo => todo
  | .posted d _ todo => d :: todo

/-- Nothing is left to post. -/
def Phase.Done (x : Phase) : Prop := x = .batch []

theorem deliver_follows {d : Uuid} {url secret : String} {payload : Json} {todo : List Uuid} :
    Follows Phase.Step (Safe.Either (fun _ x => x = .batch todo) fun x => x = .batch todo)
      (deliver d url secret payload).run (.batch (d :: todo)) := by
  refine .seqE fun t => ⟨_, .clock, .seqE fun ans => ⟨_, .post, ?_⟩⟩
  have hreport : ∀ ok, Follows Phase.Step
      (Safe.Either (fun _ x => x = .batch todo) fun x => x = .batch todo)
      (sql (report d ok)).run (.posted d ok todo) := by
    intro ok r
    refine ⟨_, .record, ?_⟩
    cases r <;> exact rfl
  show Follows Phase.Step _ (ite _ _ _ : App Unit).run (.posted d (delivered ans) todo)
  cases h : delivered ans with
  | true => exact .bindE (hreport true) fun _ _ h => h
  | false => exact .bindE (hreport false) fun _ _ h => h

/-- An error of one delivery is logged, and the next one follows. -/
theorem deliver_all_follows : ∀ rows : List DueDelivery,
    Follows Phase.Step (Safe.Either (fun _ => Phase.Done) Phase.Done) (deliver_all rows).run
      (.batch (rows.map (·.id)))
  | [] => rfl
  | row :: rows => by
    have hlog : Follows Phase.Step
        (Safe.Either (fun _ x => x = .batch (rows.map (·.id))) Phase.Done)
        (log_error (deliver row.id row.url row.secret row.payload)).run
        (.batch (row.id :: rows.map (·.id))) := by
      refine .bind (fun r x hx => ?_) deliver_follows
      cases r <;> exact hx
    refine .bindE hlog fun _ x hx => ?_
    rw [hx]
    exact deliver_all_follows rows

/-- CORRECT: a tick of the webhook worker follows the protocol. -/
theorem process_pending_deliveries_follows :
    Follows Phase.Step (fun _ => Phase.Done) Job.deliveries.program.run .begun := by
  have hmain : Follows Phase.Step (Safe.Either (fun _ => Phase.Done) Phase.Done)
      process_pending_deliveries.run .begun := by
    refine .seqE fun r => ?_
    cases r with
    | ok rows => exact ⟨_, .select, deliver_all_follows rows⟩
    | error err => exact ⟨_, .select_failed, rfl⟩
  have hjob : Follows Phase.Step (Safe.Either (fun _ => Phase.Done) Phase.Done)
      Job.deliveries.program.run .begun := .mapE hmain
  refine hjob.imp fun r x hx => ?_
  cases r <;> exact hx

/-! ### The status update -/

/-- The row after the status update that follows a POST. -/
def WebhookDelivery.reported (now : DateTime) (row : WebhookDelivery) : Bool → WebhookDelivery
  | true =>
    { row with status := .delivered, attempt_count := row.attempt_count + 1, updated_at := now }
  | false =>
    { row with
      attempt_count := row.attempt_count + 1,
      next_retry_at := some (now + Stmt.redelivery_delay row.attempt_count),
      status := if row.attempt_count ≥ 4 then .failed else .pending, updated_at := now }

@[simp] theorem WebhookDelivery.reported_id (now : DateTime) (row : WebhookDelivery) (ok : Bool) :
    (row.reported now ok).id = row.id := by cases ok <;> rfl

@[simp] theorem WebhookDelivery.reported_endpoint (now : DateTime) (row : WebhookDelivery)
    (ok : Bool) : (row.reported now ok).webhook_endpoint_id = row.webhook_endpoint_id := by
  cases ok <;> rfl

@[simp] theorem WebhookDelivery.reported_count (now : DateTime) (row : WebhookDelivery)
    (ok : Bool) : (row.reported now ok).attempt_count = row.attempt_count + 1 := by
  cases ok <;> rfl

/-- Why a status update may not reach the database. -/
def Unrecorded (c : Choice) (db : Db) (d : Uuid) : Prop :=
  c.fail = true ∨ ∀ row, db.delivery d = some row → row.attempt_count = Int32.maxValue

theorem run_report {now : DateTime} {c : Choice} {db : Db} {d : Uuid} {ok : Bool} {ws : List Write}
    {r : (report d ok).Result} (h : (report d ok).run now c db = .ok (ws, r)) :
    (ws = [] ∧ db.delivery d = none) ∨
      ∃ row, db.delivery d = some row ∧ ws = [.put_delivery (row.reported now ok)] := by
  cases ok with
  | true => exact Stmt.run_mark_delivered h
  | false => exact Stmt.run_schedule_redelivery h

/-- Only a full counter makes the update fail. -/
theorem run_report_error {now : DateTime} {c : Choice} {db : Db} {d : Uuid} {ok : Bool}
    {err : DbError} (h : (report d ok).run now c db = .error err) :
    ∀ row, db.delivery d = some row → row.attempt_count = Int32.maxValue := by
  intro row hrow
  by_contra hmax
  have hnext : Stmt.next_i32 row.attempt_count = .ok (row.attempt_count + 1) := if_neg hmax
  have hok : ∃ r, (report d ok).run now c db = .ok ([.put_delivery (row.reported now ok)], r) := by
    cases ok with
    | true => exact ⟨_, Stmt.rows_affected_of hrow rfl (by rw [hnext]; rfl)⟩
    | false => exact ⟨_, Stmt.rows_affected_of hrow rfl (by rw [hnext]; rfl)⟩
  obtain ⟨r, hr⟩ := hok
  cases h.symm.trans hr

/-! ### Phases of the running system -/

/-- What is left of the worker's program follows the protocol from `x`. -/
def Phase.Of (x : Phase) : Option (Prog payman (Except AppError Response)) → Prop
  | none => x.Done
  | some prog => Follows Phase.Step (fun _ => Phase.Done) prog x

/-- The webhook worker is in phase `x`, and never in a transaction. -/
structure Sys.At (σ : Sys) (x : Phase) : Prop where
  phase : x.Of ((σ.procs .webhook_worker).bind (·.prog))
  tx : σ.world.tx .webhook_worker = none

section
variable {K : Setting} {T : Pid} {past : List Commit} {db : Db} {j : Job} {ws : List Write}
  {σ σ' : Sys} {l : Sys.Label} {x : Phase}

/-- Jobs other than the worker's only queue new deliveries. -/
theorem Effect.deliveries (h : Effect K T past db j ws) (hj : j ≠ .deliveries) :
    (applyAll db ws).webhook_deliveries = db.webhook_deliveries ∨
      ∃ row, db.delivery row.id = none ∧ row.status = .pending ∧ row.attempt_count = 0 ∧
        (applyAll db ws).webhook_deliveries = db.webhook_deliveries.put row := by
  cases h with
  | delivery hfresh _ hs hn => exact .inr ⟨_, hfresh, hs, hn, rfl⟩
  | report => exact absurd rfl hj
  | create hfresh hlines =>
    rw [applyAll_cons, Db.applyAll_put_line_items]
    exact .inl rfl
  | @edit_items b i req r r' pre items gone lines t _ _ _ hpre =>
    have hpre' : (pre = [] ∧ r' = r) ∨ pre = [.put_invoice r'] := hpre.imp_right And.left
    rw [applyAll_edit hpre']
    rcases hpre' with ⟨rfl, -⟩ | rfl <;> exact .inl rfl
  | _ => exact .inl rfl

/-- The operation that the worker issues next is one that its phase allows. -/
theorem Sys.At.next (h : σ.At x) {e : Eff} (he : σ.head .webhook_worker = some e) (r : e.Reply) :
    ∃ x', Phase.Step x e r x' := by
  obtain ⟨j, k, hp⟩ := Sys.op_of_head he
  have hx := h.phase
  rw [hp] at hx
  obtain ⟨x', hstep, -⟩ := hx r
  exact ⟨x', hstep⟩

/-- A worker at rest has nothing left to post. -/
theorem Sys.At.rest (h : σ.At x) (he : σ.head .webhook_worker = none) : x.Done := by
  have hx := h.phase
  rcases Sys.rest_of_head he with hp | ⟨a, hp⟩
  · rw [hp] at hx
    exact hx
  · rw [hp] at hx
    exact hx

/-- After a POST the worker's next operation is the status update. -/
theorem Sys.At.head_posted {d : Uuid} {ok : Bool} {todo : List Uuid}
    (h : σ.At (.posted d ok todo)) : σ.head .webhook_worker = some (.sql (report d ok)) := by
  cases he : σ.head .webhook_worker with
  | none => cases h.rest he
  | some e =>
    obtain ⟨r⟩ := e.reply_nonempty
    obtain ⟨x', hstep⟩ := h.next he r
    cases hstep
    rfl

/-- What a step of the system does to the worker's phase, the deliveries and the POSTs. -/
inductive Turn (σ : Sys) (l : Sys.Label) (σ' : Sys) : Phase → Phase → Prop where
  | idle {x : Phase} (hd : σ'.db.webhook_deliveries = σ.db.webhook_deliveries)
      (hp : σ'.world.posts = σ.world.posts) : Turn σ l σ' x x
  | queued {x : Phase} (row : WebhookDelivery) (hfresh : σ.db.delivery row.id = none)
      (hs : row.status = .pending) (hn : row.attempt_count = 0)
      (hd : σ'.db.webhook_deliveries = σ.db.webhook_deliveries.put row)
      (hp : σ'.world.posts = σ.world.posts) : Turn σ l σ' x x
  | begun {x : Phase} (hx : x.Done) (hd : σ'.db.webhook_deliveries = σ.db.webhook_deliveries)
      (hp : σ'.world.posts = σ.world.posts) : Turn σ l σ' x .begun
  | selected {todo : List Uuid} (c : Choice) (hl : l = .exec .webhook_worker c)
      (hhead : σ.head .webhook_worker = some (.sql .select_due_deliveries)) (hnd : todo.Nodup)
      (hdue : ∀ d ∈ todo, ∃ row, σ.db.delivery d = some row ∧ row.status = .pending ∧
        ∃ t ∈ row.next_retry_at, t ≤ σ'.world.now)
      (hd : σ'.db.webhook_deliveries = σ.db.webhook_deliveries)
      (hp : σ'.world.posts = σ.world.posts) : Turn σ l σ' .begun (.batch todo)
  | missed (hd : σ'.db.webhook_deliveries = σ.db.webhook_deliveries)
      (hp : σ'.world.posts = σ.world.posts) : Turn σ l σ' .begun (.batch [])
  | posted {d : Uuid} {todo : List Uuid} (post : Post) (hid : post.delivery_id = d)
      (hd : σ'.db.webhook_deliveries = σ.db.webhook_deliveries)
      (hp : σ'.world.posts = post :: σ.world.posts) :
      Turn σ l σ' (.batch (d :: todo)) (.posted d (delivered post.answer) todo)
  | recorded {d : Uuid} {ok : Bool} {todo : List Uuid} (row : WebhookDelivery) (now : DateTime)
      (hrow : σ.db.delivery d = some row)
      (hd : σ'.db.webhook_deliveries = σ.db.webhook_deliveries.put (row.reported now ok))
      (hp : σ'.world.posts = σ.world.posts) : Turn σ l σ' (.posted d ok todo) (.batch todo)
  | unrecorded {d : Uuid} {ok : Bool} {todo : List Uuid} (c : Choice)
      (hl : l = .exec .webhook_worker c) (hu : Unrecorded c σ.db d)
      (hd : σ'.db.webhook_deliveries = σ.db.webhook_deliveries)
      (hp : σ'.world.posts = σ.world.posts) : Turn σ l σ' (.posted d ok todo) (.batch todo)
  | killed {x : Phase} (hl : l = .kill .webhook_worker)
      (hd : σ'.db.webhook_deliveries = σ.db.webhook_deliveries)
      (hp : σ'.world.posts = σ.world.posts) : Turn σ l σ' x (.batch [])

/-- A step of another process. -/
theorem Sys.At.other (h : σ.At x) {pr : Proc} {w : World} {p : Pid} (hp : .webhook_worker ≠ p)
    (htx : w.tx .webhook_worker = σ.world.tx .webhook_worker) : (σ.set p pr w).At x := by
  refine ⟨?_, htx.trans h.tx⟩
  rw [Sys.set_procs_ne hp]
  exact h.phase

/-- One operation of the worker. -/
theorem Sys.At.exec (h : σ.At x) {c : Choice} {j : Job} {e : Eff}
    {k : e.Reply → Prog payman (Except AppError Response)} {w : World} {r : e.Reply}
    (hp : σ.procs .webhook_worker = some ⟨j, some (.op e k)⟩)
    (hx : σ.world.exec .webhook_worker e c = some (w, r)) :
    ∃ x', (σ.set .webhook_worker ⟨j, some (k r)⟩ w).At x' ∧
      Turn σ (.exec .webhook_worker c) (σ.set .webhook_worker ⟨j, some (k r)⟩ w) x x' := by
  have hfollows := h.phase
  rw [hp] at hfollows
  obtain ⟨x', hstep, hk⟩ := hfollows r
  have hat : w.tx .webhook_worker = none → (σ.set .webhook_worker ⟨j, some (k r)⟩ w).At x' :=
    fun htx => ⟨by rw [Sys.set_procs_self]; exact hk, htx⟩
  have hhead := Sys.head_of_op hp
  -- time may pass, and nothing else changes
  have htx : (σ.world.elapse c.elapsed).tx .webhook_worker = none := h.tx
  refine ⟨x', ?_⟩
  cases hstep with
  | @select rows =>
    obtain ⟨_, hr, -⟩ | ⟨ws, r', hrun, hrec, hr⟩ := World.act_sql_cases hx
    · cases hr
    · cases hr
      rw [World.view_idle htx, World.sql_now_idle htx] at hrun
      obtain ⟨rfl, hnd, hdue⟩ := Stmt.run_select_due_deliveries hrun
      obtain ⟨htx', hdb, hem⟩ := World.record_nil_emits hrec htx
      refine ⟨hat htx', .selected c rfl hhead hnd (fun d hd => ?_)
        (congrArg Db.webhook_deliveries hdb) hem⟩
      obtain ⟨row, hrow, rfl⟩ := List.mem_map.mp hd
      obtain ⟨wd, hwd, hs, t, ht, hle⟩ := hdue row hrow
      refine ⟨wd, hwd, hs, t, ht, ?_⟩
      rw [Sys.set_world, World.record_now hrec]
      exact hle
  | select_failed =>
    obtain ⟨rfl, -⟩ := World.act_sql_error hx
    exact ⟨hat htx, .missed rfl rfl⟩
  | clock => cases hx; exact ⟨hat htx, .idle rfl rfl⟩
  | @post d todo url secret payload t ans =>
    cases hx
    exact ⟨hat htx, .posted ⟨d, url, secret, payload, t, _⟩ rfl rfl rfl⟩
  | @record d ok todo r =>
    cases r with
    | error err =>
      obtain ⟨rfl, herr⟩ := World.act_sql_error hx
      rw [World.view_idle htx] at herr
      exact ⟨hat htx, .unrecorded c rfl (herr.imp_right run_report_error) rfl rfl⟩
    | ok n =>
      obtain ⟨_, hr, -⟩ | ⟨ws, n', hrun, hrec, -⟩ := World.act_sql_cases hx
      · cases hr
      rw [World.view_idle htx] at hrun
      rcases run_report hrun with ⟨rfl, hnone⟩ | ⟨row, hrow, rfl⟩
      · obtain ⟨htx', hdb, hem⟩ := World.record_nil_emits hrec htx
        have hu : Unrecorded c σ.db d := .inr fun row hrow => by cases hnone.symm.trans hrow
        exact ⟨hat htx', .unrecorded c rfl hu (congrArg Db.webhook_deliveries hdb) hem⟩
      · have hem := (World.record_emits hrec).1
        obtain ⟨-, -, ⟨t, ht, -⟩ | ⟨-, -, hws, -⟩ | ⟨-, htx', -, hdb, -⟩⟩ :=
          World.record_cases hrec
        · cases htx.symm.trans ht
        · cases hws
        · exact ⟨hat htx', .recorded row _ hrow (congrArg Db.webhook_deliveries hdb) hem⟩

/-- CORRECT (step): every step of the system is a turn of the worker's protocol. -/
theorem Sys.At.turn (h : σ.At x) (hinv : Inv K σ) (hk : Honours K σ l)
    (hstep : σ.step l = some σ') : ∃ x', σ'.At x' ∧ Turn σ l σ' x x' := by
  cases Sys.moves hstep with
  | start p j hhead hp hfit =>
    by_cases hpw : .webhook_worker = p
    · subst hpw
      have hj : j = .deliveries := hfit.duty rfl
      subst hj
      refine ⟨.begun, ⟨?_, h.tx⟩, .begun (h.rest hhead) rfl rfl⟩
      rw [Sys.start, Sys.set_procs_self]
      exact process_pending_deliveries_follows
    · exact ⟨x, h.other hpw rfl, .idle rfl rfl⟩
  | kill p hl j e k hp =>
    by_cases hpw : .webhook_worker = p
    · subst hpw
      refine ⟨.batch [], ⟨?_, Sessions.txs_close ..⟩, .killed hl rfl rfl⟩
      rw [Sys.set_procs_self]
      exact rfl
    · exact ⟨x, h.other hpw (Sessions.frame_rollback hpw).tx, .idle rfl rfl⟩
  | exec p c hl j e k w r hp hx =>
    subst hl
    by_cases hpw : .webhook_worker = p
    · subst hpw
      exact h.exec hp hx
    · have hj : j ≠ .deliveries := by
        rintro rfl
        have hfit := hinv.fits p _ (Sys.job_of_procs hp)
        cases p <;> first | exact hpw rfl | exact hfit.elim
      obtain ⟨⟨hg, hem⟩, -, -⟩ := hinv.exec_keeps hk hp hx
      have hposts := hem.posts.resolve_right hj
      refine ⟨x, h.other hpw (World.exec_frame hx hpw).tx, ?_⟩
      cases hg with
      | quiet hdb _ _ => exact .idle (congrArg Db.webhook_deliveries hdb) hposts
      | send _ _ hdb _ _ _ => exact .idle (congrArg Db.webhook_deliveries hdb) hposts
      | commit ws hdb _ _ he =>
        have hdel := congrArg Db.webhook_deliveries hdb
        rcases he.deliveries hj with heq | ⟨row, hfresh, hs, hn, heq⟩
        · exact .idle (hdel.trans heq) hposts
        · exact .queued row hfresh hs hn (hdel.trans heq) hposts

/-- While a POST for `d` is to be recorded, the row of `d` changes by the status update only, which
    is made at the current time. -/
theorem Sys.At.report_now {d : Uuid} {ok : Bool} {todo : List Uuid} {row : WebhookDelivery}
    (h : σ.At (.posted d ok todo)) (hinv : Inv .any σ) (hstep : σ.step l = some σ')
    (hrow : σ.db.delivery d = some row) : σ'.db.delivery d = some row ∨
      σ'.db.delivery d = some (row.reported σ'.world.now ok) := by
  cases Sys.moves hstep with
  | start => exact .inl hrow
  | kill => exact .inl hrow
  | exec p c hl j e k w r hp hx =>
    by_cases hpw : p = .webhook_worker
    · subst hpw
      have htx : (σ.world.elapse c.elapsed).tx .webhook_worker = none := h.tx
      obtain rfl := Option.some.inj ((Sys.head_of_op hp).symm.trans h.head_posted)
      obtain ⟨_, -, rfl⟩ | ⟨ws, r', hrun, hrec, -⟩ := World.act_sql_cases hx
      · exact .inl hrow
      · rw [World.view_idle htx, World.sql_now_idle htx] at hrun
        obtain ⟨-, hdb⟩ := World.record_idle hrec htx
        have hfind : ∀ d, (σ.set .webhook_worker ⟨j, some (k r)⟩ w).db.delivery d =
            (applyAll σ.db ws).delivery d := fun d => congrArg (Db.delivery · d) hdb
        rcases run_report hrun with ⟨rfl, -⟩ | ⟨row', hrow', rfl⟩
        · exact .inl ((hfind d).trans hrow)
        · obtain rfl := Option.some.inj (hrow.symm.trans hrow')
          right
          rw [hfind, Sys.set_world, World.record_now hrec]
          refine (Table.find_put ..).trans (if_pos ?_)
          exact (row.reported_id _ ok).trans (Db.id_of_delivery hrow)
    · have hj : j ≠ .deliveries := by
        rintro rfl
        have hfit := hinv.fits p _ (Sys.job_of_procs hp)
        cases p <;> first | exact hpw rfl | exact hfit.elim
      subst hl
      obtain ⟨⟨hg, -⟩, -, -⟩ := hinv.exec_keeps .any hp hx
      left
      cases hg with
      | quiet hdb _ _ => exact (congrArg (Db.delivery · d) hdb).trans hrow
      | send _ _ hdb _ _ _ => exact (congrArg (Db.delivery · d) hdb).trans hrow
      | commit ws hdb _ _ he =>
        have hfind : (σ.set p ⟨j, some (k r)⟩ w).db.delivery d = (applyAll σ.db ws).delivery d :=
          congrArg (Db.delivery · d) hdb
        rw [hfind, Db.delivery]
        rcases he.deliveries hj with heq | ⟨new, hfresh, -, -, heq⟩
        · rw [heq]
          exact hrow
        · rw [heq, Table.find_put_ne]
          · exact hrow
          · rintro rfl
            cases hfresh.symm.trans hrow

theorem Sys.At.initial : Sys.initial.At (.batch []) := ⟨rfl, rfl⟩

/-- CORRECT (run): what every turn preserves holds throughout a run. -/
theorem Sys.At.run {ok : Sys → Sys.Label → Prop} {motive : Sys → Phase → Prop} (h : σ.At x)
    (hinv : Inv .any σ) (hrun : Sys.Run ok σ σ') (base : motive σ x)
    (step : ∀ σ l σ' x x', Inv .any σ → σ.At x → ok σ l → σ.step l = some σ' →
      Turn σ l σ' x x' → motive σ x → motive σ' x') : ∃ x', σ'.At x' ∧ motive σ' x' := by
  refine (hinv.induct (motive := fun σ => ∃ x, σ.At x ∧ motive σ x) (fun _ _ _ => .any) hrun
    ⟨x, h, base⟩ ?_).2
  rintro σ l σ' hinv hl hstep - ⟨x, hx, hm⟩
  obtain ⟨x', hx', hturn⟩ := hx.turn hinv .any hstep
  exact ⟨x', hx', step σ l σ' x x' hinv hx hl hstep hturn hm⟩

end

/-- Business 1 has endpoint 50 and the open invoice 20, and delivery 60 of its event is queued. -/
def Sys.notified : List Sys.Label :=
  [.arrive 9 (.create_endpoint 1 ⟨"https://a.example"⟩)] ++ go (.call 9) 1 ++ fresh (.call 9) 50 ++
  opened ++ [.background 0] ++ go (.task 0) 2 ++ fresh (.task 0) 60

end Payman
