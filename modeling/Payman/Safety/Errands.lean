import Payman.Schemes.Protocol
import Payman.Safety.Runs

/-! A dispatch at work.

    A spawned dispatch asks for the active endpoints of its business and queues a delivery for one
    after the other. `Errand` says where it is in this. An endpoint that is active all the while is
    among those that the query returns, and gets one delivery. -/

namespace Payman
open Schemes

/-- Where a dispatch is: before its query, with endpoints that it has to queue a delivery for, or
    given up on an error. -/
inductive Errand where
  | asking
  | queueing (todo : List Uuid)
  | lost

/-- The protocol of a dispatch. -/
inductive Errand.Step (t : DispatchTask) : Errand → (e : Eff) → e.Reply → Errand → Prop
  | ask {rows : List WebhookEndpoint} :
      Step t .asking (.sql (.select_active_endpoints t.business_id)) (.ok rows)
        (.queueing (rows.map (·.id)))
  | ask_failed {err : DbError} :
      Step t .asking (.sql (.select_active_endpoints t.business_id)) (.error err) .lost
  | clock {todo : List Uuid} {now : DateTime} :
      Step t (.queueing todo) .utc_now now (.queueing todo)
  | queue {e : Uuid} {todo : List Uuid} {now : DateTime} {n : ℕ} :
      Step t (.queueing (e :: todo)) (.sql (.insert_delivery e t.event_type
        (payload t.event_type t.invoice_id t.business_id now))) (.ok n) (.queueing todo)
  | queue_failed {e : Uuid} {todo : List Uuid} {now : DateTime} {err : DbError} :
      Step t (.queueing (e :: todo)) (.sql (.insert_delivery e t.event_type
        (payload t.event_type t.invoice_id t.business_id now))) (.error err) .lost

/-- Nothing is left to queue. -/
def Errand.Done (x : Errand) : Prop := x = .queueing [] ∨ x = .lost

section
variable {t : DispatchTask}

theorem insert_deliveries_follows {now : DateTime} : ∀ endpoints : List WebhookEndpoint,
    Follows (Errand.Step t) (Safe.Either (fun _ => Errand.Done) Errand.Done)
      (insert_deliveries t.event_type (payload t.event_type t.invoice_id t.business_id now)
        endpoints).run (.queueing (endpoints.map (·.id)))
  | [] => .inl rfl
  | endpoint :: endpoints => .seqE fun r => by
    cases r with
    | error err => exact ⟨_, .queue_failed, .inr rfl⟩
    | ok n => exact ⟨_, .queue, insert_deliveries_follows endpoints⟩

/-- CORRECT: a dispatch follows the protocol. -/
theorem dispatch_follows : Follows (Errand.Step t) (fun _ => Errand.Done)
    (Job.dispatch t).program.run .asking := by
  have hmain : Follows (Errand.Step t) (Safe.Either (fun _ => Errand.Done) Errand.Done)
      (dispatch t.business_id t.invoice_id t.event_type).run .asking := by
    refine .seqE fun r => ?_
    cases r with
    | error err => exact ⟨_, .ask_failed, .inr rfl⟩
    | ok rows =>
      refine ⟨_, .ask, ?_⟩
      cases rows with
      | nil => exact .inl rfl
      | cons endpoint endpoints =>
        exact .seqE fun now => ⟨_, .clock, insert_deliveries_follows _⟩
  have hjob : Follows (Errand.Step t) (Safe.Either (fun _ => Errand.Done) Errand.Done)
      (Job.dispatch t).program.run .asking := .mapE hmain
  refine hjob.imp fun r x hx => ?_
  cases r <;> exact hx

end

/-- The deliveries that a commit writes. -/
def Commit.deliveries (c : Commit) : List WebhookDelivery := c.writes.filterMap fun
  | .put_delivery row => some row
  | _ => none

/-- The deliveries that the task `n` has queued for the endpoint `e`, the latest first. -/
def Sys.queued (σ : Sys) (n : ℕ) (e : Uuid) : List WebhookDelivery :=
  (σ.world.history.filter fun c => decide (c.pid = .task n)).flatMap fun c =>
    c.deliveries.filter fun row => decide (row.webhook_endpoint_id = e)

/-- The delivery tells of the dispatch `t`. -/
def WebhookDelivery.Tells (t : DispatchTask) (row : WebhookDelivery) : Prop :=
  row.event_type = t.event_type ∧
    ∃ now, row.payload = Payman.payload t.event_type t.invoice_id t.business_id now

/-- The endpoint `e` gets one delivery when the dispatch comes to it. -/
def Errand.Counts (t : DispatchTask) (e : Uuid) (rows : List WebhookDelivery) : Errand → Prop
  | .asking => rows = []
  | .queueing todo => todo.Nodup ∧ ((e ∈ todo ∧ rows = []) ∨
      (e ∉ todo ∧ ∃ row, rows = [row] ∧ row.Tells t))
  | .lost => False

def Errand.Of (t : DispatchTask) (x : Errand) :
    Option (Prog payman (Except AppError Response)) → Prop
  | none => x.Done
  | some prog => Follows (Errand.Step t) (fun _ => Errand.Done) prog x

/-- The task `n`, which runs the dispatch `t`, is in phase `x` of it. -/
structure Sys.Queues (σ : Sys) (n : ℕ) (t : DispatchTask) (e : Uuid) (x : Errand) : Prop where
  phase : x.Of t ((σ.procs (.task n)).bind (·.prog))
  tx : σ.world.tx (.task n) = none
  counts : x.Counts t e (σ.queued n e)

/-- The endpoint `e` of the business `b` is active. -/
def Sys.Active (σ : Sys) (b e : Uuid) : Prop :=
  ∃ r, σ.db.endpoint e = some r ∧ r.business_id = b ∧ r.active = true

instance (σ : Sys) (b e : Uuid) : Decidable (σ.Active b e) :=
  decidable_of_iff (∃ r ∈ σ.db.endpoint e, r.business_id = b ∧ r.active = true)
    ⟨fun ⟨r, hr, h⟩ => ⟨r, hr, h⟩, fun ⟨r, hr, h⟩ => ⟨r, hr, h⟩⟩

/-- An announcement meets a database error: at the lookup of the business, or when its deliveries
    are queued. -/
def Eff.fails : (e : Eff) → e.Reply → Bool
  | .sql (.select_business_id _), .error _ => true
  | .sql (.select_active_endpoints _), .error _ => true
  | .sql (.insert_delivery ..), .error _ => true
  | _, _ => false

/-- Nothing crashes, and no announcement meets a database error. -/
def Sys.Smooth (σ : Sys) : Sys.Label → Prop
  | .exec p c => ∀ e ∈ σ.head p, ∀ x ∈ σ.world.exec p e c, e.fails x.2 = false
  | .kill _ => False
  | _ => True

instance (σ : Sys) : ∀ l, Decidable (σ.Smooth l)
  | .exec p c => inferInstanceAs
    (Decidable (∀ e ∈ σ.head p, ∀ x ∈ σ.world.exec p e c, e.fails x.2 = false))
  | .kill _ => isFalse id
  | .arrive .. | .background _ | .tick | .webhook_tick => isTrue trivial

variable {σ σ' : Sys} {n : ℕ} {t : DispatchTask} {b e : Uuid} {x : Errand} {l : Sys.Label}
  {K : Setting}

theorem Sys.queued_of_history (hh : σ'.world.history = σ.world.history) :
    σ'.queued n e = σ.queued n e := by rw [queued, hh, queued]

theorem Sys.queued_of_other {q : Pid} {db : Db} {ws : List Write} (hq : q ≠ .task n)
    (hh : σ'.world.history = ⟨q, db, ws⟩ :: σ.world.history) : σ'.queued n e = σ.queued n e := by
  rw [queued, hh, List.filter_cons_of_neg (by simpa using hq), queued]

theorem Sys.queued_of_put {db : Db} {row : WebhookDelivery}
    (hh : σ'.world.history = ⟨.task n, db, [.put_delivery row]⟩ :: σ.world.history) :
    σ'.queued n e = if row.webhook_endpoint_id = e then row :: σ.queued n e else σ.queued n e := by
  rw [queued, hh, List.filter_cons_of_pos (by simp), List.flatMap_cons, queued]
  by_cases he : row.webhook_endpoint_id = e <;> simp [Commit.deliveries, he]

/-- The step of a dispatch. -/
theorem Sys.Queues.exec (h : σ.Queues n t e x) {c : Choice} {eff : Eff}
    {k : eff.Reply → Prog payman (Except AppError Response)} {w : World} {r : eff.Reply}
    (hp : σ.procs (.task n) = some ⟨.dispatch t, some (.op eff k)⟩)
    (hx : σ.world.exec (.task n) eff c = some (w, r)) (hl : σ.Smooth (.exec (.task n) c))
    (ha : σ.Active t.business_id e) :
    ∃ x', (σ.set (.task n) ⟨.dispatch t, some (k r)⟩ w).Queues n t e x' := by
  have hfollows := h.phase
  rw [hp] at hfollows
  obtain ⟨x', hstep, hk⟩ := hfollows r
  have hfails := hl _ (Sys.head_of_op hp) _ hx
  have hqueues : w.tx (.task n) = none →
      x'.Counts t e ((σ.set (.task n) ⟨.dispatch t, some (k r)⟩ w).queued n e) →
      ∃ x', (σ.set (.task n) ⟨.dispatch t, some (k r)⟩ w).Queues n t e x' := fun htx hcounts =>
    ⟨x', by rw [Sys.set_procs_self]; exact hk, htx, hcounts⟩
  have hcounts := h.counts
  cases hstep with
  | ask_failed => cases hfails
  | queue_failed => cases hfails
  | clock =>
    cases hx
    exact hqueues h.tx hcounts
  | ask =>
    obtain ⟨htx', ⟨err, hr, -⟩ | ⟨ws, rows, now, hr, hrun, hdb, hh, -⟩⟩ := World.sql_idle hx h.tx
    · cases hr
    · cases hr
      obtain ⟨rfl, hnd, hall⟩ := Stmt.run_select_active_endpoints hrun
      refine hqueues htx' ⟨hnd, .inl ⟨?_, ?_⟩⟩
      · obtain ⟨r, hr, hb, hact⟩ := ha
        exact hall e r hr hb hact
      · exact (Sys.queued_of_history (hh rfl)).trans hcounts
  | @queue d todo at_ m =>
    obtain ⟨htx', ⟨err, hr, -⟩ | ⟨ws, m', now, hr, hrun, hdb, -, hh⟩⟩ := World.sql_idle hx h.tx
    · cases hr
    · obtain ⟨row, -, -, hd, -, -, hevent, hpayload, rfl⟩ := Stmt.run_insert_delivery hrun
      have hq : (σ.set (.task n) ⟨.dispatch t, some (k (.ok m))⟩ w).queued n e = _ :=
        Sys.queued_of_put (hh nofun)
      obtain ⟨hnd, hcount⟩ := hcounts
      rw [List.nodup_cons] at hnd
      refine hqueues htx' ⟨hnd.2, ?_⟩
      rw [hq]
      by_cases hde : d = e
      · subst hde
        rw [if_pos hd]
        rcases hcount with ⟨-, hnil⟩ | ⟨hno, -⟩
        · exact .inr ⟨hnd.1, row, by rw [hnil], hevent, at_, hpayload⟩
        · exact absurd (List.mem_cons_self ..) hno
      · rw [if_neg (hd ▸ hde)]
        rcases hcount with ⟨hmem, hnil⟩ | ⟨hno, hone⟩
        · exact .inl ⟨(List.mem_cons.mp hmem).resolve_left (Ne.symm hde), hnil⟩
        · exact .inr ⟨fun hmem => hno (List.mem_cons_of_mem _ hmem), hone⟩

/-- A step of others. -/
theorem Sys.Queues.other (h : σ.Queues n t e x) (hprocs : σ'.procs (.task n) = σ.procs (.task n))
    (htx : σ'.world.tx (.task n) = σ.world.tx (.task n))
    (hqueued : σ'.queued n e = σ.queued n e) : σ'.Queues n t e x where
  phase := by
    rw [hprocs]
    exact h.phase
  tx := htx.trans h.tx
  counts := by
    rw [hqueued]
    exact h.counts

/-- If the task `n` notifies the business `b`, its endpoint `e` gets a delivery once. -/
def Sys.Notifies (σ : Sys) (n : ℕ) (b e : Uuid) : Prop :=
  ∀ t, σ.job (.task n) = some (.dispatch t) → t.business_id = b → ∃ x, σ.Queues n t e x

/-- A task that has not started has queued nothing. -/
theorem Inv.queued_nil (h : Inv K σ) (hp : σ.procs (.task n) = none) : σ.queued n e = [] := by
  have hnone : (σ.world.history.filter fun c => decide (c.pid = .task n)) = [] :=
    List.filter_eq_nil_iff.mpr fun c hc hpid =>
      (h.fresh hp).history c hc (of_decide_eq_true hpid)
  rw [Sys.queued, hnone, List.flatMap_nil]

theorem Guar.queued_other {p : Pid} {j : Job} (hp : p ≠ .task n)
    (h : Guar K p j σ.world σ'.world) : σ'.queued n e = σ.queued n e := by
  cases h with
  | quiet _ hh _ => exact Sys.queued_of_history hh
  | send _ _ _ hh _ _ => exact Sys.queued_of_history hh
  | commit ws _ hh _ _ => exact Sys.queued_of_other hp hh

/-- The step lemma. -/
theorem Sys.Notifies.step (h : σ.Notifies n b e) (hinv : Inv .any σ) (hl : σ.Smooth l)
    (ha : σ.Active b e) (hstep : σ.step l = some σ') : σ'.Notifies n b e := by
  intro t ht hb
  cases Sys.moves hstep with
  | kill p hl' j e k hp =>
    subst hl'
    exact hl.elim
  | start p j hhead hp hfit hj =>
    by_cases hpn : .task n = p
    · subst hpn
      rw [Sys.start, Sys.job_of_procs Sys.set_procs_self] at ht
      obtain rfl : j = .dispatch t := Option.some.inj ht
      rcases hp with ⟨-, hp⟩ | hp
      · refine ⟨.asking, ?_, hinv.idle _ hhead, ?_⟩
        · rw [Sys.start, Sys.set_procs_self]
          exact dispatch_follows
        · exact hinv.queued_nil hp
      · cases hp
    · rw [Sys.start, Sys.job, Sys.set_procs_ne hpn] at ht
      obtain ⟨x, hx⟩ := h t ht hb
      exact ⟨x, hx.other (Sys.set_procs_ne hpn) rfl rfl⟩
  | exec p c hl' j eff k w r hp hx =>
    subst hl'
    rw [Sys.set_job (Sys.job_of_procs hp)] at ht
    obtain ⟨x, hq⟩ := h t ht hb
    by_cases hpn : .task n = p
    · subst hpn
      obtain rfl : j = .dispatch t := Option.some.inj ((Sys.job_of_procs hp).symm.trans ht)
      exact hq.exec hp hx hl (hb ▸ ha)
    · refine ⟨x, hq.other (Sys.set_procs_ne hpn) (World.exec_frame hx hpn).tx ?_⟩
      exact (hinv.exec_keeps .any hp hx).1.1.queued_other (Ne.symm hpn)

/-- A dispatch that has come to its end has queued one delivery for the endpoint. -/
theorem Sys.Queues.rest (h : σ.Queues n t e x) (hhead : σ.head (.task n) = none) :
    ∃ row, σ.queued n e = [row] ∧ row.Tells t := by
  have hdone : x.Done := by
    have hphase := h.phase
    rcases Sys.rest_of_head hhead with hp | ⟨a, hp⟩
    · rw [hp] at hphase
      exact hphase
    · rw [hp] at hphase
      exact hphase
  have hcounts := h.counts
  rcases hdone with rfl | rfl
  · obtain ⟨-, ⟨hmem, -⟩ | ⟨-, hone⟩⟩ := hcounts
    · cases hmem
    · exact hone
  · exact hcounts.elim

end Payman
