import Payman.Claims.Accounts
import Payman.Safety.Announcers
import Payman.Safety.Couriers

/-! Where a webhook comes from.

    Every POST carries the payload of a delivery, every delivery tells of a dispatch, and every
    dispatch of something that was committed before. `Told` says this of all three at once; it holds
    in every run, with crashes, double outcomes and endpoints deleted on the way. -/

namespace Payman
open Schemes

/-- What the event says of the invoice `i` has been committed, and the business `b` may be told: it
    owns the invoice, or its call has started the attempt that got the outcome. -/
inductive Sys.Happened (σ : Sys) (i b : Uuid) : String → Prop where
  | finalized {c : Commit} (hc : c ∈ σ.world.history) (h : c.Finalizes i b)
      (hb : σ.db.Belongs i b) : Happened σ i b "invoice.finalized"
  | settled {c : Commit} {a : Uuid} {v : Verdict} (hc : c ∈ σ.world.history)
      (h : c.Settles a i v) (hb : σ.Bills a i b) : Happened σ i b v.event

/-- What has been spawned, queued and posted goes back to something committed. -/
structure Sys.Told (σ : Sys) : Prop where
  tasks : ∀ t ∈ σ.world.spawned, σ.Happened t.invoice_id t.business_id t.event_type
  deliveries : ∀ d row, σ.db.delivery d = some row → ∃ t ∈ σ.world.spawned, row.Tells t ∧
    σ.db.Listens t.business_id row.webhook_endpoint_id
  posts : ∀ post ∈ σ.world.posts,
    σ.db.Addresses post.delivery_id post.payload post.url post.secret

theorem Sys.Told.initial : Sys.initial.Told where
  tasks := nofun
  deliveries := nofun
  posts := nofun

variable {σ σ' : Sys} {l : Sys.Label} {p : Pid} {c : Choice} {w w' : World} {e : Eff}

theorem Sys.Happened.mono {i b : Uuid} {event : String} (h : σ.Happened i b event)
    (hhistory : ∀ c ∈ σ.world.history, c ∈ σ'.world.history)
    (hb : σ.db.Belongs i b → σ'.db.Belongs i b) (hbills : ∀ a, σ.Bills a i b → σ'.Bills a i b) :
    σ'.Happened i b event := by
  cases h with
  | finalized hc hf hown => exact .finalized (hhistory _ hc) hf (hb hown)
  | settled hc hs hmay => exact .settled (hhistory _ hc) hs (hbills _ hmay)

theorem Sys.Happened.step {i b : Uuid} {event : String} (h : σ.Happened i b event)
    (hinv : Inv .any σ) (hstep : σ.step l = some σ') : σ'.Happened i b event := by
  have hhappens := hinv.happens .any hstep
  exact h.mono hhappens.history (fun hb => hb.grows hhappens.grows)
    fun _ hb => hb.step hinv .any hstep

/-! ### What an operation spawns, queues and posts -/

theorem World.spawned_of_exec {r : e.Reply} (h : w.exec p e c = some (w', r)) :
    w'.spawned = w.spawned ∨
      ∃ t, e = .spawn_dispatch t ∧ w'.spawned = t :: w.spawned ∧ w'.history = w.history := by
  cases e
  case sql s =>
    obtain ⟨_, -, rfl⟩ | ⟨_, _, -, hrec, -⟩ := act_sql_cases h
    · exact .inl rfl
    · exact .inl (record_emits hrec).2
  all_goals simp only [exec, act] at h
  case begin | rollback => split at h <;> cases h <;> exact .inl rfl
  case commit =>
    split at h
    · cases h; exact .inl rfl
    · split at h <;> cases h <;> exact .inl rfl
  case spawn_dispatch t => cases h; exact .inr ⟨t, rfl, rfl, rfl⟩
  all_goals cases h; exact .inl rfl

theorem World.posts_of_exec {r : e.Reply} (h : w.exec p e c = some (w', r)) :
    w'.posts = w.posts ∨ ∃ d url secret payload t ans, e = .post_webhook d url secret payload t ∧
      w'.posts = ⟨d, url, secret, payload, t, ans⟩ :: w.posts := by
  cases e
  case sql s =>
    obtain ⟨_, -, rfl⟩ | ⟨_, _, -, hrec, -⟩ := act_sql_cases h
    · exact .inl rfl
    · exact .inl (record_emits hrec).1
  all_goals simp only [exec, act] at h
  case begin | rollback => split at h <;> cases h <;> exact .inl rfl
  case commit =>
    split at h
    · cases h; exact .inl rfl
    · split at h <;> cases h <;> exact .inl rfl
  case post_webhook => cases h; exact .inr ⟨_, _, _, _, _, _, rfl, rfl⟩
  all_goals cases h; exact .inl rfl

/-- Only a dispatch queues new deliveries; what the others write keeps the text of the old one. -/
theorem Effect.letters {K : Setting} {T : Pid} {past : List Commit} {db : Db} {j : Job}
    {ws : List Write} (h : Effect K T past db j ws) (hj : ∀ t, j ≠ .dispatch t) :
    (applyAll db ws).webhook_deliveries = db.webhook_deliveries ∨
      ∃ row s n at_ t, db.delivery row.id = some row ∧
        (applyAll db ws).webhook_deliveries = db.webhook_deliveries.put
          { row with status := s, attempt_count := n, next_retry_at := at_, updated_at := t } := by
  cases h with
  | delivery => exact absurd rfl (hj _)
  | report hrow =>
    refine .inr ⟨_, _, _, _, _, ?_, rfl⟩
    rw [Db.id_of_delivery hrow]
    exact hrow
  | create =>
    rw [applyAll_cons, Db.applyAll_put_line_items]
    exact .inl rfl
  | edit_items _ _ _ hpre =>
    rw [applyAll_edit (hpre.imp_right And.left)]
    rcases hpre with ⟨rfl, -⟩ | ⟨rfl, -⟩ <;> exact .inl rfl
  | _ => exact .inl rfl

/-! ### One step -/

/-- Every process is watched for what it announces, queues or posts. -/
structure Sys.Attended (σ : Sys) : Prop where
  heralds : σ.Watched Herald.watches
  openings : σ.Watched Opening.watches
  errands : σ.Watched Errand.watches
  couriers : σ.Watched Courier.watches

theorem Sys.Reachable.attended (h : σ.Reachable) : σ.Attended where
  heralds := h.watched fun _ _ => Herald.upholds
  openings := h.watched fun _ _ => Opening.upholds
  errands := h.watched fun _ _ => Errand.upholds
  couriers := h.watched fun _ _ => Courier.upholds

section
variable {j : Job} {k : e.Reply → Prog payman (Except AppError Response)} {r : e.Reply}

/-- A dispatch is spawned for something that has been committed. -/
theorem Sys.Attended.spawns (h : σ.Attended) {t : DispatchTask}
    {k : Unit → Prog payman (Except AppError Response)} (hj : j.Spawns t)
    (hp : σ.procs p = some ⟨j, some (.op (.spawn_dispatch t) k)⟩) (hinv : Inv .any σ) :
    σ.Happened t.invoice_id t.business_id t.event_type := by
  cases j with
  | call q =>
    cases q with
    | finalize_invoice i b req =>
      obtain ⟨x, x', hx, hstep⟩ := (h.openings p _ _ hp).admits ()
      cases hstep with
      | outside he => cases he
      | announce =>
        obtain ⟨⟨c, hc, hf⟩, hb⟩ := hx
        exact .finalized hc hf hb
    | pay_invoice i b key req =>
      obtain ⟨x, x', hx, hstep⟩ := (h.heralds p _ _ hp).admits ()
      cases hstep with
      | outside he => cases he
      | inside he => cases he
      | announce heq =>
        cases heq
        obtain ⟨⟨cm, hcm, hpid, row, hrow, hid, hrest⟩, -⟩ := hx.owes _ rfl
        have hbills := hinv.bills (Sys.job_of_procs hp) hcm hpid hrow
        exact .settled hcm ⟨row, hrow, hid, hrest⟩ (hid ▸ hbills)
      | announce_named =>
        obtain ⟨⟨cm, hcm, -, hsettles⟩, hb⟩ := hx.owes _ rfl
        exact .settled hcm hsettles (.inl (hb _ rfl))
    | _ => exact hj.elim
  | tick =>
    obtain ⟨x, x', hx, hstep⟩ := (h.heralds p _ _ hp).admits ()
    cases hstep with
    | outside he => cases he
    | inside he => cases he
    | announce heq => cases heq
    | announce_named =>
      obtain ⟨⟨cm, hcm, -, hsettles⟩, hb⟩ := hx.owes _ rfl
      exact .settled hcm hsettles (.inl (hb _ rfl))
  | _ => exact hj.elim

/-- The deliveries after an operation: an old one, or a new one of a dispatch to its business. -/
theorem Sys.Attended.queues (h : σ.Attended) (hinv : Inv .any σ)
    (hp : σ.procs p = some ⟨j, some (.op e k)⟩) (hx : σ.world.exec p e c = some (w, r)) {d : Uuid}
    {row : WebhookDelivery} (hrow : w.db.delivery d = some row) :
    (∃ row', σ.db.delivery d = some row' ∧ row'.webhook_endpoint_id = row.webhook_endpoint_id ∧
      row'.event_type = row.event_type ∧ row'.payload = row.payload) ∨
    ∃ t ∈ σ.world.spawned, row.Tells t ∧ σ.db.Listens t.business_id row.webhook_endpoint_id := by
  have hold : w.db.webhook_deliveries = σ.db.webhook_deliveries → ∃ row', σ.db.delivery d = some row' ∧
      row'.webhook_endpoint_id = row.webhook_endpoint_id ∧
      row'.event_type = row.event_type ∧ row'.payload = row.payload := fun heq => by
    rw [Db.delivery, heq] at hrow
    exact ⟨row, hrow, rfl, rfl, rfl⟩
  by_cases hj : ∃ t, j = .dispatch t
  · obtain ⟨t, rfl⟩ := hj
    obtain ⟨x, x', hcarries, hstep⟩ := (h.errands p _ _ hp).admits r
    cases hstep with
    | clock =>
      cases hx
      exact .inl (hold rfl)
    | ask =>
      obtain ⟨-, ⟨err, hr, -⟩ | ⟨ws, rows, now, -, hrun, hdb, -⟩⟩ :=
        World.sql_idle hx (hcarries.tx fun heq => by cases heq)
      · cases hr
      · obtain ⟨rfl, -⟩ := Stmt.run_select_active_endpoints hrun
        exact .inl (hold (congrArg Db.webhook_deliveries hdb))
    | ask_failed | queue_failed =>
      obtain ⟨-, ⟨err, -, hdb, -⟩ | ⟨ws, a, now, hr, -⟩⟩ :=
        World.sql_idle hx (hcarries.tx fun heq => by cases heq)
      · exact .inl (hold (congrArg Db.webhook_deliveries hdb))
      · cases hr
    | queue =>
      obtain ⟨-, ⟨err, hr, -⟩ | ⟨ws, n, now, -, hrun, hdb, -⟩⟩ :=
        World.sql_idle hx (hcarries.tx fun heq => by cases heq)
      · cases hr
      · obtain ⟨new, hfresh, -, he, -, -, hevent, hpayload, rfl⟩ := Stmt.run_insert_delivery hrun
        by_cases hid : new.id = d
        · have hnew : w.db.delivery d = some new := by
            rw [hdb]
            exact (Table.find_put ..).trans (if_pos hid)
          obtain rfl : row = new := Option.some.inj (hrow.symm.trans hnew)
          refine .inr ⟨t, hcarries.spawned, ⟨hevent, _, hpayload⟩, ?_⟩
          exact he ▸ hcarries.todo _ rfl _ (List.mem_cons_self ..)
        · have hkept : w.db.delivery d = σ.db.delivery d := by
            rw [hdb]
            exact Table.find_put_ne _ hid
          exact .inl ⟨row, hkept ▸ hrow, rfl, rfl, rfl⟩
  · cases (hinv.exec_keeps .any hp hx).1.1 with
    | quiet hdb _ _ => exact .inl (hold (congrArg Db.webhook_deliveries hdb))
    | send _ _ hdb _ _ _ => exact .inl (hold (congrArg Db.webhook_deliveries hdb))
    | commit ws hdb _ _ he =>
      rcases he.letters (not_exists.mp hj) with heq | ⟨row', s, n, at_, t, hrow', heq⟩
      · exact .inl (hold ((congrArg Db.webhook_deliveries hdb).trans heq))
      · rw [Db.delivery, hdb, heq, Table.find_put] at hrow
        split at hrow
        · rename_i hid
          cases hrow
          exact .inl ⟨row', hid ▸ hrow', rfl, rfl, rfl⟩
        · exact .inl ⟨row, hrow, rfl, rfl, rfl⟩

/-- A POST carries what the worker has read. -/
theorem Sys.Attended.sends (h : σ.Attended) (hinv : Inv .any σ)
    (hp : σ.procs p = some ⟨j, some (.op e k)⟩) (hx : σ.world.exec p e c = some (w, r)) {post : Post}
    (hpost : post ∈ w.posts) : post ∈ σ.world.posts ∨
      σ.db.Addresses post.delivery_id post.payload post.url post.secret := by
  rcases World.posts_of_exec hx with heq | ⟨d, url, secret, payload, t, ans, rfl, heq⟩
  · exact .inl (heq ▸ hpost)
  · rw [heq] at hpost
    refine (List.mem_cons.mp hpost).symm.imp_right fun hnew => ?_
    subst hnew
    obtain rfl : j = .deliveries := by
      refine (hinv.exec_keeps .any hp hx).1.2.posts.resolve_left fun hsame => ?_
      exact List.cons_ne_self _ _ (heq.symm.trans hsame)
    obtain ⟨x, x', hcarries, hstep⟩ := (h.couriers p _ _ hp).admits r
    cases hstep with
    | post => exact hcarries _ (List.mem_cons_self ..)

/-- CORRECT (step): what is new goes back to something that was there. -/
theorem Sys.Told.exec (h : σ.Told) (hatt : σ.Attended) (hinv : Inv .any σ)
    (hp : σ.procs p = some ⟨j, some (.op e k)⟩) (hx : σ.world.exec p e c = some (w, r)) :
    (σ.set p ⟨j, some (k r)⟩ w).Told := by
  obtain ⟨hg, hem⟩ := (hinv.exec_keeps .any hp hx).1
  have hl := hg.lasts
  have hbills : ∀ {a i b : Uuid}, σ.Bills a i b → (σ.set p ⟨j, some (k r)⟩ w).Bills a i b := by
    rintro a i b (hb | ⟨q, key, req, x, hq, hstarted, hid⟩)
    · exact .inl (hb.grows hl.toGrows)
    · exact .inr ⟨q, key, req, x, (Sys.set_job (Sys.job_of_procs hp)).trans hq,
        hstarted.mono hg.history, hid⟩
  have hspawned : ∀ t ∈ σ.world.spawned, t ∈ w.spawned := fun t ht => by
    rcases hem.spawned with heq | ⟨t', heq, -⟩
    · exact heq ▸ ht
    · exact heq ▸ List.mem_cons_of_mem _ ht
  refine ⟨fun t ht => ?_, fun d row hrow => ?_, fun post hpost => ?_⟩
  · have htold : σ.Happened t.invoice_id t.business_id t.event_type := by
      rcases World.spawned_of_exec hx with heq | ⟨t', rfl, heq, -⟩
      · exact h.tasks t (heq ▸ ht)
      · rcases List.mem_cons.mp (heq ▸ ht) with rfl | hold
        · refine hatt.spawns ?_ hp hinv
          rcases hem.spawned with hsame | ⟨t', heq', hj⟩
          · exact absurd (heq.symm.trans hsame) (List.cons_ne_self _ _)
          · exact (List.cons.inj (heq.symm.trans heq')).1 ▸ hj
        · exact h.tasks t hold
    exact htold.mono hg.history (fun hb => hb.grows hl.toGrows) fun _ => hbills
  · have hqueued : ∀ {t : DispatchTask}, t ∈ σ.world.spawned → row.Tells t →
        σ.db.Listens t.business_id row.webhook_endpoint_id → ∃ t ∈ w.spawned, row.Tells t ∧
          w.db.Listens t.business_id row.webhook_endpoint_id := fun ht htells hlistens =>
      ⟨_, hspawned _ ht, htells, hlistens.lasts hl⟩
    rcases hatt.queues hinv hp hx hrow with ⟨row', hrow', he, hevent, hpayload⟩ | ⟨t, ht, htells, hb⟩
    · obtain ⟨t, ht, ⟨hevent', now, hpayload'⟩, hb⟩ := h.deliveries d row' hrow'
      exact hqueued ht ⟨hevent.symm.trans hevent', now, hpayload.symm.trans hpayload'⟩ (he ▸ hb)
    · exact hqueued ht htells hb
  · exact ((hatt.sends hinv hp hx hpost).elim (h.posts post) id).lasts hl

end

/-- CORRECT (run): all that was ever spawned, queued and posted goes back to something committed. -/
theorem Sys.Reachable.told (h : σ.Reachable) : σ.Told := by
  induction h with
  | refl => exact .initial
  | @tail τ τ' hτ hs ih =>
    obtain ⟨l, -, hstep⟩ := hs
    have hinv := Sys.Reachable.inv hτ
    cases Sys.moves hstep with
    | start p j =>
      refine ⟨fun t ht => ?_, ih.deliveries, ih.posts⟩
      exact (ih.tasks t ht).step hinv hstep
    | kill p =>
      refine ⟨fun t ht => ?_, ih.deliveries, ih.posts⟩
      exact (ih.tasks t ht).step hinv hstep
    | exec p c hl j e k w r hp hx => exact ih.exec (Sys.Reachable.attended hτ) hinv hp hx

/-- CORRECT (what a webhook tells): every POST ever made tells of something that was committed
    before: that the invoice was finalized, or that an attempt to pay it got the outcome. It tells
    it to the business that owns the invoice, or whose call has started that attempt, at the URL of
    an endpoint of that business and under the endpoint's secret. -/
theorem posts_tell_what_happened (h : σ.Reachable) {post : Post} (hpost : post ∈ σ.world.posts) :
    ∃ i b event now e r, post.payload = payload event i b now ∧
      σ.Happened i b event ∧ σ.db.endpoint e = some r ∧ r.business_id = b ∧
      post.url = r.url ∧ post.secret = r.secret := by
  obtain ⟨row, r, hrow, hpayload, hr, hurl, hsecret⟩ := h.told.posts post hpost
  obtain ⟨t, ht, ⟨-, now, htells⟩, r', hr', hb⟩ := h.told.deliveries _ row hrow
  have hhappened := h.told.tasks t ht
  cases hr.symm.trans hr'
  exact ⟨_, _, _, now, _, r, hpayload.symm.trans htells, hhappened, hr, hb, hurl.symm,
    hsecret.symm⟩

/-- The POST of a finalized invoice. -/
theorem posts_tell_what_happened_finalized : ∃ σ ∈ Sys.initial.steps
      (Sys.notified ++ [.webhook_tick] ++ Sys.go .webhook_worker 3),
    ∃ post ∈ σ.world.posts, ∃ i b event now e r, post.payload = payload event i b now ∧
      σ.Happened i b event ∧ σ.db.endpoint e = some r ∧ r.business_id = b ∧
      post.url = r.url ∧ post.secret = r.secret := by
  obtain ⟨σ, hσ, hsome⟩ : ∃ σ ∈ Sys.initial.steps
      (Sys.notified ++ [.webhook_tick] ++ Sys.go .webhook_worker 3), σ.world.posts.head?.isSome := by
    decide +kernel
  obtain ⟨post, hpost⟩ := Option.isSome_iff_exists.mp hsome
  have hmem := List.mem_of_mem_head? hpost
  exact ⟨σ, hσ, post, hmem, posts_tell_what_happened (Sys.reachable_of_steps hσ) hmem⟩

end Payman
