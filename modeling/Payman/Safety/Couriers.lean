import Payman.Safety.Deliveries
import Payman.Safety.Errands
import Payman.Safety.Watches

/-! What a dispatch and the webhook worker carry.

    A dispatch queues its deliveries for endpoints of its business only. The worker posts what it has
    read: the payload of a delivery, to the URL and under the secret of the delivery's endpoint. None
    of these change while it is on its way. -/

namespace Payman
open Schemes

/-- The endpoint `e` is the business `b`'s. -/
def Db.Listens (db : Db) (b e : Uuid) : Prop := ∃ r, db.endpoint e = some r ∧ r.business_id = b

theorem Db.Listens.lasts {db db' : Db} {b e : Uuid} (h : db.Listens b e) (hl : Lasts db db') :
    db'.Listens b e := by
  obtain ⟨r, hr, hb⟩ := h
  obtain ⟨r', hr', hb', -⟩ := hl.address e r hr
  exact ⟨r', hr', hb'.trans hb⟩

/-! ### Dispatches -/

/-- What a dispatch of `t` in phase `x` relies on. -/
structure Errand.Carries (p : Pid) (t : DispatchTask) (x : Errand) (w : World) : Prop where
  spawned : t ∈ w.spawned
  tx : x ≠ .lost → w.tx p = none
  todo : ∀ es, x = .queueing es → ∀ e ∈ es, w.db.Listens t.business_id e

/-- The watch on the dispatches. -/
def Errand.watches : Watches Errand
  | p, .dispatch t => ⟨Errand.Step t, fun _ _ => True, Errand.Carries p t⟩
  | _, _ => .any

namespace Errand
variable {σ : Sys} {p : Pid} {t : DispatchTask} {x x' : Errand} {c : Choice} {w w' : World}

/-- An operation of the dispatch itself. -/
theorem Carries.exec {e : Eff} {r : e.Reply} (h : x.Carries p t w)
    (hx : w.exec p e c = some (w', r)) (hsp : ∀ t ∈ w.spawned, t ∈ w'.spawned)
    (hl : Lasts w.db w'.db) (hstep : Errand.Step t x e r x') : x'.Carries p t w' := by
  have hspawned := hsp t h.spawned
  have hlost : Errand.Carries p t .lost w' := ⟨hspawned, fun hne => absurd rfl hne, nofun⟩
  cases hstep with
  | ask_failed | queue_failed => exact hlost
  | ask =>
    obtain ⟨htx, ⟨err, hr, -⟩ | ⟨ws, rows, now, hr, hrun, hdb, -⟩⟩ :=
      World.sql_idle hx (h.tx nofun)
    · cases hr
    · cases hr
      refine ⟨hspawned, fun _ => htx, fun es hes e he => ?_⟩
      cases hes
      obtain ⟨r, hr, rfl⟩ := List.mem_map.mp he
      cases hrun
      obtain ⟨hmem, hcond⟩ := Stmt.mem_select.mp hr
      exact Db.Listens.lasts ⟨r, Table.find_of_mem hmem, (of_decide_eq_true hcond).1⟩ hl
  | clock =>
    cases hx
    exact ⟨hspawned, h.tx, h.todo⟩
  | @queue e todo =>
    obtain ⟨htx, -⟩ := World.sql_idle hx (h.tx nofun)
    refine ⟨hspawned, fun _ => htx, fun es hes e' he' => ?_⟩
    cases hes
    exact (h.todo _ rfl e' (List.mem_cons_of_mem _ he')).lasts hl

/-- The steps of others. -/
theorem Carries.passed (h : x.Carries p t w) (hp : Passed p w w') : x.Carries p t w' where
  spawned := hp.spawned t h.spawned
  tx := fun hne => hp.tx.trans (h.tx hne)
  todo := fun es hes e he => (h.todo es hes e he).lasts hp.lasts

/-- CORRECT (step): nobody disturbs the watch. -/
theorem upholds {l : Sys.Label} (h : Inv .any σ) : σ.Upholds watches l where
  start := fun p j _ hfit hhead htask => by
    cases j with
    | dispatch t =>
      refine ⟨.asking, dispatch_follows.imp fun _ _ _ => trivial, ?_, fun _ => h.idle p hhead,
        nofun⟩
      cases p with
      | task n => exact List.mem_reverse.mp (List.mem_of_getElem? (htask n t rfl rfl))
      | _ => exact hfit.elim
    | _ => exact Watch.any_sees .asking _ _
  own := fun p j e k c w r x x' hl hp hx hx' hstep => by
    subst hl
    obtain ⟨hg, hem⟩ := (h.exec_keeps .any hp hx).1
    cases j with
    | dispatch t =>
      refine Carries.exec hx' hx (fun t' ht' => ?_) hg.lasts hstep
      rcases hem.spawned with heq | ⟨t'', -, hno⟩
      · exact heq ▸ ht'
      · exact hno.elim
    | _ => trivial
  other := fun q j w x hp hx => by
    cases j with
    | dispatch t => exact hx.passed hp
    | _ => trivial

end Errand

/-! ### The webhook worker -/

/-- Where the webhook worker is: before its query, or with deliveries to post. -/
inductive Courier where
  | begun
  | holding (todo : List DueDelivery)

/-- The protocol of the webhook worker, with all that it holds. -/
inductive Courier.Step : Courier → (e : Eff) → e.Reply → Courier → Prop
  | select {rows : List DueDelivery} :
      Step .begun (.sql .select_due_deliveries) (.ok rows) (.holding rows)
  | select_failed {err : DbError} :
      Step .begun (.sql .select_due_deliveries) (.error err) (.holding [])
  | clock {todo : List DueDelivery} {t : DateTime} : Step (.holding todo) .utc_now t (.holding todo)
  | post {d : DueDelivery} {todo : List DueDelivery} {t : ℤ} {ans : Answer} :
      Step (.holding (d :: todo)) (.post_webhook d.id d.url d.secret d.payload t) ans
        (.holding (d :: todo))
  | record {d : DueDelivery} {todo : List DueDelivery} {ok : Bool}
      {r : Except DbError (report d.id ok).Result} :
      Step (.holding (d :: todo)) (.sql (report d.id ok)) r (.holding todo)

theorem deliver_carries {d : DueDelivery} {todo : List DueDelivery} :
    Follows Courier.Step (fun _ x => x = .holding todo)
      (deliver d.id d.url d.secret d.payload).run (.holding (d :: todo)) := by
  refine .ends (.seqE fun t => ⟨_, .clock, .seqE fun ans => ⟨_, .post, ?_⟩⟩)
  have hreport : ∀ ok, Follows Courier.Step
      (Safe.Either (fun _ x => x = .holding todo) fun x => x = .holding todo)
      (sql (report d.id ok)).run (.holding (d :: todo)) := by
    intro ok r
    refine ⟨_, .record, ?_⟩
    cases r <;> exact rfl
  show Follows Courier.Step _ (ite _ _ _ : App Unit).run (.holding (d :: todo))
  cases h : delivered ans with
  | true => exact .bindE (hreport true) fun _ _ h => h
  | false => exact .bindE (hreport false) fun _ _ h => h

/-- Wherever the worker ends. -/
abbrev Courier.Fin {α : Type} : Except AppError α → Courier → Prop :=
  Safe.Either (fun _ _ => True) fun _ => True

theorem deliver_all_carries : ∀ rows : List DueDelivery,
    Follows Courier.Step Courier.Fin (deliver_all rows).run (.holding rows)
  | [] => trivial
  | d :: rows => by
    -- an error of one delivery is logged, and the next one follows
    have hlog : Follows Courier.Step (Safe.Either (fun _ x => x = .holding rows) fun _ => True)
        (log_error (deliver d.id d.url d.secret d.payload)).run (.holding (d :: rows)) :=
      .bind (fun _ _ hx => hx) deliver_carries
    exact .bindE hlog fun _ _ hx => hx ▸ deliver_all_carries rows

theorem process_pending_deliveries_carries :
    Follows Courier.Step Courier.Fin process_pending_deliveries.run .begun := by
  refine .seqE fun r => ?_
  cases r with
  | ok rows => exact ⟨_, .select, deliver_all_carries rows⟩
  | error err => exact ⟨_, .select_failed, trivial⟩

/-- The payload is that of its delivery, the URL and the secret are those of the endpoint. -/
def Db.Addresses (db : Db) (d : Uuid) (payload : Json) (url secret : String) : Prop :=
  ∃ row r, db.delivery d = some row ∧ row.payload = payload ∧
    db.endpoint row.webhook_endpoint_id = some r ∧ r.url = url ∧ r.secret = secret

theorem Db.Addresses.lasts {db db' : Db} {d : Uuid} {payload : Json} {url secret : String}
    (h : db.Addresses d payload url secret) (hl : Lasts db db') :
    db'.Addresses d payload url secret := by
  obtain ⟨row, r, hrow, hp, hr, hu, hs⟩ := h
  obtain ⟨row', hrow', he', -, hp'⟩ := hl.letter d row hrow
  obtain ⟨r', hr', -, hu', hs'⟩ := hl.address _ r hr
  exact ⟨row', r', hrow', hp'.trans hp, he' ▸ hr', hu'.trans hu, hs'.trans hs⟩

/-- What the worker in phase `x` relies on. -/
def Courier.Carries (p : Pid) : Courier → World → Prop
  | .begun, w => w.tx p = none
  | .holding todo, w => ∀ d ∈ todo, w.db.Addresses d.id d.payload d.url d.secret

/-- The watch on the webhook worker. -/
def Courier.watches : Watches Courier
  | p, .deliveries => ⟨Courier.Step, fun _ _ => True, Courier.Carries p⟩
  | _, _ => .any

namespace Courier
variable {σ : Sys} {p : Pid} {x x' : Courier} {c : Choice} {w w' : World}

theorem addressed_of_select {now : DateTime} {db : Db} {ws : List Write} {rows : List DueDelivery}
    (h : Stmt.run now c db .select_due_deliveries = .ok (ws, rows)) :
    ∀ d ∈ rows, db.Addresses d.id d.payload d.url d.secret := by
  cases h
  intro d hd
  obtain ⟨row, hrow, hjoin⟩ := List.mem_filterMap.mp (List.mem_of_mem_take hd)
  obtain ⟨r, hr, rfl⟩ := Option.map_eq_some_iff.mp hjoin
  exact ⟨row, r, Table.find_of_mem (Stmt.mem_select.mp hrow).1, rfl, hr, rfl, rfl⟩

/-- An operation of the worker itself. -/
theorem Carries.exec {e : Eff} {r : e.Reply} (h : x.Carries p w)
    (hx : w.exec p e c = some (w', r)) (hl : Lasts w.db w'.db) (hstep : Courier.Step x e r x') :
    x'.Carries p w' := by
  cases hstep with
  | select =>
    obtain ⟨-, ⟨err, hr, -⟩ | ⟨ws, rows, now, hr, hrun, -⟩⟩ := World.sql_idle hx h
    · cases hr
    · cases hr
      exact fun d hd => (addressed_of_select hrun d hd).lasts hl
  | select_failed => exact nofun
  | clock | post => exact fun d hd => (h d hd).lasts hl
  | record => exact fun d hd => (h d (List.mem_cons_of_mem _ hd)).lasts hl

/-- The steps of others. -/
theorem Carries.passed (h : x.Carries p w) (hp : Passed p w w') : x.Carries p w' := by
  cases x with
  | begun => exact hp.tx.trans h
  | holding todo => exact fun d hd => (h d hd).lasts hp.lasts

/-- CORRECT (step): nobody disturbs the watch. -/
theorem upholds {l : Sys.Label} (h : Inv .any σ) : σ.Upholds watches l where
  start := fun p j _ _ hhead _ => by
    cases j with
    | deliveries =>
      have hends : Follows Courier.Step (fun _ _ => True) process_pending_deliveries.run .begun :=
        process_pending_deliveries_carries.imp fun _ _ _ => trivial
      exact ⟨.begun, .map hends, h.idle p hhead⟩
    | _ => exact Watch.any_sees .begun _ _
  own := fun p j e k c w r x x' hl hp hx hx' hstep => by
    subst hl
    cases j with
    | deliveries =>
      exact Carries.exec hx' hx (h.exec_keeps .any hp hx).1.1.lasts hstep
    | _ => trivial
  other := fun q j w x hp hx => by
    cases j with
    | deliveries => exact Carries.passed hx hp
    | _ => trivial

end Courier

end Payman
