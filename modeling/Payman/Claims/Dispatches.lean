import Payman.Safety.Leaves
import Payman.Safety.Runs

/-! What a dispatch queues: a delivery for every active endpoint of the business, or for some.

    The deliveries are inserted one after the other, each in a transaction of its own. When one of
    them fails the dispatch gives up, and the deliveries before it stay. So a failed dispatch has
    changed nothing exactly if no INSERT but the first one fails. -/

namespace Payman
open Schemes

variable {p : Pid} {w w' : World} {b i : Uuid} {event_type : String} {now : DateTime}

/-- The endpoints that a dispatch for the business `b` reads. -/
def Db.active_endpoints (db : Db) (b : Uuid) : List WebhookEndpoint :=
  db.webhook_endpoints.rows.filter fun r => decide (r.business_id = b ∧ r.active)

/-- A delivery as it is queued. -/
structure WebhookDelivery.Queued (event_type : String) (payload : Json) (row : WebhookDelivery) :
    Prop where
  pending : row.status = .pending
  untried : row.attempt_count = 0
  event : row.event_type = event_type
  payload : row.payload = payload

/-- From `db` to `db'` one delivery of the event was queued for each active endpoint of `b`. -/
def QueuedForAll (b i : Uuid) (event_type : String) (db db' : Db) : Prop :=
  ∃ now rows, db'.webhook_deliveries.rows = db.webhook_deliveries.rows ++ rows ∧
    (rows.map (·.webhook_endpoint_id)).Perm ((db.active_endpoints b).map (·.id)) ∧
    ∀ row ∈ rows, row.Queued event_type (payload event_type i b now)

/-- All endpoints get their delivery, or none does. -/
def AllOrNone (b i : Uuid) (event_type : String) (db db' : Db) : Except AppError Unit → Prop
  | .ok () => QueuedForAll b i event_type db db'
  | .error _ => db'.webhook_deliveries = db.webhook_deliveries

/-- The `j`-th INSERT fails, when `cs` are the choices for the INSERTs: the call to the database
    does, or the UUID is taken, by a delivery in `db` or by one of the INSERTs before. -/
def InsertFails (db : Db) (cs : List Choice) (j : ℕ) : Prop :=
  ∃ c ∈ cs[j]?, c.fail = true ∨ (db.delivery c.uuid).isSome ∨ c.uuid ∈ (cs.take j).map (·.uuid)

instance (db : Db) (cs : List Choice) (j : ℕ) : Decidable (InsertFails db cs j) :=
  inferInstanceAs (Decidable (∃ c ∈ cs[j]?, _))

/-- The query succeeds and so does the first of `n` INSERTs, and then one of them fails. -/
def BreaksOff (db : Db) (n : ℕ) (cs : List Choice) : Prop :=
  (∀ c ∈ cs.head?, c.fail = false) ∧ ¬InsertFails db (cs.drop 2) 0 ∧
    ∃ j < n, InsertFails db (cs.drop 2) j

instance (db : Db) (n : ℕ) (cs : List Choice) : Decidable (BreaksOff db n cs) :=
  inferInstanceAs (Decidable (_ ∧ _ ∧ _))

/-! ### One INSERT -/

/-- An INSERT of a delivery: it fails and nothing changes, or the row is there. -/
theorem World.exec_insert_delivery {e : Uuid} {payload : Json} {c : Choice}
    {r : Except DbError ℕ} (htx : w.tx p = none) (he : (w.db.endpoint e).isSome)
    (hx : w.exec p (.sql (.insert_delivery e event_type payload)) c = some (w', r)) :
    w'.tx p = none ∧
      ((∃ err, r = .error err ∧ w'.db = w.db ∧ (c.fail = true ∨ (w.db.delivery c.uuid).isSome)) ∨
      ∃ n row, r = .ok n ∧ c.fail = false ∧ w.db.delivery c.uuid = none ∧ row.id = c.uuid ∧
        row.webhook_endpoint_id = e ∧ row.Queued event_type payload ∧
        w'.db = { w.db with webhook_deliveries := w.db.webhook_deliveries.put row }) := by
  obtain ⟨r₀, hr₀⟩ := Option.isSome_iff_exists.mp he
  obtain ⟨htx', ⟨err, rfl, hdb, -⟩ | ⟨ws, n, now, rfl, hrun, hdb, -⟩⟩ := World.sql_idle hx htx
  · refine ⟨htx', .inl ⟨err, rfl, hdb, ?_⟩⟩
    obtain ⟨-, hfail | hrun⟩ := World.act_sql_error hx
    · exact .inl hfail
    · have hview : (w.elapse c.elapsed).sessions.view p = w.db := World.view_idle htx
      rw [hview, Stmt.run_insert_delivery_of hr₀] at hrun
      split at hrun
      · rename_i htaken
        exact .inr htaken
      · cases hrun
  · rw [Stmt.run_insert_delivery_of hr₀] at hrun
    split at hrun
    · cases hrun
    · rename_i hfree
      cases hrun
      exact ⟨htx', .inr ⟨_, _, rfl, World.act_sql_calm hx, Option.not_isSome_iff_eq_none.mp hfree,
        rfl, rfl, ⟨rfl, rfl, rfl, rfl⟩, hdb⟩⟩

/-! ### All INSERTs -/

/-- After the first INSERT the others count from one less. -/
theorem insertFails_succ {db : Db} {c : Choice} {cs : List Choice} {row : WebhookDelivery}
    (hid : row.id = c.uuid) (j : ℕ) :
    InsertFails { db with webhook_deliveries := db.webhook_deliveries.put row } cs j ↔
      InsertFails db (c :: cs) (j + 1) := by
  have htaken : ∀ u, (Db.delivery { db with
      webhook_deliveries := db.webhook_deliveries.put row } u).isSome ↔
      u = c.uuid ∨ (db.delivery u).isSome := by
    intro u
    rw [Db.delivery, Table.find_put, key_delivery, hid]
    split
    · rename_i heq
      simp [heq]
    · rename_i hne
      simp [Ne.symm hne]
  unfold InsertFails
  rw [List.getElem?_cons_succ, List.take_succ_cons, List.map_cons]
  refine exists_congr fun d => and_congr_right fun _ => or_congr_right ?_
  rw [htaken, List.mem_cons]
  constructor
  · rintro ((h | h) | h)
    · exact .inr (.inl h)
    · exact .inl h
    · exact .inr (.inr h)
  · rintro (h | h | h)
    · exact .inl (.inr h)
    · exact .inl (.inl h)
    · exact .inr h

/-- CORRECT (the INSERTs): those before the first one that fails have left their delivery. -/
theorem insert_deliveries_leaves {payload : Json} : ∀ {endpoints : List WebhookEndpoint}
    {cs : List Choice} {w : World} {r : Except AppError Unit}, w.tx p = none →
    (∀ e ∈ endpoints, (w.db.endpoint e.id).isSome) →
    (insert_deliveries event_type payload endpoints).run.run (World.exec p) cs w = some (w', r) →
    ∃ rows : List WebhookDelivery,
      w'.db.webhook_deliveries.rows = w.db.webhook_deliveries.rows ++ rows ∧
      rows.map (·.webhook_endpoint_id) = (endpoints.take rows.length).map (·.id) ∧
      (∀ row ∈ rows, row.Queued event_type payload) ∧
      (∀ j < rows.length, ¬InsertFails w.db cs j) ∧
      ((r = .ok () ∧ rows.length = endpoints.length) ∨
        (∃ e, r = .error e) ∧ rows.length < endpoints.length ∧ InsertFails w.db cs rows.length)
  | [], cs, w, r, _, _, hrun => by
    cases hrun
    exact ⟨[], by simp⟩
  | e :: endpoints, cs, w, r, htx, hall, hrun => by
    obtain ⟨c, cs', w₁, n, rfl, hx, hrest⟩ := run_sql_bind hrun
    have he := hall e (List.mem_cons_self ..)
    obtain ⟨htx₁, ⟨err, rfl, hdb, hbad⟩ | ⟨n, row, rfl, hcalm, hfree, hid, hend, hq, hdb⟩⟩ :=
      World.exec_insert_delivery htx he hx
    · obtain ⟨x, hno, -⟩ | ⟨err', -, rfl, rfl⟩ := hrest
      · cases hno
      · refine ⟨[], by rw [hdb]; simp, rfl, by simp, by simp, .inr ⟨⟨_, rfl⟩, by simp, ?_⟩⟩
        exact ⟨c, rfl, hbad.imp_right .inl⟩
    · obtain ⟨x, -, hrest⟩ | ⟨err', hno, -⟩ := hrest
      · have hall₁ : ∀ e ∈ endpoints, (w₁.db.endpoint e.id).isSome := fun e he => by
          rw [hdb]
          exact hall e (List.mem_cons_of_mem _ he)
        obtain ⟨rows, hrows, hends, hqs, hok, hr⟩ := insert_deliveries_leaves htx₁ hall₁ hrest
        rw [hdb] at hrows hok hr
        refine ⟨row :: rows, ?_, ?_, ?_, ?_, ?_⟩
        · have hput := Table.rows_put_of_none (t := w.db.webhook_deliveries) (r := row) (by
            rw [key_delivery, hid]
            exact hfree)
          rw [hrows, hput, List.append_assoc, List.singleton_append]
        · rw [List.map_cons, List.length_cons, List.take_succ_cons, List.map_cons, hend, hends]
        · exact List.forall_mem_cons.mpr ⟨hq, hqs⟩
        · intro j hj
          cases j with
          | zero =>
            rintro ⟨d, hd, hbad⟩
            cases hd
            rcases hbad with hbad | hbad | hbad
            · cases hcalm.symm.trans hbad
            · rw [hfree] at hbad
              cases hbad
            · cases hbad
          | succ j =>
            intro hbad
            exact hok j (Nat.lt_of_succ_lt_succ hj) ((insertFails_succ hid j).mpr hbad)
        · rw [List.length_cons, List.length_cons]
          refine hr.imp (And.imp_right (congrArg _)) ?_
          rintro ⟨herr, hlt, hbad⟩
          exact ⟨herr, Nat.succ_lt_succ hlt, (insertFails_succ hid _).mp hbad⟩
      · cases hno

/-! ### The dispatch -/

/-- What a dispatch queues for the endpoints that its query has returned. -/
theorem dispatch_queues {c : Choice} {cs : List Choice} {w₁ : World} {r : Except AppError Unit}
    {endpoints : List WebhookEndpoint} (htx : w₁.tx p = none) (hdb : w₁.db = w.db)
    (hcalm : c.fail = false) (hperm : endpoints.Perm (w.db.active_endpoints b))
    (hrun : (utc_now >>= fun timestamp => insert_deliveries event_type
      (payload event_type i b timestamp) endpoints).run.run (World.exec p) cs w₁ = some (w', r)) :
    AllOrNone b i event_type w.db w'.db r ↔
      ¬BreaksOff w.db (w.db.active_endpoints b).length (c :: cs) := by
  have hlen := hperm.length_eq
  cases cs with
  | nil => cases hrun
  | cons c₁ cs =>
    have hall : ∀ e ∈ endpoints, (w.db.endpoint e.id).isSome := fun e he => by
      have hmem := (List.mem_filter.mp (hperm.mem_iff.mp he)).1
      exact Option.isSome_iff_exists.mpr ⟨e, Table.find_of_mem hmem⟩
    have hdb₂ : (w₁.elapse c₁.elapsed).db = w.db := hdb
    obtain ⟨rows, hrows, hends, hqs, hok, hr⟩ :=
      insert_deliveries_leaves (w := w₁.elapse c₁.elapsed) htx (hdb₂ ▸ hall) hrun
    rw [hdb₂] at hrows hok hr
    rcases hr with ⟨rfl, hfull⟩ | ⟨⟨e, rfl⟩, hlt, hbad⟩
    · rw [hfull, List.take_length] at hends
      refine iff_of_true ⟨_, rows, hrows, ?_, hqs⟩ ?_
      · rw [hends]
        exact hperm.map _
      · rintro ⟨-, -, j, hj, hbad⟩
        exact hok j (by rwa [hfull, hlen]) hbad
    · rw [← hlen]
      constructor
      · rintro hsame ⟨-, hfirst, -⟩
        have hnil : rows = [] := by
          rw [show w'.db.webhook_deliveries = _ from hsame] at hrows
          exact List.append_right_eq_self.mp hrows.symm
        subst hnil
        exact hfirst hbad
      · intro hbreak
        have hnil : rows.length = 0 := by
          by_contra hne
          refine hbreak ⟨fun d hd => ?_, hok 0 (Nat.pos_of_ne_zero hne), _, hlt, hbad⟩
          cases hd
          exact hcalm
        refine Table.ext_rows ?_
        rw [hrows, List.length_eq_zero_iff.mp hnil, List.append_nil]

/-- CORRECT (all endpoints or none): a dispatch on its own has an answer wherever nobody is in a
    transaction, whatever fails. It has queued its event for all active endpoints if it succeeds,
    and for none if it fails, exactly if it does not break off after its first INSERT. -/
theorem all_or_none_iff (htx : w.tx p = none) :
    (w.Quiet → ∀ f : ℕ → Choice, ∃ n w' answer, (dispatch b i event_type).run.run (World.exec p)
      ((List.range n).map f) w = some (w', answer)) ∧
    ∀ cs w' answer,
      (dispatch b i event_type).run.run (World.exec p) cs w = some (w', answer) →
      (AllOrNone b i event_type w.db w'.db answer ↔
        ¬BreaksOff w.db (w.db.active_endpoints b).length cs) := by
  refine ⟨fun hquiet f => hquiet.returns _ f, fun cs w' answer hrun => ?_⟩
  obtain ⟨c, cs', w₁, r, rfl, hx, hrest⟩ := run_sql_bind hrun
  obtain ⟨htx₁, ⟨err, rfl, hdb, -⟩ | ⟨ws, endpoints, now, rfl, hread, hdb, -⟩⟩ :=
    World.sql_idle hx htx
  · obtain ⟨x, hno, -⟩ | ⟨err', -, rfl, rfl⟩ := hrest
    · cases hno
    · refine iff_of_true (congrArg Db.webhook_deliveries hdb) ?_
      rintro ⟨hcalm, -⟩
      obtain ⟨-, hfail | hbad⟩ := World.act_sql_error hx
      · cases hfail.symm.trans (hcalm c rfl)
      · cases hbad
  · obtain ⟨x, hx', hrest⟩ | ⟨err', hno, -⟩ := hrest
    · cases hx'
      cases hread
      have hperm : (Stmt.select w.db.webhook_endpoints c.order fun r =>
          decide (r.business_id = b ∧ r.active)).Perm (w.db.active_endpoints b) := arrange_perm ..
      have hcalm := World.act_sql_calm hx
      generalize hends : (Stmt.select w.db.webhook_endpoints c.order fun r =>
        decide (r.business_id = b ∧ r.active)) = endpoints at hperm hrest
      cases endpoints with
      | nil =>
        cases hrest
        refine iff_of_true ⟨0, [], ?_, ?_, by simp⟩ ?_
        · rw [hdb]
          exact (List.append_nil _).symm
        · exact hperm.map _
        · rintro ⟨-, -, j, hj, -⟩
          rw [← hperm.length_eq] at hj
          exact Nat.not_lt_zero _ hj
      | cons e endpoints => exact dispatch_queues htx₁ hdb hcalm hperm hrest
    · cases hno

/-- Business 1 has the endpoints 50 and 51. -/
def Sys.subscribed : List Sys.Label :=
  [.arrive 9 (.create_endpoint 1 ⟨"https://a.example"⟩)] ++ go (.call 9) 1 ++ fresh (.call 9) 50 ++
  [.arrive 8 (.create_endpoint 1 ⟨"https://b.example"⟩)] ++ go (.call 8) 1 ++ fresh (.call 8) 51

/-- Nothing fails: both endpoints get a delivery. -/
theorem all_or_none_iff_both : ∃ σ ∈ Sys.initial.steps Sys.subscribed,
    ∃ x ∈ (dispatch 1 20 "invoice.paid").run.run (World.exec (.task 0))
      [Sys.calm, Sys.calm, { Sys.calm with uuid := 60 }, { Sys.calm with uuid := 61 }] σ.world,
    QueuedForAll 1 20 "invoice.paid" σ.db x.1.db := by
  obtain ⟨σ, hσ, htx, hbreak, ⟨w', answer⟩, hx, hok⟩ :
    ∃ σ ∈ Sys.initial.steps Sys.subscribed, (σ.world.tx (.task 0)).isNone ∧
    ¬BreaksOff σ.db (σ.db.active_endpoints 1).length
      [Sys.calm, Sys.calm, { Sys.calm with uuid := 60 }, { Sys.calm with uuid := 61 }] ∧
    ∃ x ∈ (dispatch 1 20 "invoice.paid").run.run (World.exec (.task 0))
      [Sys.calm, Sys.calm, { Sys.calm with uuid := 60 }, { Sys.calm with uuid := 61 }] σ.world,
      x.2 = .ok () := by decide +kernel
  have h := ((all_or_none_iff (Option.isNone_iff_eq_none.mp htx)).2 _ _ _ hx).mpr hbreak
  rw [show answer = .ok () from hok] at h
  exact ⟨σ, hσ, _, hx, h⟩

/-- The second INSERT fails: endpoint 50 has got a delivery, endpoint 51 gets none. -/
theorem dispatch_breaks_off : ¬∀ (σ : Sys) (p : Pid) (b i : Uuid) (event_type : String)
    (cs : List Choice) (w' : World) (answer : Except AppError Unit), σ.Reachable →
    σ.world.tx p = none →
    (dispatch b i event_type).run.run (World.exec p) cs σ.world = some (w', answer) →
    AllOrNone b i event_type σ.db w'.db answer := by
  obtain ⟨σ, hσ, htx, ⟨w', answer⟩, hx, herr, hlen⟩ :
    ∃ σ ∈ Sys.initial.steps Sys.subscribed, (σ.world.tx (.task 0)).isNone ∧
    ∃ x ∈ (dispatch 1 20 "invoice.paid").run.run (World.exec (.task 0))
      [Sys.calm, Sys.calm, { Sys.calm with uuid := 60 }, { Sys.calm with fail := true }] σ.world,
      x.2 = .error (.Database .Connection) ∧
      x.1.db.webhook_deliveries.rows.length ≠ σ.db.webhook_deliveries.rows.length := by
    decide +kernel
  intro h
  have hall := h σ (.task 0) 1 20 "invoice.paid" _ w' answer (Sys.reachable_of_steps hσ)
    (Option.isNone_iff_eq_none.mp htx) hx
  rw [show answer = .error (.Database .Connection) from herr] at hall
  exact hlen (congrArg (·.rows.length) (show w'.db.webhook_deliveries = _ from hall))

end Payman
