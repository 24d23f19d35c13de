import Payman.Safety.Deliveries

/-! Deleted endpoints and the backlog.

    Deleting an endpoint marks it inactive, and no new delivery is queued for an inactive endpoint.
    The worker's query does not look at the mark: what is queued or waits for a retry goes out. A
    tick spares a deleted endpoint if its query finds nothing due of inactive endpoints. -/

namespace Payman
open Schemes

/-- The job that process `p` has completed successfully. -/
def Sys.completed (σ : Sys) (p : Pid) : Option Job :=
  match σ.procs p with
  | some ⟨j, some (.ret (.ok _))⟩ => some j
  | _ => none

theorem Sys.procs_of_completed {σ : Sys} {p : Pid} {j : Job} (h : σ.completed p = some j) :
    ∃ r, σ.procs p = some ⟨j, some (.ret (.ok r))⟩ := by
  unfold Sys.completed at h
  split at h
  · rename_i j' r hp
    cases h
    exact ⟨r, hp⟩
  · cases h

/-- The webhook worker is about to ask for due deliveries. -/
def Sys.querying (σ : Sys) : Bool :=
  match σ.head .webhook_worker with
  | some (.sql .select_due_deliveries) => true
  | _ => false

/-- When the worker asks for due deliveries, none that is pending and due belongs to an inactive
    endpoint. -/
def Sys.Cleared (σ : Sys) : Label → Prop
  | .exec .webhook_worker c => σ.querying = true → ∀ row ∈ σ.db.webhook_deliveries.rows,
    row.status = .pending → (∃ t ∈ row.next_retry_at, t ≤ σ.world.now + c.elapsed) →
      ∀ r ∈ σ.db.endpoint row.webhook_endpoint_id, r.active = true
  | _ => True

instance (σ : Sys) : ∀ l, Decidable (σ.Cleared l)
  | .exec .webhook_worker c => inferInstanceAs (Decidable (σ.querying = true →
    ∀ row ∈ σ.db.webhook_deliveries.rows, row.status = .pending →
      (∃ t ∈ row.next_retry_at, t ≤ σ.world.now + c.elapsed) →
        ∀ r ∈ σ.db.endpoint row.webhook_endpoint_id, r.active = true))
  | .exec (.call _) _ | .exec (.task _) _ | .exec .worker _ | .kill _ | .arrive .. | .background _
  | .tick | .webhook_tick => isTrue trivial

/-- Delivery `d` is one for another endpoint than `e`. -/
def Db.Elsewhere (db : Db) (e d : Uuid) : Prop :=
  ∃ row, db.delivery d = some row ∧ row.webhook_endpoint_id ≠ e

/-- A delivery does not change its endpoint. -/
theorem Grows.elsewhere {db db' : Db} {e d : Uuid} (h : Grows db db') (hd : db.Elsewhere e d) :
    db'.Elsewhere e d := by
  obtain ⟨row, hrow, hne⟩ := hd
  obtain ⟨row', hrow', heq⟩ := h.delivery d row hrow
  exact ⟨row', hrow', heq ▸ hne⟩

/-- Since `old` were the latest POSTs, nothing was posted for endpoint `e`, and nothing of its is
    left in the worker's batch. -/
structure Spared (e : Uuid) (old : List Post) (w : World) (todo : List Uuid) : Prop where
  deleted : w.db.Deleted e
  posts : ∃ new, w.posts = new ++ old ∧ ∀ post ∈ new, w.db.Elsewhere e post.delivery_id
  todo : ∀ d ∈ todo, w.db.Elsewhere e d

theorem Spared.later {e : Uuid} {old : List Post} {w w' : World} {todo todo' : List Uuid}
    (h : Spared e old w todo) (hg : Grows w.db w'.db) (hp : w'.posts = w.posts)
    (hsub : ∀ d ∈ todo', d ∈ todo) : Spared e old w' todo' := by
  obtain ⟨new, hnew, hall⟩ := h.posts
  exact ⟨hg.deleted h.deleted, ⟨new, hp.trans hnew, fun post hpost => hg.elsewhere (hall post hpost)⟩,
    fun d hd => hg.elsewhere (h.todo d (hsub d hd))⟩

/-- CORRECT (step): a turn whose query finds nothing due of inactive endpoints spares a deleted
    endpoint. -/
theorem Spared.turn {e : Uuid} {old : List Post} {σ σ' : Sys} {l : Sys.Label} {x x' : Phase}
    (h : Spared e old σ.world x.todo) (hg : Grows σ.db σ'.db) (hl : σ.Cleared l)
    (hnow : ∀ c, l = .exec .webhook_worker c → σ'.world.now = σ.world.now + c.elapsed)
    (ht : Turn σ l σ' x x') : Spared e old σ'.world x'.todo := by
  cases ht with
  | idle hd hp => exact h.later hg hp fun _ hd' => hd'
  | queued row hfresh hs hn hd hp => exact h.later hg hp fun _ hd' => hd'
  | begun hx hd hp => exact h.later hg hp (by simp [Phase.todo])
  | selected c hl' hhead hnd hdue hd hp =>
    have hbase : Spared e old σ'.world [] := h.later hg hp (by simp)
    refine ⟨hbase.deleted, hbase.posts, fun d hd' => ?_⟩
    obtain ⟨row, hrow, hs, t, ht, hle⟩ := hdue d hd'
    refine hg.elsewhere ⟨row, hrow, fun heq => ?_⟩
    obtain ⟨r, hr, hinactive⟩ := h.deleted
    subst hl'
    rw [hnow c rfl] at hle
    have hquery : σ.querying = true := by rw [Sys.querying, hhead]
    have hactive := hl hquery row (Table.mem_of_find hrow) hs ⟨t, ht, hle⟩ r (heq ▸ hr)
    cases hinactive.symm.trans hactive
  | missed hd hp => exact h.later hg hp (by simp [Phase.todo])
  | @posted d l post hid hd hp =>
    subst hid
    obtain ⟨new, hnew, hall⟩ := h.posts
    refine ⟨hg.deleted h.deleted, ⟨post :: new, by rw [hp, hnew]; rfl, ?_⟩, fun d hd' =>
      hg.elsewhere (h.todo d hd')⟩
    refine List.forall_mem_cons.mpr ⟨hg.elsewhere (h.todo _ (List.mem_cons_self ..)), ?_⟩
    exact fun post' hpost => hg.elsewhere (hall post' hpost)
  | recorded row now hrow hd hp => exact h.later hg hp fun _ hd' => List.mem_cons_of_mem _ hd'
  | unrecorded c hl' hu hd hp => exact h.later hg hp fun _ hd' => List.mem_cons_of_mem _ hd'
  | killed hl' hd hp => exact h.later hg hp (by simp [Phase.todo])

/-- CORRECT (run): once the deletion of endpoint `e` has been answered and the worker is between two
    ticks, no later tick posts for `e`, as long as no tick's query finds a delivery that is due for
    an inactive endpoint. -/
theorem deleted_endpoint_spared {σ σ' : Sys} {p : Pid} {e b : Uuid} (h : σ.Reachable)
    (hdone : σ.completed p = some (.call (.delete_endpoint e b)))
    (hrest : σ.head .webhook_worker = none) (hrun : Sys.Run Sys.Cleared σ σ') :
    ∃ new, σ'.world.posts = new ++ σ.world.posts ∧
      ∀ post ∈ new, σ'.db.Elsewhere e post.delivery_id := by
  obtain ⟨x, hx, -⟩ := Sys.At.initial.run (motive := fun _ _ => True) .initial h trivial
    fun _ _ _ _ _ _ _ _ _ _ _ => trivial
  obtain rfl := hx.rest hrest
  obtain ⟨r, hp⟩ := Sys.procs_of_completed hdone
  have hdel : σ.db.Deleted e := (h.inv.safe _ _ _ hp).2
  have hbase : Spared e σ.world.posts σ.world [] := ⟨hdel, ⟨[], rfl, by simp⟩, by simp⟩
  obtain ⟨x', -, hs⟩ := hx.run (motive := fun σ' x => Spared e σ.world.posts σ'.world x.todo)
    h.inv hrun hbase fun τ l τ' y y' hinv hy hl hstep ht hs => by
      refine hs.turn (hinv.happens .any hstep).grows hl (fun c hc => ?_) ht
      subst hc
      obtain ⟨e, r, hexec, -⟩ := Sys.exec_of_step hstep
      exact World.act_now hexec
  exact hs.posts

/-- Delivery 60 has failed once and waits for its retry when endpoint 50 is deleted, and the next
    tick comes before the retry is due. -/
def deleted_between : List Sys.Label :=
  Sys.notified ++ [.webhook_tick] ++ Sys.go .webhook_worker 4 ++
  [.arrive 5 (.delete_endpoint 50 1)] ++ Sys.go (.call 5) 1

theorem deleted_endpoint_spared_waiting : ∃ σ ∈ Sys.initial.steps deleted_between,
    ∃ σ' ∈ σ.steps ([.webhook_tick] ++ Sys.go .webhook_worker 1), ∃ new,
      σ'.world.posts = new ++ σ.world.posts ∧
        ∀ post ∈ new, σ'.db.Elsewhere 50 post.delivery_id := by
  obtain ⟨σ, hσ, hdone, hrest, σ', hσ', hok⟩ : ∃ σ ∈ Sys.initial.steps deleted_between,
    σ.completed (.call 5) = some (.call (.delete_endpoint 50 1)) ∧
    (σ.head .webhook_worker).isNone = true ∧
    ∃ σ' ∈ σ.steps ([.webhook_tick] ++ Sys.go .webhook_worker 1),
      σ.Allowed Sys.Cleared ([.webhook_tick] ++ Sys.go .webhook_worker 1) := by decide +kernel
  exact ⟨σ, hσ, σ', hσ', deleted_endpoint_spared (Sys.reachable_of_steps hσ) hdone
    (Option.isNone_iff_eq_none.mp hrest) (Sys.run_of_steps hσ' hok)⟩

/-- The same with a tick after the retry has become due. -/
def called_after : List Sys.Label :=
  [.webhook_tick, .exec .webhook_worker { Sys.calm with elapsed := 60000000 }] ++
  Sys.go .webhook_worker 2

theorem deleted_endpoint_called : ¬∀ (σ σ' : Sys) (p : Pid) (e b : Uuid), σ.Reachable →
    σ.completed p = some (.call (.delete_endpoint e b)) → σ.head .webhook_worker = none →
    Sys.Run (fun _ _ => True) σ σ' → ∃ new, σ'.world.posts = new ++ σ.world.posts ∧
      ∀ post ∈ new, σ'.db.Elsewhere e post.delivery_id := by
  obtain ⟨σ, hσ, hdone, hrest, hlen, σ', hσ', hlen', hposts, hrow⟩ :
    ∃ σ ∈ Sys.initial.steps deleted_between,
      σ.completed (.call 5) = some (.call (.delete_endpoint 50 1)) ∧
      (σ.head .webhook_worker).isNone = true ∧ σ.world.posts.length = 1 ∧
      ∃ σ' ∈ σ.steps called_after, σ'.world.posts.length = 2 ∧
        (∀ post ∈ σ'.world.posts, post.delivery_id = 60) ∧
        ∀ row ∈ σ'.db.delivery 60, row.webhook_endpoint_id = 50 := by decide +kernel
  intro h
  obtain ⟨new, hnew, hall⟩ := h σ σ' _ 50 1 (Sys.reachable_of_steps hσ) hdone
    (Option.isNone_iff_eq_none.mp hrest) (Sys.run_of_steps hσ' (Sys.Allowed.always _ _))
  rw [hnew, List.length_append, hlen] at hlen'
  obtain ⟨post, hpost⟩ := List.exists_mem_of_length_pos (show 0 < new.length by omega)
  obtain ⟨row, hrow', hne⟩ := hall post hpost
  rw [hposts post (hnew ▸ List.mem_append_left _ hpost)] at hrow'
  exact hne (hrow row hrow')

end Payman
