import Payman.Safety.Deliveries

/-! The life cycle of a webhook delivery.

    `Life` is the retry policy on its own: a delivery is pending until a POST succeeds or the fifth
    one fails. Every delivery's row is in step with the POSTs that were made for it, as long as each
    status update reaches the database. -/

namespace Payman
open Schemes

/-! ### The retry policy -/

/-- The status of a delivery by the outcomes of its POSTs, latest first. -/
inductive Life : List Bool → DeliveryStatus → Prop where
  | queued : Life [] .pending
  | delivered {os : List Bool} (h : Life os .pending) : Life (true :: os) .delivered
  | retry {os : List Bool} (h : Life os .pending) (hn : os.length < 4) : Life (false :: os) .pending
  | failed {os : List Bool} (h : Life os .pending) (hn : os.length = 4) : Life (false :: os) .failed

/-- A pending delivery has failed fewer than five times. -/
theorem Life.pending {os : List Bool} {s : DeliveryStatus} (h : Life os s) (hs : s = .pending) :
    os.length < 5 ∧ ∀ ok ∈ os, ok = false := by
  induction h with
  | queued => exact ⟨by decide, by simp⟩
  | delivered => cases hs
  | failed => cases hs
  | @retry os h hn ih => exact ⟨by simp; omega, List.forall_mem_cons.mpr ⟨rfl, (ih rfl).2⟩⟩

/-- What the API documents of a delivery's status, count and POSTs. -/
structure Documented (s : DeliveryStatus) (count : Int) (os : List Bool) : Prop where
  count : count = os.length
  limit : os.length ≤ 5
  delivered : s = .delivered ↔ os.count true = 1 ∧ os.head? = some true
  failed : s = .failed ↔ os.length = 5 ∧ ∀ ok ∈ os, ok = false
  pending : s = .pending ↔ os.length < 5 ∧ ∀ ok ∈ os, ok = false

theorem Life.documented {os : List Bool} {s : DeliveryStatus} (h : Life os s) :
    Documented s os.length os := by
  have hcount : ∀ {l : List Bool}, (∀ ok ∈ l, ok = false) → l.count true = 0 := fun hl =>
    List.count_eq_zero.mpr fun ht => by cases hl true ht
  cases h with
  | queued => exact ⟨rfl, by decide, by simp, by simp, by simp⟩
  | @delivered os h =>
    obtain ⟨hlen, hall⟩ := h.pending rfl
    refine ⟨rfl, by simp; omega, ?_, ?_, ?_⟩
    · simp [hcount hall]
    · simp
    · simp
  | @retry os h hn =>
    have hall := (h.pending rfl).2
    refine ⟨rfl, by simp; omega, by simp, ?_, ?_⟩
    · simp; omega
    · simp; exact ⟨by omega, by simpa using hall⟩
  | @failed os h hn =>
    have hall := (h.pending rfl).2
    refine ⟨rfl, by simp; omega, by simp, ?_, ?_⟩
    · simp [hn]; simpa using hall
    · simp; omega

/-! ### Rows and POSTs -/

/-- The outcomes of the POSTs made for delivery `d`, latest first. -/
def World.outcomes (w : World) (d : Uuid) : List Bool :=
  (w.posts.filter fun post => decide (post.delivery_id = d)).map fun post => delivered post.answer

/-- The outcomes without the latest one if it is still to be recorded. -/
def World.recorded (w : World) (reporting : Option Uuid) (d : Uuid) : List Bool :=
  if reporting = some d then (w.outcomes d).tail else w.outcomes d

/-- The delivery whose POST is made and not recorded. -/
def Phase.reporting : Phase → Option Uuid
  | .posted d _ _ => some d
  | _ => none

/-- Rows and POSTs are in step. -/
structure Tally (w : World) (x : Phase) : Prop where
  known : ∀ post ∈ w.posts, ∃ row, w.db.delivery post.delivery_id = some row
  life : ∀ d row, w.db.delivery d = some row → Life (w.recorded x.reporting d) row.status ∧
    row.attempt_count.toInt = (w.recorded x.reporting d).length
  nodup : x.todo.Nodup
  pending : ∀ d ∈ x.todo, ∃ row, w.db.delivery d = some row ∧ row.status = .pending
  latest : ∀ d ok l, x = .posted d ok l → ∃ os, w.outcomes d = ok :: os

section
variable {w w' : World} {x : Phase} {d : Uuid}

theorem World.outcomes_of_eq (hp : w'.posts = w.posts) (d : Uuid) :
    w'.outcomes d = w.outcomes d := by rw [outcomes, outcomes, hp]

theorem World.outcomes_cons {post : Post} (hp : w'.posts = post :: w.posts) (d : Uuid) :
    w'.outcomes d = if post.delivery_id = d then delivered post.answer :: w.outcomes d
      else w.outcomes d := by
  rw [outcomes, outcomes, hp, List.filter_cons]
  by_cases hd : post.delivery_id = d <;> simp [hd]

theorem World.outcomes_of_unknown (h : ∀ post ∈ w.posts, post.delivery_id ≠ d) :
    w.outcomes d = [] := by
  rw [outcomes, List.filter_eq_nil_iff.mpr fun post hpost => by simpa using h post hpost]
  rfl

theorem World.recorded_of_eq (hp : w'.posts = w.posts) (o : Option Uuid) (d : Uuid) :
    w'.recorded o d = w.recorded o d := by rw [recorded, recorded, outcomes_of_eq hp]

@[simp] theorem World.recorded_none (w : World) (d : Uuid) : w.recorded none d = w.outcomes d :=
  if_neg (by simp)

@[simp] theorem World.recorded_self (w : World) (d : Uuid) :
    w.recorded (some d) d = (w.outcomes d).tail := if_pos rfl

theorem World.recorded_ne {d' : Uuid} (h : d ≠ d') : w.recorded (some d') d = w.outcomes d :=
  if_neg (by simpa using h.symm)

/-- Nothing has happened to deliveries and POSTs, and the worker has moved on to `x'`. -/
theorem Tally.moved {x' : Phase} (h : Tally w x)
    (hd : w'.db.webhook_deliveries = w.db.webhook_deliveries) (hp : w'.posts = w.posts)
    (hx : x' = x ∨ (x.reporting = none ∧ x'.reporting = none)) (hnd : x'.todo.Nodup)
    (hpending : ∀ d ∈ x'.todo, ∃ row, w.db.delivery d = some row ∧ row.status = .pending) :
    Tally w' x' where
  known := fun post hpost => by
    rw [Db.delivery, hd]
    exact h.known post (hp ▸ hpost)
  life := fun d row hrow => by
    have hrep : x'.reporting = x.reporting := by
      rcases hx with rfl | ⟨hx, hx'⟩
      · rfl
      · rw [hx, hx']
    rw [Db.delivery, hd] at hrow
    rw [World.recorded_of_eq hp, hrep]
    exact h.life d row hrow
  nodup := hnd
  pending := fun d hd' => by
    rw [Db.delivery, hd]
    exact hpending d hd'
  latest := fun d ok l hx' => by
    rw [World.outcomes_of_eq hp]
    rcases hx with rfl | ⟨-, hx⟩
    · exact h.latest d ok l hx'
    · rw [hx'] at hx
      cases hx

/-- A new delivery has no POSTs. -/
theorem Tally.queued (h : Tally w x) {row : WebhookDelivery} (hfresh : w.db.delivery row.id = none)
    (hs : row.status = .pending) (hn : row.attempt_count = 0)
    (hd : w'.db.webhook_deliveries = w.db.webhook_deliveries.put row) (hp : w'.posts = w.posts) :
    Tally w' x := by
  have hold : ∀ {d r}, w.db.delivery d = some r → w'.db.delivery d = some r := by
    intro d r hr
    rw [Db.delivery, hd, Table.find_put, if_neg]
    · exact hr
    · rintro rfl
      cases hfresh.symm.trans hr
  have hnone : w.outcomes row.id = [] := World.outcomes_of_unknown fun post hpost heq => by
    obtain ⟨r, hr⟩ := h.known post hpost
    rw [heq, hfresh] at hr
    cases hr
  refine ⟨fun post hpost => ?_, fun d r hr => ?_, h.nodup, fun d hd' => ?_, fun d ok l hx => ?_⟩
  · obtain ⟨r, hr⟩ := h.known post (hp ▸ hpost)
    exact ⟨r, hold hr⟩
  · rw [World.recorded_of_eq hp]
    rw [Db.delivery, hd, Table.find_put] at hr
    split at hr
    · rename_i hid
      obtain rfl := Option.some.inj hr
      have hrec : w.recorded x.reporting d = [] := by
        rw [World.recorded, ← hid, key_delivery, hnone, List.tail_nil, ite_self]
      rw [hrec, hs, hn]
      exact ⟨.queued, rfl⟩
    · exact h.life d r hr
  · obtain ⟨r, hr, hrs⟩ := h.pending d hd'
    exact ⟨r, hold hr, hrs⟩
  · rw [World.outcomes_of_eq hp]
    exact h.latest d ok l hx

/-- A POST is made and not recorded yet. -/
theorem Tally.posted {l : List Uuid} {post : Post} (h : Tally w (.batch (post.delivery_id :: l)))
    (hd : w'.db.webhook_deliveries = w.db.webhook_deliveries) (hp : w'.posts = post :: w.posts) :
    Tally w' (.posted post.delivery_id (delivered post.answer) l) := by
  obtain ⟨row₀, hrow₀, -⟩ := h.pending _ (List.mem_cons_self ..)
  refine ⟨fun post' hpost => ?_, fun d row hrow => ?_, h.nodup, fun d hd' => ?_,
    fun d ok l hx => ?_⟩
  · rw [Db.delivery, hd]
    rcases List.mem_cons.mp (hp ▸ hpost) with rfl | hpost
    · exact ⟨row₀, hrow₀⟩
    · exact h.known post' hpost
  · rw [Db.delivery, hd] at hrow
    have hrec : w'.recorded (some post.delivery_id) d = w.recorded none d := by
      rw [World.recorded_none]
      by_cases hid : d = post.delivery_id
      · subst hid
        rw [World.recorded_self, World.outcomes_cons hp, if_pos rfl, List.tail_cons]
      · rw [World.recorded_ne hid, World.outcomes_cons hp, if_neg (Ne.symm hid)]
    have hlife := h.life d row hrow
    rw [show (Phase.posted _ _ _).reporting = some post.delivery_id from rfl, hrec]
    exact hlife
  · rw [Db.delivery, hd]
    exact h.pending d hd'
  · cases hx
    exact ⟨_, (World.outcomes_cons hp _).trans (if_pos rfl)⟩

/-- One more POST, and what the status update makes of the row. -/
theorem Life.reported {os : List Bool} {row : WebhookDelivery} {ok : Bool} {now : DateTime}
    (h : Life os row.status) (hn : row.attempt_count.toInt = os.length)
    (hs : row.status = .pending) : Life (ok :: os) (row.reported now ok).status ∧
      (row.reported now ok).attempt_count.toInt = (ok :: os).length := by
  have hlen := (h.pending hs).1
  have hsucc : (row.attempt_count + 1).toInt = row.attempt_count.toInt + 1 := by
    rw [Int32.toInt_add, Int.bmod_eq_of_le] <;> simp <;> omega
  rw [hs] at h
  refine ⟨?_, by rw [WebhookDelivery.reported_count, hsucc, hn]; rfl⟩
  cases ok with
  | true => exact .delivered h
  | false =>
    have hcase : row.attempt_count ≥ 4 ↔ 4 ≤ os.length := by
      rw [ge_iff_le, Int32.le_iff_toInt_le, hn, show (4 : Int32).toInt = 4 from rfl]
      omega
    by_cases h4 : row.attempt_count ≥ 4
    · have hstatus : (row.reported now false).status = .failed := if_pos h4
      rw [hstatus]
      rw [hcase] at h4
      exact .failed h (by omega)
    · have hstatus : (row.reported now false).status = .pending := if_neg h4
      rw [hstatus]
      rw [hcase] at h4
      exact .retry h (by omega)

/-- The POST is recorded. -/
theorem Tally.recorded {l : List Uuid} {ok : Bool} {row : WebhookDelivery} {now : DateTime}
    (h : Tally w (.posted d ok l)) (hrow : w.db.delivery d = some row)
    (hd : w'.db.webhook_deliveries = w.db.webhook_deliveries.put (row.reported now ok))
    (hp : w'.posts = w.posts) : Tally w' (.batch l) := by
  have hid : (row.reported now ok).id = d :=
    (row.reported_id now ok).trans (Db.id_of_delivery hrow)
  have hself : w'.db.delivery d = some (row.reported now ok) := by
    rw [Db.delivery, hd, Table.find_put, key_delivery, if_pos hid]
  have hother : ∀ {d'}, d' ≠ d → w'.db.delivery d' = w.db.delivery d' := by
    intro d' hne
    rw [Db.delivery, hd]
    refine Table.find_put_ne _ fun hk => hne ?_
    rw [← hk, key_delivery, hid]
  have hnd := List.nodup_cons.mp h.nodup
  obtain ⟨row', hrow', hs⟩ := h.pending d (List.mem_cons_self ..)
  obtain rfl := Option.some.inj (hrow.symm.trans hrow')
  obtain ⟨os, hos⟩ := h.latest d ok l rfl
  have hrec : w.recorded (some d) d = os := by
    rw [World.recorded_self, hos, List.tail_cons]
  refine ⟨fun post hpost => ?_, fun d' row' hr => ?_, hnd.2, fun d' hd' => ?_,
    fun _ _ _ h => by cases h⟩
  · by_cases hpd : post.delivery_id = d
    · exact ⟨_, hpd ▸ hself⟩
    · rw [hother hpd]
      exact h.known post (hp ▸ hpost)
  · by_cases hdd : d' = d
    · subst hdd
      obtain rfl := Option.some.inj (hself.symm.trans hr)
      have hlife := h.life d' row hrow
      rw [show (Phase.posted d' ok l).reporting = some d' from rfl, hrec] at hlife
      have hnew : w'.recorded (Phase.batch l).reporting d' = ok :: os := by
        rw [World.recorded_of_eq hp]
        exact (World.recorded_none w d').trans hos
      rw [hnew]
      exact hlife.1.reported hlife.2 hs
    · rw [hother hdd] at hr
      have hlife := h.life d' row' hr
      have hnew : w'.recorded (Phase.batch l).reporting d' =
          w.recorded (Phase.posted d ok l).reporting d' := by
        rw [World.recorded_of_eq hp]
        exact (World.recorded_none w d').trans (World.recorded_ne hdd).symm
      rw [hnew]
      exact hlife
  · have hne : d' ≠ d := by
      rintro rfl
      exact hnd.1 hd'
    rw [hother hne]
    exact h.pending d' (List.mem_cons_of_mem _ hd')

end

/-! ### Runs in which every status update reaches the database -/

/-- The delivery whose POST is made and whose status update the worker issues next. -/
def Sys.reporting (σ : Sys) : Option Uuid :=
  match σ.head .webhook_worker with
  | some (.sql (.mark_delivered d)) => some d
  | some (.sql (.schedule_redelivery d)) => some d
  | _ => none

/-- The outcomes of the POSTs for `d` that have been recorded, latest first: all of them, but for
    the one whose status update comes next. -/
def Sys.recorded (σ : Sys) (d : Uuid) : List Bool := σ.world.recorded σ.reporting d

/-- A status update of the webhook worker does not fail, and the worker is not killed before it. -/
def Sys.Reports (σ : Sys) : Label → Prop
  | .exec .webhook_worker c => σ.reporting ≠ none → c.fail = false
  | .kill .webhook_worker => σ.reporting = none
  | _ => True

instance (σ : Sys) : ∀ l, Decidable (σ.Reports l)
  | .exec .webhook_worker c => inferInstanceAs (Decidable (σ.reporting ≠ none → c.fail = false))
  | .kill .webhook_worker => inferInstanceAs (Decidable (σ.reporting = none))
  | .exec (.call _) _ | .exec (.task _) _ | .exec .worker _ | .kill (.call _) | .kill (.task _)
  | .kill .worker | .arrive .. | .background _ | .tick | .webhook_tick => isTrue trivial

theorem Sys.At.reporting {σ : Sys} {x : Phase} (h : σ.At x) : σ.reporting = x.reporting := by
  cases x with
  | posted d ok l =>
    rw [Sys.reporting, h.head_posted]
    cases ok <;> rfl
  | begun | batch =>
    unfold Sys.reporting
    split
    · rename_i hhead
      obtain ⟨x', hstep⟩ := h.next hhead (.error .Connection)
      cases hstep
    · rename_i hhead
      obtain ⟨x', hstep⟩ := h.next hhead (.error .Connection)
      cases hstep
    · rfl

/-- A pending delivery has been posted fewer than five times, so its update is not refused. -/
theorem Tally.not_unrecorded {σ : Sys} {c : Choice} {d : Uuid} {ok : Bool} {todo : List Uuid}
    (h : Tally σ.world (.posted d ok todo)) (hx : σ.At (.posted d ok todo))
    (hl : σ.Reports (.exec .webhook_worker c)) : ¬Unrecorded c σ.db d := by
  rintro (hfail | hmax)
  · have hrep : σ.reporting ≠ none := by
      rw [hx.reporting]
      exact Option.some_ne_none d
    rw [hl hrep] at hfail
    cases hfail
  · obtain ⟨row, hrow, hs⟩ := h.pending d (List.mem_cons_self ..)
    obtain ⟨hlife, hn⟩ := h.life d row hrow
    have hlen := (hlife.pending hs).1
    rw [hmax row hrow, show Int32.maxValue.toInt = 2147483647 from rfl] at hn
    omega

/-- CORRECT (step): a turn keeps rows and POSTs in step if its status update is made. -/
theorem Tally.turn {σ σ' : Sys} {l : Sys.Label} {x x' : Phase} (h : Tally σ.world x) (hx : σ.At x)
    (hl : σ.Reports l) (ht : Turn σ l σ' x x') : Tally σ'.world x' := by
  cases ht with
  | idle hd hp => exact h.moved hd hp (.inl rfl) h.nodup h.pending
  | queued row hfresh hs hn hd hp => exact h.queued hfresh hs hn hd hp
  | begun hdone hd hp =>
    cases hdone
    exact h.moved hd hp (.inr ⟨rfl, rfl⟩) List.nodup_nil (by simp [Phase.todo])
  | selected c hl' hhead hnd hdue hd hp =>
    refine h.moved hd hp (.inr ⟨rfl, rfl⟩) hnd fun d hd' => ?_
    obtain ⟨row, hrow, hs, -⟩ := hdue d hd'
    exact ⟨row, hrow, hs⟩
  | missed hd hp => exact h.moved hd hp (.inr ⟨rfl, rfl⟩) List.nodup_nil (by simp [Phase.todo])
  | posted post hid hd hp =>
    subst hid
    exact h.posted hd hp
  | recorded row now hrow hd hp => exact h.recorded hrow hd hp
  | @unrecorded d ok todo c hl' hu hd hp =>
    subst hl'
    exact absurd hu (h.not_unrecorded hx hl)
  | killed hl' hd hp =>
    subst hl'
    have hrep : x.reporting = none := hx.reporting.symm.trans hl
    exact h.moved hd hp (.inr ⟨hrep, rfl⟩) List.nodup_nil (by simp [Phase.todo])

theorem Tally.initial : Tally World.initial (.batch []) :=
  ⟨by simp [World.initial], fun _ _ h => (by cases h), List.nodup_nil, by simp [Phase.todo],
    fun _ _ _ h => (by cases h)⟩

/-- CORRECT (run): rows and POSTs are in step throughout. -/
theorem Tally.run {σ : Sys} (h : Sys.Run Sys.Reports .initial σ) :
    ∃ x, σ.At x ∧ Tally σ.world x :=
  Sys.At.initial.run (motive := fun σ x => Tally σ.world x) .initial h .initial
    fun _ _ _ _ _ _ hx hl _ ht h => h.turn hx hl ht

/-- CORRECT (life cycle): in every run in which each status update reaches the database, the status
    and the count of every delivery are what its POSTs make them, and only a pending delivery is
    posted. -/
theorem delivery_life_cycle {σ : Sys} (h : Sys.Run Sys.Reports .initial σ) :
    (∀ d row, σ.db.delivery d = some row →
      Documented row.status row.attempt_count.toInt (σ.recorded d)) ∧
    ∀ l σ' post, σ.step l = some σ' → σ'.world.posts = post :: σ.world.posts →
      ∃ row, σ.db.delivery post.delivery_id = some row ∧ row.status = .pending := by
  obtain ⟨x, hx, ht⟩ := Tally.run h
  refine ⟨fun d row hrow => ?_, fun l σ' post hstep hp => ?_⟩
  · obtain ⟨hlife, hn⟩ := ht.life d row hrow
    rw [Sys.recorded, hx.reporting, hn]
    exact hlife.documented
  · obtain ⟨x', -, hturn⟩ := hx.turn (Sys.Run.reachable h).inv .any hstep
    have hquiet : σ'.world.posts ≠ σ.world.posts := by
      rw [hp]
      exact List.cons_ne_self _ _
    cases hturn with
    | posted post' hid _ hp' =>
      obtain rfl := (List.cons.inj (hp.symm.trans hp')).1
      exact ht.pending _ (hid ▸ List.mem_cons_self ..)
    | idle _ hq | queued _ _ _ _ _ hq | begun _ _ hq | selected _ _ _ _ _ _ hq | missed _ hq
    | recorded _ _ _ _ hq | unrecorded _ _ _ _ hq | killed _ _ hq => exact absurd hq hquiet

/-- The first POST fails and the second one succeeds. -/
def retried : List Sys.Label :=
  Sys.notified ++ [.webhook_tick] ++ Sys.go .webhook_worker 2 ++
  Sys.answered .webhook_worker (.response 500 none) ++ Sys.go .webhook_worker 1 ++
  [.webhook_tick, .exec .webhook_worker { Sys.calm with elapsed := 60000000 }] ++
  Sys.go .webhook_worker 1 ++ Sys.answered .webhook_worker (.response 200 none) ++
  Sys.go .webhook_worker 1

theorem delivery_life_cycle_retried : ∃ σ ∈ Sys.initial.steps retried,
    (∃ row ∈ σ.db.delivery 60, row.status = .delivered ∧ σ.recorded 60 = [true, false]) ∧
    ∀ d row, σ.db.delivery d = some row →
      Documented row.status row.attempt_count.toInt (σ.recorded d) := by
  obtain ⟨σ, hσ, hok, hrow⟩ : ∃ σ ∈ Sys.initial.steps retried,
    Sys.initial.Allowed Sys.Reports retried ∧ ∃ row ∈ σ.db.delivery 60,
      row.status = .delivered ∧ σ.recorded 60 = [true, false] := by decide +kernel
  exact ⟨σ, hσ, hrow, (delivery_life_cycle (Sys.run_of_steps hσ hok)).1⟩

end Payman
