import Mathlib.Algebra.Ring.Int.Defs
import Payman.Claims.Endpoints
import Payman.Claims.Retries

/-! The distance between two POSTs of one delivery.

    The retry is due 2 ^ (k - 1) minutes after the `k`-th failure, because the update that counts the
    failure takes the power of the count from before; the API documents 2 ^ k minutes. The documented
    distance is kept by a worker whose queries come so late that they would keep it anyway. -/

namespace Payman
open Schemes

/-- `2^attempt_count minutes`, the formula of the API. -/
def documented_delay (attempt_count : ℕ) : DateTime := minute * 2 ^ attempt_count

/-- The step makes the `k`-th POST for delivery `d`. -/
def Sys.MakesPost (d : Uuid) (k : ℕ) (σ σ' : Sys) : Prop :=
  (σ'.world.outcomes d).length = k ∧ (σ.world.outcomes d).length + 1 = k

instance (d : Uuid) (k : ℕ) (σ σ' : Sys) : Decidable (σ.MakesPost d k σ') :=
  inferInstanceAs (Decidable (_ ∧ _))

/-- When the worker asks for due deliveries, what has failed before is not due before the documented
    delay is over. -/
def Sys.Rested (σ : Sys) : Label → Prop
  | .exec .webhook_worker c => σ.querying = true → ∀ row ∈ σ.db.webhook_deliveries.rows,
    row.status = .pending → (∃ t ∈ row.next_retry_at, t ≤ σ.world.now + c.elapsed) →
      row.attempt_count ≠ 0 →
        row.updated_at + documented_delay row.attempt_count.toInt.toNat ≤ σ.world.now + c.elapsed
  | _ => True

instance (σ : Sys) : ∀ l, Decidable (σ.Rested l)
  | .exec .webhook_worker c => inferInstanceAs (Decidable (σ.querying = true →
    ∀ row ∈ σ.db.webhook_deliveries.rows, row.status = .pending →
      (∃ t ∈ row.next_retry_at, t ≤ σ.world.now + c.elapsed) → row.attempt_count ≠ 0 →
        row.updated_at + documented_delay row.attempt_count.toInt.toNat ≤
          σ.world.now + c.elapsed))
  | .exec (.call _) _ | .exec (.task _) _ | .exec .worker _ | .kill _ | .arrive .. | .background _
  | .tick | .webhook_tick => isTrue trivial

/-- Every status update reaches the database, and every retry is late enough. -/
def Sys.Spaced (σ : Sys) (l : Sys.Label) : Prop := σ.Reports l ∧ σ.Rested l

instance (σ : Sys) (l : Sys.Label) : Decidable (σ.Spaced l) := inferInstanceAs (Decidable (_ ∧ _))

/-- The deliveries of the batch that are not posted yet. -/
def Phase.waiting : Phase → List Uuid
  | .begun => []
  | .batch todo | .posted _ _ todo => todo

/-- Since the `k`-th POST for `d` was made at `t`, its row has been updated, unless that comes next,
    and the worker holds `d` only if the documented delay is over. -/
structure Cooling (d : Uuid) (k : ℕ) (t : DateTime) (w : World) (x : Phase) : Prop where
  clock : t ≤ w.now
  row : ∀ row, w.db.delivery d = some row → x.reporting ≠ some d → t ≤ row.updated_at
  waiting : d ∈ x.waiting → t + documented_delay k ≤ w.now

section
variable {d : Uuid} {k : ℕ} {t : DateTime} {w w' : World} {x x' : Phase}

/-- Time passes, and the row stays as it was. -/
theorem Cooling.later (h : Cooling d k t w x) (hnow : w.now ≤ w'.now)
    (hrow : ∀ row, w'.db.delivery d = some row → x'.reporting ≠ some d →
      w.db.delivery d = some row ∧ x.reporting ≠ some d)
    (hx : d ∈ x'.waiting → d ∈ x.waiting) : Cooling d k t w' x' where
  clock := Int.le_trans h.clock hnow
  row := fun row hr hrep => h.row row (hrow row hr hrep).1 (hrow row hr hrep).2
  waiting := fun hd => Int.le_trans (h.waiting (hx hd)) hnow

/-- CORRECT (step): a turn lets the delivery cool until its next POST. -/
theorem Cooling.turn {σ σ' : Sys} {l : Sys.Label} (h : Cooling d k t σ.world x)
    (htally : Tally σ.world x) (hx : σ.At x) (hinv : Inv .any σ) (hl : σ.Spaced l)
    (hstep : σ.step l = some σ') (ht : Turn σ l σ' x x') (hk : (σ.world.outcomes d).length = k)
    (hpos : 0 < k) (hk' : (σ'.world.outcomes d).length = k) : Cooling d k t σ'.world x' := by
  have hclock := Sys.clock_of_step hstep
  have hsame : σ'.db.webhook_deliveries = σ.db.webhook_deliveries →
      ∀ {row}, σ'.db.delivery d = some row → σ.db.delivery d = some row := by
    intro hd row hr
    rwa [Db.delivery, hd] at hr
  have hput : ∀ {new : WebhookDelivery}, new.id ≠ d →
      σ'.db.webhook_deliveries = σ.db.webhook_deliveries.put new →
      ∀ {row}, σ'.db.delivery d = some row → σ.db.delivery d = some row := by
    intro new hne hd row hr
    rwa [Db.delivery, hd, Table.find_put_ne _ hne] at hr
  have hquiet : (none : Option Uuid) ≠ some d := (Option.some_ne_none d).symm
  have hnone : d ∈ ([] : List Uuid) → d ∈ x.waiting := fun hmem => absurd hmem List.not_mem_nil
  cases ht with
  | idle hd hp => exact h.later hclock (fun row hr hrep => ⟨hsame hd hr, hrep⟩) id
  | queued new hfresh hs hn hd hp =>
    -- the delivery that was posted is there already
    have hne : new.id ≠ d := by
      rintro rfl
      have hnone : σ.world.outcomes new.id = [] := World.outcomes_of_unknown fun post hpost heq => by
        obtain ⟨r, hr⟩ := htally.known post hpost
        rw [heq, hfresh] at hr
        cases hr
      rw [hnone, List.length_nil] at hk
      omega
    exact h.later hclock (fun row hr hrep => ⟨hput hne hd hr, hrep⟩) id
  | begun hdone hd hp =>
    cases hdone
    exact h.later hclock (fun row hr _ => ⟨hsame hd hr, hquiet⟩) hnone
  | @selected todo c hl' hhead hnd hdue hd hp =>
    refine ⟨Int.le_trans h.clock hclock, fun row hr _ => h.row row (hsame hd hr) hquiet, ?_⟩
    intro hmem
    obtain ⟨row, hrow, hs, t', ht', hle⟩ := hdue d hmem
    subst hl'
    obtain ⟨e, r, hexec, -⟩ := Sys.exec_of_step hstep
    have hnow : σ'.world.now = σ.world.now + c.elapsed := World.act_now hexec
    have hcount : row.attempt_count.toInt = k := by
      rw [(htally.life d row hrow).2, ← hk]
      exact congrArg _ (congrArg _ (World.recorded_none ..))
    have hne : row.attempt_count ≠ 0 := by
      intro h0
      rw [h0] at hcount
      have : (0 : Int) = k := hcount
      omega
    have hquery : σ.querying = true := by rw [Sys.querying, hhead]
    have hrested := hl.2 hquery row (Table.mem_of_find hrow) hs ⟨t', ht', hnow ▸ hle⟩ hne
    rw [hcount, Int.toNat_natCast] at hrested
    rw [hnow]
    exact Int.le_trans (Int.add_le_add_right (h.row row hrow hquiet) _) hrested
  | missed hd hp => exact h.later hclock (fun row hr _ => ⟨hsame hd hr, hquiet⟩) hnone
  | @posted d' todo post hid hd hp =>
    have hne : d' ≠ d := by
      rintro rfl
      rw [World.outcomes_cons hp, if_pos hid, List.length_cons] at hk'
      omega
    exact h.later hclock (fun row hr _ => ⟨hsame hd hr, hquiet⟩) (List.mem_cons_of_mem _)
  | @recorded d' ok todo old now hold hd hp =>
    have hid : (old.reported now ok).id = d' := (old.reported_id now ok).trans (Db.id_of_delivery hold)
    by_cases hdd : d' = d
    · subst hdd
      refine ⟨Int.le_trans h.clock hclock, fun row hr _ => ?_, fun hmem => ?_⟩
      · have hnew : σ'.db.delivery d' = some (old.reported now ok) := by
          rw [Db.delivery, hd, Table.find_put, key_delivery, if_pos hid]
        rcases hx.report_now hinv hstep hold with hstay | hnow
        · have heq := Option.some.inj (hstay.symm.trans hnew)
          have hcount := congrArg WebhookDelivery.attempt_count heq
          rw [WebhookDelivery.reported_count] at hcount
          exact absurd hcount (Stmt.ne_succ _)
        · obtain rfl := Option.some.inj (hr.symm.trans hnow)
          have hup : (old.reported σ'.world.now ok).updated_at = σ'.world.now := by
            cases ok <;> rfl
          rw [hup]
          exact Int.le_trans h.clock hclock
      · exact absurd hmem (List.nodup_cons.mp htally.nodup).1
    · refine h.later hclock (fun row hr _ => ⟨hput (hid ▸ hdd) hd hr, ?_⟩) id
      exact fun heq => hdd (Option.some.inj heq)
  | unrecorded c hl' hu hd hp =>
    subst hl'
    exact absurd hu (htally.not_unrecorded hx hl.1)
  | killed hl' hd hp =>
    subst hl'
    have hrep : x.reporting = none := hx.reporting.symm.trans hl.1
    exact h.later hclock (fun row hr _ => ⟨hsame hd hr, hrep ▸ hquiet⟩) hnone

/-! ### Two POSTs in a row -/

/-- What was posted stays posted. -/
theorem Turn.outcomes_le {σ σ' : Sys} {l : Sys.Label} (ht : Turn σ l σ' x x') (d : Uuid) :
    (σ.world.outcomes d).length ≤ (σ'.world.outcomes d).length := by
  cases ht with
  | posted post hid hd hp =>
    rw [World.outcomes_cons hp]
    split <;> simp
  | idle _ hp | queued _ _ _ _ _ hp | begun _ _ hp | selected _ _ _ _ _ _ hp | missed _ hp
  | recorded _ _ _ _ hp | unrecorded _ _ _ _ hp | killed _ _ hp =>
    exact Nat.le_of_eq (congrArg List.length (World.outcomes_of_eq hp d).symm)

/-- A POST for `d` is made when `d` is the next delivery of the batch. -/
theorem Sys.MakesPost.turn {σ σ' : Sys} {l : Sys.Label} (h : σ.MakesPost d k σ')
    (ht : Turn σ l σ' x x') : ∃ ok todo, x = .batch (d :: todo) ∧ x' = .posted d ok todo := by
  have hquiet : σ'.world.posts ≠ σ.world.posts := by
    intro hp
    have heq := congrArg List.length (World.outcomes_of_eq hp d)
    have hmade := h.1.trans h.2.symm
    omega
  cases ht with
  | @posted d' todo post hid hd hp =>
    by_cases hdd : d' = d
    · subst hdd
      exact ⟨_, _, rfl, rfl⟩
    · have heq : σ'.world.outcomes d = σ.world.outcomes d :=
        (World.outcomes_cons hp d).trans (if_neg (hid ▸ hdd))
      have hmade := h.1.trans h.2.symm
      rw [heq] at hmade
      omega
  | idle _ hp | queued _ _ _ _ _ hp | begun _ _ hp | selected _ _ _ _ _ _ hp | missed _ hp
  | recorded _ _ _ _ hp | unrecorded _ _ _ _ hp | killed _ _ hp => exact absurd hp hquiet

end

/-- CORRECT (distance): in every run in which each status update reaches the database, and whose
    queries find nothing due that has failed `k` times and was updated less than 2 ^ `k` minutes
    before, the next POST for a delivery comes at least 2 ^ `k` minutes after its `k`-th. -/
theorem retries_keep_distance {σ₁ σ₂ σ₃ σ₄ : Sys} {d : Uuid} {k : ℕ}
    (h₁ : Sys.Run Sys.Spaced .initial σ₁) (h₁₂ : Sys.Step Sys.Spaced σ₁ σ₂)
    (hpost : σ₁.MakesPost d k σ₂) (h₂₃ : Sys.Run Sys.Spaced σ₂ σ₃)
    (h₃₄ : Sys.Step Sys.Spaced σ₃ σ₄) (hnext : σ₃.MakesPost d (k + 1) σ₄) :
    σ₂.world.now + documented_delay k ≤ σ₄.world.now := by
  have hreports : Sys.Run Sys.Reports .initial σ₁ :=
    Relation.ReflTransGen.mono (fun _ _ ⟨l, hl, hstep⟩ => ⟨l, hl.1, hstep⟩) _ _ h₁
  obtain ⟨x₁, hx₁, htally₁⟩ := Tally.run hreports
  obtain ⟨l, hl, hstep⟩ := h₁₂
  have hinv₁ := (Sys.Run.reachable h₁).inv
  obtain ⟨x₂, hx₂, hturn⟩ := hx₁.turn hinv₁ .any hstep
  have htally₂ := htally₁.turn hx₁ hl.1 hturn
  have hpos : 0 < k := by
    have := hpost.2
    omega
  have hbase : Cooling d k σ₂.world.now σ₂.world x₂ := by
    obtain ⟨ok, todo, rfl, rfl⟩ := hpost.turn hturn
    refine ⟨Int.le_refl _, fun _ _ hrep => absurd rfl hrep, fun hmem => ?_⟩
    exact absurd hmem (List.nodup_cons.mp htally₂.nodup).1
  obtain ⟨x₃, hx₃, -, -, hcool⟩ := hx₂.run
    (motive := fun σ x => Tally σ.world x ∧ k ≤ (σ.world.outcomes d).length ∧
      ((σ.world.outcomes d).length = k → Cooling d k σ₂.world.now σ.world x))
    (hinv₁.step .any hstep) h₂₃ ⟨htally₂, Nat.le_of_eq hpost.1.symm, fun _ => hbase⟩ <| by
      rintro σ l σ' x x' hinv hx hl hstep hturn ⟨htally, hle, hc⟩
      have hmono := hturn.outcomes_le d
      refine ⟨htally.turn hx hl.1 hturn, Nat.le_trans hle hmono, fun hk' => ?_⟩
      have hk : (σ.world.outcomes d).length = k := Nat.le_antisymm (hk' ▸ hmono) hle
      exact (hc hk).turn htally hx hinv hl hstep hturn hk hpos hk'
  obtain ⟨l', hl', hstep'⟩ := h₃₄
  have hinv₃ := (Sys.Run.reachable ((h₁.tail ⟨l, hl, hstep⟩).trans h₂₃)).inv
  obtain ⟨x₄, -, hturn'⟩ := hx₃.turn hinv₃ .any hstep'
  obtain ⟨ok, todo, rfl, -⟩ := hnext.turn hturn'
  have hdue := (hcool (Nat.succ.inj hnext.2)).waiting (List.mem_cons_self ..)
  exact Int.le_trans hdue (Sys.clock_of_step hstep')

/-- The first POST for delivery 60 fails. -/
def refused_once : List Sys.Label :=
  Sys.notified ++ [.webhook_tick] ++ Sys.go .webhook_worker 2

/-- What the POST was answered. -/
def refusal : Sys.Label := .exec .webhook_worker { Sys.calm with answer := .response 500 none }

/-- The failure is recorded, and a tick comes `n` minutes later. -/
def retried_after (n : ℕ) : List Sys.Label :=
  Sys.go .webhook_worker 1 ++
  [.webhook_tick, .exec .webhook_worker { Sys.calm with elapsed := n * 60000000 }] ++
  Sys.go .webhook_worker 1

theorem retries_keep_distance_two : ∃ σ₁ ∈ Sys.initial.steps refused_once, ∃ σ₂ ∈ σ₁.step refusal,
    ∃ σ₃ ∈ σ₂.steps (retried_after 2), ∃ σ₄ ∈ σ₃.step refusal,
      σ₂.world.now + documented_delay 1 ≤ σ₄.world.now := by
  obtain ⟨σ₁, hσ₁, hok₁, σ₂, hσ₂, hok₂, hpost, σ₃, hσ₃, hok₃, σ₄, hσ₄, hok₄, hnext⟩ :
    ∃ σ₁ ∈ Sys.initial.steps refused_once, Sys.initial.Allowed Sys.Spaced refused_once ∧
    ∃ σ₂ ∈ σ₁.step refusal, σ₁.Spaced refusal ∧ σ₁.MakesPost 60 1 σ₂ ∧
    ∃ σ₃ ∈ σ₂.steps (retried_after 2), σ₂.Allowed Sys.Spaced (retried_after 2) ∧
    ∃ σ₄ ∈ σ₃.step refusal, σ₃.Spaced refusal ∧ σ₃.MakesPost 60 2 σ₄ := by decide +kernel
  exact ⟨σ₁, hσ₁, σ₂, hσ₂, σ₃, hσ₃, σ₄, hσ₄, retries_keep_distance (Sys.run_of_steps hσ₁ hok₁)
    ⟨_, hok₂, hσ₂⟩ hpost (Sys.run_of_steps hσ₃ hok₃) ⟨_, hok₄, hσ₄⟩ hnext⟩

/-- The second POST is made one minute after the first. -/
theorem retry_too_early : ¬∀ (σ₁ σ₂ σ₃ σ₄ : Sys) (d : Uuid) (k : ℕ),
    Sys.Run Sys.Reports .initial σ₁ → Sys.Step Sys.Reports σ₁ σ₂ → σ₁.MakesPost d k σ₂ →
    Sys.Run Sys.Reports σ₂ σ₃ → Sys.Step Sys.Reports σ₃ σ₄ → σ₃.MakesPost d (k + 1) σ₄ →
    σ₂.world.now + documented_delay k ≤ σ₄.world.now := by
  obtain ⟨σ₁, hσ₁, hok₁, σ₂, hσ₂, hok₂, hpost, σ₃, hσ₃, hok₃, σ₄, hσ₄, hok₄, hnext, hearly⟩ :
    ∃ σ₁ ∈ Sys.initial.steps refused_once, Sys.initial.Allowed Sys.Reports refused_once ∧
    ∃ σ₂ ∈ σ₁.step refusal, σ₁.Reports refusal ∧ σ₁.MakesPost 60 1 σ₂ ∧
    ∃ σ₃ ∈ σ₂.steps (retried_after 1), σ₂.Allowed Sys.Reports (retried_after 1) ∧
    ∃ σ₄ ∈ σ₃.step refusal, σ₃.Reports refusal ∧ σ₃.MakesPost 60 2 σ₄ ∧
      σ₄.world.now = σ₂.world.now + minute := by decide +kernel
  intro h
  have hlate := h σ₁ σ₂ σ₃ σ₄ 60 1 (Sys.run_of_steps hσ₁ hok₁) ⟨_, hok₂, hσ₂⟩ hpost
    (Sys.run_of_steps hσ₃ hok₃) ⟨_, hok₄, hσ₄⟩ hnext
  rw [hearly] at hlate
  exact absurd (Int.le_of_add_le_add_left hlate) (by decide)

end Payman
