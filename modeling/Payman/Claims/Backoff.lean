import Mathlib.Algebra.Ring.Nat
import Payman.Safety.Polls

/-! The schedule of polls.

    The delay after the `n`-th unanswered poll is a power of two that is capped after it has been
    computed. With a poll every 16 minutes an attempt gets past `n = 62` within its 24 hours, and
    from there on the power no longer fits. -/

namespace Payman
open Schemes

/-- The minutes to the next poll after `n` polls in vain: 1, 2, 4, 8, then 16. -/
def documented_backoff (n : ℕ) : ℕ := min (2 ^ n) 16

/-- How often the PSP has been asked in vain: `retry_count as u32`. -/
def AttemptRow.polls (row : AttemptRow) : ℕ := row.retry_count.toUInt32.toNat

/-- The attempt that an operation asks the PSP for. -/
def Eff.asks : Eff → Option Uuid
  | .get_charge a => some a
  | _ => none

/-- The attempt whose next poll an operation schedules. -/
def Eff.schedules : Eff → Option Uuid
  | .sql (.schedule_retry _ a) => some a
  | _ => none

/-- The first operation of a tick. -/
def Eff.opens_tick : Eff → Bool
  | .sql .select_pending => true
  | _ => false

namespace Sys

/-- The attempt that the reconciliation worker asks the PSP for next. -/
def asking (σ : Sys) : Option Uuid := (σ.head .worker).bind Eff.asks

/-- The attempt whose next poll it schedules next. -/
def scheduling (σ : Sys) : Option Uuid := (σ.head .worker).bind Eff.schedules

/-- A step `l` that answers a poll of the attempt `a` with 404, or the step of the worker after it,
    follows the schedule. -/
structure OnSchedule (a : Uuid) (σ : Sys) (l : Label) : Prop where
  /-- The power of two fits an `i64`, and the documented delay is what the worker goes on with. -/
  computed : ∀ c, l = .exec .worker c → σ.asking = some a → c.answer.NotFound →
    ∀ row, σ.db.attempt a = some row → 2 ^ row.polls < 2 ^ 63 ∧
      ∀ σ', σ.step l = some σ' → σ'.head .worker =
        some (.sql (.schedule_retry (Int32.ofNat (documented_backoff row.polls)) a))
  /-- The next poll is due after the documented delay. -/
  scheduled : σ.scheduling = some a → (l = .kill .worker ∨ ∃ c, l = .exec .worker c) →
    ∀ σ', σ.step l = some σ' → ∃ row row', σ.db.attempt a = some row ∧
      σ'.db.attempt a = some row' ∧ row'.retry_count = row.retry_count + 1 ∧
      row'.next_retry_at = some (σ'.world.now + documented_backoff row.polls * minute)

/-- The answer 404 comes while the count is small enough, and its update reaches the database. -/
structure Early (a : Uuid) (σ : Sys) (l : Label) : Prop where
  count : ∀ c, l = .exec .worker c → σ.asking = some a → c.answer.NotFound →
    ∀ row, σ.db.attempt a = some row → row.polls ≤ 62
  alive : σ.scheduling = some a → l ≠ .kill .worker
  reached : σ.scheduling = some a → ∀ c, l = .exec .worker c → c.fail = false

variable {σ σ' : Sys} {a : Uuid} {l : Label}

theorem head_of_asking (h : σ.asking = some a) : σ.head .worker = some (.get_charge a) := by
  obtain ⟨e, he, ha⟩ := Option.bind_eq_some_iff.mp h
  rw [he]
  unfold Eff.asks at ha
  split at ha <;> cases ha
  rfl

theorem head_of_scheduling (h : σ.scheduling = some a) :
    ∃ m, σ.head .worker = some (.sql (.schedule_retry m a)) := by
  obtain ⟨e, he, ha⟩ := Option.bind_eq_some_iff.mp h
  unfold Eff.schedules at ha
  split at ha <;> cases ha
  exact ⟨_, he⟩

end Sys

/-! ### The delay -/

/-- Up to 2 ^ 62 the power fits, and the cap leaves the documented delay. -/
theorem backoff_documented {n : Int32} (h : n.toUInt32.toNat ≤ 62) :
    backoff_mins n = Int32.ofNat (documented_backoff n.toUInt32.toNat) := by
  have hall : ∀ k ≤ 62, (min ((2 : Int64) ^ k) 16).toInt32 = Int32.ofNat (min (2 ^ k) 16) := by
    decide +kernel
  exact hall _ h

theorem documented_backoff_toInt (n : ℕ) :
    (Int32.ofNat (documented_backoff n)).toInt = documented_backoff n := by
  have hle : documented_backoff n ≤ 16 := Nat.min_le_right ..
  have hall : ∀ k ≤ 16, (Int32.ofNat k).toInt = k := by decide
  exact hall _ hle

/-! ### Runs -/

/-- The worker keeps to its protocol, and a 404 for `a` that is to be recorded came early enough. -/
def Sys.Timely (a : Uuid) (σ : Sys) : Prop :=
  Inv .any σ ∧ ∃ x, σ.Polls x ∧ ∀ n todo, x = .unanswered a n todo → n.toUInt32.toNat ≤ 62

namespace Sys
variable {σ σ' : Sys} {a : Uuid} {l : Label}

theorem Timely.initial (a : Uuid) : initial.Timely a :=
  ⟨.initial, _, .initial, fun _ _ h => by cases h⟩

/-- The step lemma: what is to be recorded has just come, or was there before. -/
theorem Timely.step (h : σ.Timely a) (hl : σ.Early a l) (hstep : σ.step l = some σ') :
    σ'.Timely a := by
  obtain ⟨hinv, x, hx, hn⟩ := h
  obtain ⟨x', hx', hpolled⟩ := hx.step hinv .any hstep
  refine ⟨hinv.step .any hstep, x', hx', fun n todo heq => ?_⟩
  cases hpolled with
  | idle => exact hn n todo heq
  | begun | killed => cases heq
  | @polled _ e r c hl' hhead hexec hstep' =>
    subst heq
    cases hstep' with
    | not_found hnf =>
      obtain ⟨row, hrow, rfl⟩ := hx.counts _ (List.mem_cons_self ..)
      have hask : σ.asking = some a := by rw [asking, hhead]; rfl
      obtain rfl := Option.some.inj (congrArg (Option.map Prod.snd) hexec)
      exact hl.count c hl' hask hnf row hrow

/-- CORRECT (step): a 404 that comes early is dealt with as documented. -/
theorem Early.on_schedule (hl : σ.Early a l) (h : σ.Timely a) : σ.OnSchedule a l := by
  obtain ⟨-, x, hx, hn⟩ := h
  refine ⟨fun c hlc hask hnf row hrow => ?_, fun hsched hlw σ' hstep => ?_⟩
  · have hle := hl.count c hlc hask hnf row hrow
    refine ⟨Nat.pow_lt_pow_right (by decide) (by omega), fun σ' hstep => ?_⟩
    · subst hlc
      obtain ⟨n, todo, rfl⟩ := hx.asking (head_of_asking hask)
      obtain ⟨row', hrow', rfl⟩ := hx.counts _ (List.mem_cons_self ..)
      obtain rfl := Option.some.inj (hrow.symm.trans hrow')
      obtain ⟨j, k, hp⟩ := op_of_head (head_of_asking hask)
      simp only [Sys.step, hp] at hstep
      obtain ⟨⟨w, r⟩, hexec, rfl⟩ := Option.map_eq_some_iff.mp hstep
      obtain ⟨x', hstep', hx'⟩ := hx.exec hp hexec
      cases hexec
      cases hstep' with
      | not_found =>
        rw [hx'.head_unanswered, backoff_documented hle]
        rfl
      | outcome hno | unclear hno => exact absurd hnf hno
  · obtain ⟨m, hhead⟩ := head_of_scheduling hsched
    obtain ⟨n, todo, rfl, rfl⟩ := hx.unanswered hhead
    have hle := hn n todo rfl
    rcases hlw with rfl | ⟨c, rfl⟩
    · exact absurd rfl (hl.alive hsched)
    · have hmax : n ≠ Int32.maxValue := by
        rintro rfl
        exact absurd hle (by decide)
      obtain ⟨row, row', hrow, rfl, hrow', hcount, hnext⟩ :=
        hx.schedules (hl.reached hsched c rfl) hmax hstep
      refine ⟨row, row', hrow, hrow', hcount, ?_⟩
      rw [hnext, backoff_documented hle, documented_backoff_toInt]
      rfl

/-- What follows the schedule is early: a power that fits is one up to 2 ^ 62, and a cut-off update
    leaves the row as it was. -/
theorem OnSchedule.early (hl : σ.OnSchedule a l) : σ.Early a l := by
  have hsame : σ.scheduling = some a → (l = .kill .worker ∨ ∃ c, l = .exec .worker c) →
      ∀ σ', σ.step l = some σ' → σ'.db ≠ σ.db := by
    intro hsched hlw σ' hstep hdb
    obtain ⟨row, row', hrow, hrow', hcount, -⟩ := hl.scheduled hsched hlw σ' hstep
    obtain rfl := Option.some.inj (hrow.symm.trans (hdb ▸ hrow'))
    exact Stmt.ne_succ _ hcount
  refine ⟨fun c hlc hask hnf row hrow => ?_, fun hsched hlk => ?_, fun hsched c hlc => ?_⟩
  · have hfit := (hl.computed c hlc hask hnf row hrow).1
    have hlt := (Nat.pow_lt_pow_iff_right (by decide)).mp hfit
    omega
  · obtain ⟨m, hhead⟩ := head_of_scheduling hsched
    obtain ⟨j, k, hp⟩ := op_of_head hhead
    subst hlk
    refine hsame hsched (.inl rfl) (σ.set .worker ⟨j, none⟩
      { σ.world with sessions := σ.world.sessions.rollback .worker }) ?_ rfl
    simp only [Sys.step, hp]
  · obtain ⟨m, hhead⟩ := head_of_scheduling hsched
    obtain ⟨j, k, hp⟩ := op_of_head hhead
    subst hlc
    by_contra hfail
    have hfail : c.fail = true := by simpa using hfail
    refine hsame hsched (.inr ⟨c, rfl⟩) (σ.set .worker ⟨j, some (k (.error .Connection))⟩
      (σ.world.elapse c.elapsed)) ?_ rfl
    simp [Sys.step, hp, World.exec, World.act, hfail]

/-- CORRECT (schedule): in a run of any steps, every 404 for an attempt is dealt with as documented,
    without an overflow, exactly if it always comes after at most 62 polls in vain and its update
    reaches the database. -/
theorem backoff_documented_iff (a : Uuid) (ls : List Label) :
    initial.Allowed (OnSchedule a) ls ↔ initial.Allowed (Early a) ls := by
  constructor
  · exact Allowed.mono fun _ _ h => h.early
  · exact Allowed.imp (fun _ _ _ h hl => h.step hl) (fun _ _ h hl => hl.on_schedule h)
      (Timely.initial a)

/-! ### A day without an answer -/

/-- The steps of a worker that ticks at most once a minute, is answered 404 whenever it asks for `a`
    and meets no failure, before `a` is 24 hours old. -/
def Waits (a : Uuid) (σ : Sys) : Label → Prop
  | .exec p c => c.fail = false ∧
    ((σ.head p).any Eff.opens_tick = true → minute ≤ c.elapsed) ∧
    (p = .worker → σ.asking = some a → c.answer = .response 404 none) ∧
    ∀ row ∈ σ.db.attempt a, σ.world.now + c.elapsed < row.created_at + hours24
  | .kill _ => False
  | .arrive .. | .background _ | .tick | .webhook_tick => True

instance (a : Uuid) (σ : Sys) : ∀ l, Decidable (σ.Waits a l)
  | .exec p c => inferInstanceAs (Decidable (c.fail = false ∧
      ((σ.head p).any Eff.opens_tick = true → minute ≤ c.elapsed) ∧
      (p = .worker → σ.asking = some a → c.answer = .response 404 none) ∧
      ∀ row ∈ σ.db.attempt a, σ.world.now + c.elapsed < row.created_at + hours24))
  | .kill _ => inferInstanceAs (Decidable False)
  | .arrive .. | .background _ | .tick | .webhook_tick => isTrue trivial

/-- A tick `n` minutes later that asks for attempt 40, up to the update. -/
def asks_after (n : ℕ) : List Label :=
  [.tick, .exec .worker { calm with elapsed := n * 60000000 }] ++
  answered .worker (.response 404 none)

/-- A charge has timed out, and the PSP has not heard of it: 63 polls, each as soon as it is due. -/
def unheard : List Label :=
  opened ++ pays 3 "k" 2 40 ++ go (.call 3) 2 ++
  ([1, 1, 2, 4, 8].flatMap fun n => asks_after n ++ go .worker 2) ++
  (List.replicate 58 (asks_after 16 ++ go .worker 2)).flatten

/-- After 63 polls in vain, 16 hours old, an attempt is to be polled again at once. -/
theorem backoff_overflows : ¬∀ (a : Uuid) (ls : List Label), initial.Allowed (Waits a) ls →
    initial.Allowed (OnSchedule a) ls := by
  obtain ⟨σ, hσ, hok, σ', hσ', row, hrow, row', hrow', hsched, hn, hnext⟩ :
    ∃ σ ∈ initial.steps (unheard ++ asks_after 16),
      initial.Allowed (Waits 40) ((unheard ++ asks_after 16) ++ go .worker 1) ∧
      ∃ σ' ∈ σ.step (.exec .worker calm), ∃ row ∈ σ.db.attempt 40, ∃ row' ∈ σ'.db.attempt 40,
        σ.scheduling = some 40 ∧ row.polls = 63 ∧ row'.next_retry_at = some σ'.world.now := by
    decide +kernel
  intro h
  obtain ⟨hl, -⟩ := (h 40 _ hok).append.2 σ hσ
  obtain ⟨row₁, row₁', hrow₁, hrow₁', -, hdue⟩ := hl.scheduled hsched (.inr ⟨_, rfl⟩) σ' hσ'
  cases hrow.symm.trans hrow₁
  cases hrow'.symm.trans hrow₁'
  rw [hn, hnext, Option.some.injEq] at hdue
  have hlater : σ'.world.now < σ'.world.now + documented_backoff 63 * minute :=
    Int.lt_add_of_pos_right _ (by decide)
  exact absurd hdue (Int.ne_of_lt hlater)

end Sys

end Payman
