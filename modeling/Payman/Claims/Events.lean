import Payman.Claims.Accounts
import Payman.Safety.Deliveries

/-! One event for an outcome.

    Over a run in which outcomes are recorded once each, an attempt is announced when it has been
    settled, once, and the dispatch queues one delivery for each endpoint that is active all along.
    Both the request and the worker can record an outcome, and neither looks at whether the attempt
    was still pending; where their stages overlap, both announce it. -/

namespace Payman
open Schemes

variable {fate : Uuid → Option Verdict} {σ σ' : Sys} {l : Sys.Label} {a b e : Uuid}
  {L : List (ℕ × DispatchTask)} {ls : List Sys.Label}

/-- Induction over the steps of a run, with the dispatches that it has spawned for `a`. -/
theorem Sys.dispatches_induct {ok : Sys → Sys.Label → Prop}
    {motive : Sys → List (ℕ × DispatchTask) → Prop}
    (step : ∀ σ l σ' L, ok σ l → σ.step l = some σ' → motive σ L →
      motive σ' (L ++ (σ.dispatched a l).toList)) : ∀ (ls : List Sys.Label) {σ σ' : Sys}
        {L : List (ℕ × DispatchTask)}, σ.steps ls = some σ' → σ.Allowed ok ls → motive σ L →
          motive σ' (L ++ σ.dispatches a ls)
  | [], _, _, _, h, _, hL => by
    cases h
    rw [dispatches, List.append_nil]
    exact hL
  | l :: ls, σ, _, L, h, ⟨hl, hrest⟩, hL => by
    obtain ⟨σ₁, hstep, h⟩ := Option.bind_eq_some_iff.mp h
    rw [dispatches, hstep, Option.elim_some, ← List.append_assoc]
    exact dispatches_induct step ls h (hrest σ₁ hstep) (step σ l σ₁ L hl hstep hL)

/-- Every task runs the dispatch of its number. -/
def Sys.Numbered (σ : Sys) : Prop :=
  ∀ n t, σ.job (.task n) = some (.dispatch t) → σ.world.spawned.reverse[n]? = some t

theorem Sys.Numbered.step (h : σ.Numbered) {K : Setting} (hinv : Inv K σ) (hk : Honours K σ l)
    (hstep : σ.step l = some σ') : σ'.Numbered := by
  intro n t hjob
  refine World.spawned_reverse (hinv.spawned hk hstep) ?_
  exact (Sys.task_of_step hstep hjob).elim (h n t) id

/-- The number of a dispatch is new, and its task is not there yet. -/
theorem Sys.Numbered.unstarted (h : σ.Numbered) {y : ℕ × DispatchTask}
    (hy : σ.dispatched a l = some y) (hstep : σ.step l = some σ') (t : DispatchTask) :
    σ'.job (.task y.1) ≠ some (.dispatch t) := by
  intro hjob
  have hn : y.1 = σ.world.spawned.length := by
    unfold dispatched at hy
    split at hy
    · split at hy
      · split at hy <;> cases hy
        rfl
      · cases hy
    · cases hy
  have hlt : ∀ t, σ.world.spawned.reverse[y.1]? ≠ some t := fun t ht => by
    have hlt := (List.getElem?_eq_some_iff.mp ht).1
    rw [List.length_reverse, hn] at hlt
    exact Nat.lt_irrefl _ hlt
  exact (Sys.task_of_step hstep hjob).elim (fun hjob => hlt t (h _ t hjob)) (hlt t)

/-- What a run has done for the attempt `a` and the endpoint `e` of the business `b`. -/
structure Sys.Notified (fate : Uuid → Option Verdict) (a b e : Uuid) (σ : Sys)
    (L : List (ℕ × DispatchTask)) : Prop extends σ.Accounts fate a L where
  numbered : σ.Numbered
  notifies : ∀ y ∈ L, σ.Notifies y.1 b e

/-- An attempt that has been announced is there. -/
theorem Sys.Accounts.attempt_ne_none (h : σ.Accounts fate a L) {y : ℕ × DispatchTask}
    (hy : y ∈ L) : σ.db.attempt a ≠ none := by
  obtain ⟨-, ξ, -, haccount⟩ := h
  cases haccount with
  | told n b i v hs hfate ho hrow =>
    obtain ⟨row, hrow, -⟩ := hrow
    rw [hrow]
    nofun
  | _ => cases hy

theorem Sys.Notified.step (h : σ.Notified fate a b e L) (hl : σ.Once fate l)
    (ha : σ.db.attempt a ≠ none → σ.Active b e) (hstep : σ.step l = some σ') :
    σ'.Notified fate a b e (L ++ (σ.dispatched a l).toList) where
  toAccounts := h.toAccounts.step hl hstep
  numbered := h.numbered.step h.inv .any hstep
  notifies := fun y hy => by
    rcases List.mem_append.mp hy with hy | hy
    · exact (h.notifies y hy).step h.inv hl.smooth (ha (h.toAccounts.attempt_ne_none hy)) hstep
    · exact fun t ht => absurd ht (h.numbered.unstarted (Option.mem_toList.mp hy) hstep t)

/-- No process is running, and every task that was spawned has run. -/
structure Sys.AtRest (σ : Sys) : Prop where
  idle : ∀ p, σ.head p = none
  started : ∀ n < σ.world.spawned.length, (σ.procs (.task n)).isSome

theorem Sys.accounts_of_steps (hls : Sys.initial.steps ls = some σ)
    (hok : Sys.initial.Allowed (Sys.Once fate) ls) :
    σ.Accounts fate a (Sys.initial.dispatches a ls) := by
  have h := Sys.dispatches_induct (a := a) (motive := fun σ L => σ.Accounts fate a L)
    (fun σ l σ' L hl hstep hL => hL.step hl hstep) ls hls hok .initial
  rwa [List.nil_append] at h

theorem Sys.notified_of_steps (hls : Sys.initial.steps ls = some σ)
    (hok : Sys.initial.Allowed (Sys.Once fate) ls)
    (ha : Sys.initial.Allowed (fun σ _ => σ.db.attempt a ≠ none → σ.Active b e) ls) :
    σ.Notified fate a b e (Sys.initial.dispatches a ls) := by
  have h := Sys.dispatches_induct (a := a) (motive := fun σ L => σ.Notified fate a b e L)
    (fun σ l σ' L hl hstep hL => hL.step hl.1 hl.2 hstep) ls hls (hok.and ha)
    ⟨.initial, nofun, nofun⟩
  rwa [List.nil_append] at h

/-- At rest, the endpoint has got the delivery of each dispatch. -/
theorem Sys.Notified.queued (h : σ.Notified fate a b e L) (hrest : σ.AtRest) {n : ℕ}
    {t : DispatchTask} (hmem : (n, t) ∈ L) (hn : σ.world.spawned.reverse[n]? = some t)
    (hb : t.business_id = b) : ∃ row, σ.queued n e = [row] ∧ row.Tells t := by
  have hlt := (List.getElem?_eq_some_iff.mp hn).1
  rw [List.length_reverse] at hlt
  obtain ⟨pr, hpr⟩ := Option.isSome_iff_exists.mp (hrest.started n hlt)
  have hjob := Sys.job_of_procs hpr
  have hfit := h.inv.fits _ _ hjob
  cases hj : pr.job with
  | dispatch t' =>
    rw [hj] at hjob
    obtain rfl : t' = t := Option.some.inj ((h.numbered n t' hjob).symm.trans hn)
    obtain ⟨x, hx⟩ := h.notifies _ hmem t' hjob hb
    exact hx.rest (hrest.idle _)
  | _ => rw [hj] at hfit; exact hfit.elim

/-- CORRECT (one event for an outcome): if every outcome is committed while its attempt is pending
    and no declined attempt expires, an attempt is announced at most once, not before it is settled,
    and exactly once when everything has come to rest: to the business that owns the invoice or whose
    call has started the attempt, with one delivery for each of its endpoints that has been active
    since the attempt was created. -/
theorem announced_once (hls : Sys.initial.steps ls = some σ)
    (hok : Sys.initial.Allowed (Sys.Once fate) ls) {row : AttemptRow}
    (hrow : σ.db.attempt a = some row) :
    (Sys.initial.dispatches a ls).length ≤ 1 ∧
    (row.status = .Pending → Sys.initial.dispatches a ls = []) ∧
    (σ.AtRest → row.status ≠ .Pending → ∀ v, fate a = some v →
      (v = .paid → row.status = .Succeeded) →
      ∃ n b, Sys.initial.dispatches a ls = [(n, ⟨b, row.invoice_id, v.event⟩)] ∧
        σ.Bills a row.invoice_id b ∧
        ∀ e, Sys.initial.Allowed (fun σ _ => σ.db.attempt a ≠ none → σ.Active b e) ls →
          ∃ d, σ.queued n e = [d] ∧ d.Tells ⟨b, row.invoice_id, v.event⟩) := by
  have h := Sys.accounts_of_steps (a := a) hls hok
  obtain ⟨-, ξ, hξ, haccount⟩ := h
  generalize hL : Sys.initial.dispatches a ls = L at haccount
  refine ⟨?_, fun hp => ?_, fun hrest hne v hv hpaid => ?_⟩
  · cases haccount <;> simp
  · cases haccount with
    | told n b i v hs =>
      cases (Db.settled_of_pending hrow hp).symm.trans hs
    | _ => rfl
  · have hs := Db.settled_of_final hrow hne
    cases haccount with
    | pending hs' => cases hs'.symm.trans hs
    | expired hs' hfate =>
      have hfailed : row.status = .Failed := Option.some.inj (hs.symm.trans hs')
      cases v with
      | paid => cases hfailed.symm.trans (hpaid rfl)
      | declined => exact absurd hv hfate
    | due p n hn hp => cases hp.symm.trans (hξ.rest (hrest.idle p))
    | told n b i v' hs' hfate ho hrow' hn hb =>
      obtain rfl := Option.some.inj (hv.symm.trans hfate)
      obtain ⟨row', hrow', rfl⟩ := hrow'
      obtain rfl := Option.some.inj (hrow.symm.trans hrow')
      refine ⟨n, b, rfl, hb, fun e ha => ?_⟩
      have hnotified := Sys.notified_of_steps hls hok ha
      rw [hL] at hnotified
      exact hnotified.queued hrest (List.mem_singleton.mpr rfl) hn rfl

/-- No call to the database fails and nothing crashes. -/
def Sys.Label.Calm : Sys.Label → Prop
  | .exec _ c => c.fail = false
  | .kill _ => False
  | _ => True

instance : ∀ l : Sys.Label, Decidable l.Calm
  | .exec _ c => inferInstanceAs (Decidable (c.fail = false))
  | .kill _ => isFalse id
  | .arrive .. | .background _ | .tick | .webhook_tick => isTrue trivial

/-- Only the processes that a run starts need to be looked at. -/
theorem Sys.AtRest.of_steps {ls : List Sys.Label} {σ : Sys} {ps : List Pid}
    (hls : Sys.initial.steps ls = some σ) (hps : ∀ l ∈ ls, ∀ p ∈ l.started, p ∈ ps)
    (hidle : ∀ p ∈ ps, σ.head p = none)
    (hstarted : ∀ n < σ.world.spawned.length, (σ.procs (.task n)).isSome) : σ.AtRest where
  idle := fun p => by
    by_cases hp : p ∈ ps
    · exact hidle p hp
    · exact head_of_none (procs_of_steps hls hps (fun _ _ => rfl) p hp)
  started := hstarted

/-- The PSP has accepted the charge. -/
def accepted : Answer := .response 200 (some ⟨"succeeded", some "ref", none⟩)

/-- A payment that succeeds; endpoint 50 gets delivery 61. -/
def announced : List Sys.Label :=
  Sys.notified ++ Sys.pays 3 "k" 2 40 ++ Sys.answered (.call 3) accepted ++ Sys.go (.call 3) 6 ++
  [.background 1] ++ Sys.go (.task 1) 2 ++ Sys.fresh (.task 1) 61

/-- The processes of these runs. -/
def announcing : List Pid :=
  [.call 9, .call 0, .call 1, .call 2, .call 3, .worker, .task 0, .task 1, .task 2]

theorem announced_once_paid : ∃ σ ∈ Sys.initial.steps announced, ∃ row ∈ σ.db.attempt 40, ∃ n b,
    Sys.initial.dispatches 40 announced = [(n, ⟨b, row.invoice_id, Verdict.paid.event⟩)] ∧
      σ.Bills 40 row.invoice_id b ∧
        ∃ d, σ.queued n 50 = [d] ∧ d.Tells ⟨b, row.invoice_id, Verdict.paid.event⟩ := by
  obtain ⟨σ, hσ, hok, hactive, row, hrow, hs, hb, hidle, hstarted⟩ :
    ∃ σ ∈ Sys.initial.steps announced,
      Sys.initial.Allowed (Sys.Once fun _ => some .paid) announced ∧
      Sys.initial.Allowed (fun σ _ => σ.db.attempt 40 ≠ none → σ.Active 1 50) announced ∧
      ∃ row ∈ σ.db.attempt 40, row.status = .Succeeded ∧
        (∀ y ∈ Sys.initial.dispatches 40 announced, y.2.business_id = 1) ∧
        (∀ p ∈ announcing, σ.head p = none) ∧
        ∀ n < σ.world.spawned.length, (σ.procs (.task n)).isSome := by decide +kernel
  have hrest : σ.AtRest := .of_steps hσ (by decide +kernel) hidle hstarted
  have hne : row.status ≠ .Pending := by
    rw [hs]
    nofun
  obtain ⟨n, b, hd, hbills, hall⟩ :=
    (announced_once hσ hok hrow).2.2 hrest hne .paid rfl fun _ => hs
  obtain rfl : b = 1 := hb (n, ⟨b, row.invoice_id, _⟩) (hd ▸ List.mem_singleton.mpr rfl)
  exact ⟨σ, hσ, row, hrow, n, 1, hd, hbills, hall 50 hactive⟩

/-- The worker asks the PSP about the attempt of a payment that waits for its answer, and both
    record and announce that it succeeded: endpoint 50 gets deliveries 61 and 62. -/
def announced_twice : List Sys.Label :=
  Sys.notified ++ Sys.pays 3 "k" 2 40 ++ [.tick] ++ Sys.go .worker 1 ++
  Sys.answered .worker accepted ++ Sys.go .worker 7 ++ Sys.answered (.call 3) accepted ++
  Sys.go (.call 3) 6 ++ [.background 1] ++ Sys.go (.task 1) 2 ++ Sys.fresh (.task 1) 61 ++
  [.background 2] ++ Sys.go (.task 2) 2 ++ Sys.fresh (.task 2) 62

theorem outcome_announced_twice : ¬∀ (fate : Uuid → Option Verdict) (ls : List Sys.Label)
    (σ : Sys), Sys.initial.steps ls = some σ →
      Sys.initial.Allowed (fun σ l => Psp fate (fun _ => False) σ l ∧ l.Calm) ls → σ.AtRest →
        ∀ a row, σ.db.attempt a = some row → fate a = some .paid → row.status = .Succeeded →
          ∃ y, Sys.initial.dispatches a ls = [y] := by
  obtain ⟨σ, hσ, hok, row, hrow, hs, htwo, hidle, hstarted⟩ :
    ∃ σ ∈ Sys.initial.steps announced_twice,
      Sys.initial.Allowed (fun σ l => Psp (fun _ => some .paid) (fun _ => False) σ l ∧ l.Calm)
        announced_twice ∧
      ∃ row ∈ σ.db.attempt 40, row.status = .Succeeded ∧
        (Sys.initial.dispatches 40 announced_twice).length = 2 ∧
        (∀ p ∈ announcing, σ.head p = none) ∧
        ∀ n < σ.world.spawned.length, (σ.procs (.task n)).isSome := by decide +kernel
  have hrest : σ.AtRest := .of_steps hσ (by decide +kernel) hidle hstarted
  intro h
  obtain ⟨y, hy⟩ := h _ _ σ hσ hok hrest 40 row hrow rfl hs
  rw [hy] at htwo
  cases htwo

end Payman
