import Payman.Claims.Psp
import Payman.Claims.Versions

/-! Invoices and attempts in step.

    A commit is orderly if it settles only attempts that are still pending and finalizes only
    invoices that are still drafts. Orderly commits are entries of the ledger, so they keep it in
    step: at most one attempt of an invoice succeeds and states change along legal edges. Whole
    operations that run one after another commit in good order; operations that overlap need not. -/

namespace Payman
open Schemes

variable {K : Setting} {T : Pid} {db : Db} {past : List Commit} {j : Job} {ws : List Write}

/-- The invoice rows that a commit writes. -/
def Commit.invoices (c : Commit) : List Invoice := c.writes.filterMap fun
  | .put_invoice r => some r
  | _ => none

theorem Commit.mem_invoices {c : Commit} {r : Invoice} :
    r ∈ c.invoices ↔ Write.put_invoice r ∈ c.writes := by
  unfold invoices
  rw [List.mem_filterMap]
  constructor
  · rintro ⟨w, hw, hr⟩
    cases w <;> simp at hr
    exact hr ▸ hw
  · exact fun h => ⟨_, h, rfl⟩

/-- An outcome is committed while its attempt is pending, or changes neither the status of the
    attempt nor the state of the invoice. -/
def Commit.Timely (c : Commit) : Prop :=
  ∀ row' ∈ c.attempts, row'.status ≠ .Pending → ∀ row ∈ c.before.attempt row'.id,
    row.status = .Pending ∨ (row'.status = row.status ∧
      ∀ r' ∈ c.invoices, ∀ r ∈ c.before.invoice r'.id, r'.state = r.state)

instance (c : Commit) : Decidable c.Timely := inferInstanceAs (Decidable (∀ _ ∈ _, _))

/-- A finalization is committed while its invoice is a draft, or open already. -/
def Commit.Drafted (c : Commit) : Option Job → Prop
  | some (.call (.finalize_invoice i _ _)) =>
    ∀ r ∈ c.before.invoice i, r.state = .Draft ∨ r.state = .Open
  | _ => True

instance (c : Commit) : ∀ j, Decidable (c.Drafted j)
  | some (.call (.finalize_invoice _ _ _)) => inferInstanceAs (Decidable (∀ _ ∈ _, _))
  | some (.call (.create_invoice ..)) | some (.call (.get_invoice ..))
  | some (.call (.edit_invoice ..)) | some (.call (.list_invoices ..))
  | some (.call (.void_invoice ..)) | some (.call (.pay_invoice ..))
  | some (.call (.create_customer ..)) | some (.call (.get_customer ..))
  | some (.call (.list_customers ..)) | some (.call (.create_endpoint ..))
  | some (.call (.get_endpoint ..)) | some (.call (.list_endpoints ..))
  | some (.call (.delete_endpoint ..)) | some (.dispatch _) | some .tick | some .deliveries
  | none => isTrue trivial

/-! ### Orderly commits are entries -/

/-- Void commits on drafts: whatever leaves Draft takes the version with it. -/
theorem draft_of_was {job : Pid → Option Job} (h : History K job past db) {i : Uuid} {r : Invoice}
    (hr : db.invoice i = some r) (hwas : Was past db fun d => ∃ r₀, d.invoice i = some r₀ ∧
      r₀.state = .Draft ∧ r₀.versioning = r.versioning) : r.state = .Draft := by
  rcases hwas with ⟨r₀, hr₀, hd, -⟩ | ⟨c, hc, r₀, hr₀, hd, hv⟩
  · exact Option.some.inj (hr₀.symm.trans hr) ▸ hd
  · obtain ⟨r₁, hr₁, hage⟩ := h.ages_before hc hr₀
    obtain rfl := Option.some.inj (hr₁.symm.trans hr)
    exact hage.draft hv.symm hd

/-- An outcome for an attempt that is pending, or that stands as it says. -/
theorem entry_of_settle {a i : Uuid} {row : AttemptRow} {r : Invoice} {o : Outcome}
    (hrow : db.attempt a = some row) (hi : row.invoice_id = i) (hr : db.invoice i = some r)
    (h : row.status = .Pending ∨ (o.status = row.status ∧ o.state = r.state)) :
    Ledger.Entry db.ledger ((db.ledger.move i o.state).mark a i o.status) := by
  have ha := Db.ledger_attempt hrow
  rw [hi] at ha
  rcases h with hp | ⟨hs, ht⟩
  · rw [← o.verdict_state, ← o.verdict_status]
    exact .settle i a o.verdict (hp ▸ ha)
  · refine .of_eq .stay ?_
    rw [ht, hs, Ledger.move_self (Db.ledger_state hr), Ledger.mark_self ha]

/-- A pending attempt whose invoice is not being processed was never committed. -/
theorem not_pending_of_was (hstep : db.ledger.InStep)
    (hbefore : ∀ c ∈ past, c.before.ledger.InStep) {row : AttemptRow}
    (hwas : Was past db fun d => d.attempt row.id = some row ∧
      ∀ r, d.invoice row.invoice_id = some r → r.state ≠ .Processing) : row.status ≠ .Pending := by
  intro hp
  have hno : ∀ d : Db, d.ledger.InStep → d.attempt row.id = some row →
      ∃ r, d.invoice row.invoice_id = some r ∧ r.state = .Processing := fun d hd hrow =>
    Option.map_eq_some_iff.mp (hd.processing (hp ▸ Db.ledger_attempt hrow)).1
  rcases hwas with ⟨hrow, hs⟩ | ⟨c, hc, hrow, hs⟩
  · obtain ⟨r, hr, hproc⟩ := hno db hstep hrow
    exact hs r hr hproc
  · obtain ⟨r, hr, hproc⟩ := hno c.before (hbefore c hc) hrow
    exact hs r hr hproc

/-- CORRECT: an orderly change of a ledger that is and was in step is an entry. -/
theorem Change.entry_of_orderly {job : Pid → Option Job} {g : Ledger Uuid Uuid}
    (h : Change past db j ws g) (hpast : History K job past db) (hstep : db.ledger.InStep)
    (hbefore : ∀ c ∈ past, c.before.ledger.InStep) (ht : Commit.Timely ⟨T, db, ws⟩)
    (hd : Commit.Drafted ⟨T, db, ws⟩ (some j)) : Ledger.Entry db.ledger g := by
  cases h with
  | entry he => exact he
  | @finalize b i req r hj hr =>
    subst hj
    rcases hd r hr with hs | hs
    · exact .finalize i (hs ▸ Db.ledger_state hr)
    · exact .of_eq .stay (Ledger.move_self (hs ▸ Db.ledger_state hr))
  | @void i r hr hwas => exact .void i (draft_of_was hpast hr hwas ▸ Db.ledger_state hr)
  | @settle i a row row' r r' o hrow hi hr hput hput' =>
    have h := ht row' (Commit.mem_attempts.mpr hput.1)
      (by rw [hput.2.2]; exact o.status_ne_pending) row (by rw [hput.2.1]; exact hrow)
    refine entry_of_settle hrow hi hr (h.imp_right fun ⟨hs, hinv⟩ => ⟨hput.2.2.symm.trans hs, ?_⟩)
    exact hput'.2.2.symm.trans (hinv r' (Commit.mem_invoices.mpr hput'.1) r
      (by rw [hput'.2.1]; exact hr))
  | @settle_only row row' o hrow hput hwas =>
    have hp := not_pending_of_was hstep hbefore hwas
    have h := ht row' (Commit.mem_attempts.mpr hput.1)
      (by rw [hput.2.2]; exact o.status_ne_pending) row (by rw [hput.2.1]; exact hrow)
    refine .of_eq .stay ?_
    rw [← hput.2.2, (h.resolve_left hp).1]
    exact Ledger.mark_self (Db.ledger_attempt hrow)

/-! ### Runs -/

/-- The ledger is in step, and has been in every earlier committed state. -/
def Sys.InStep (σ : Sys) : Prop :=
  σ.db.ledger.InStep ∧ ∀ c ∈ σ.world.history, c.before.ledger.InStep

theorem Sys.InStep.initial : Sys.initial.InStep := ⟨⟨nofun, nofun⟩, nofun⟩

variable {σ σ' : Sys} {l : Sys.Label}

/-- Every commit of the step is orderly. -/
def Orderly (σ : Sys) (l : Sys.Label) : Prop :=
  ∀ c ∈ σ.commits l, c.Timely ∧ c.Drafted (σ.job c.pid)

instance (σ : Sys) (l : Sys.Label) : Decidable (Orderly σ l) :=
  inferInstanceAs (Decidable (∀ _ ∈ _, _))

/-- The step lemma. -/
theorem Sys.InStep.step (h : σ.InStep) (hinv : Inv K σ) (hstep : σ.step l = some σ')
    (hap : Happens K σ l σ') (hgood : Orderly σ l) :
    σ'.InStep ∧ Ledger.Entry σ.db.ledger σ'.db.ledger := by
  cases hap with
  | quiet hdb hh _ => exact ⟨by rw [InStep, hdb, hh]; exact h, hdb ▸ .stay⟩
  | send p j a card _ hdb hh _ _ => exact ⟨by rw [InStep, hdb, hh]; exact h, hdb ▸ .stay⟩
  | commit p j ws hp hdb hh _ he =>
    obtain ⟨ht, hd⟩ := hgood _ (Sys.commits_of_step hstep hh)
    rw [hp] at hd
    have hentry := he.change.entry_of_orderly hinv.history h.1 h.2 ht hd
    rw [InStep, hdb, hh]
    exact ⟨⟨h.1.entry hentry, List.forall_mem_cons.mpr h⟩, hentry⟩

/-- Orderly runs stay in step. -/
theorem Sys.InStep.of_orderly (hrun : Sys.Run Orderly .initial σ) : Inv .any σ ∧ σ.InStep :=
  Inv.initial.induct (fun _ _ _ => .any) hrun .initial fun _ _ _ hinv hl hstep hap h =>
    (h.step hinv hstep hap hl).1

/-! ### At most one successful payment -/

/-- At most one attempt of each invoice has succeeded. -/
def Db.PaidOnce (db : Db) : Prop :=
  ∀ a₁ a₂ row₁ row₂, db.attempt a₁ = some row₁ → db.attempt a₂ = some row₂ →
    row₁.invoice_id = row₂.invoice_id → row₁.status = .Succeeded → row₂.status = .Succeeded →
      a₁ = a₂

/-- CORRECT (at most one successful payment): in a run whose commits are orderly, whatever else it
    interleaves, no invoice is paid twice. -/
theorem paid_at_most_once (hrun : Sys.Run Orderly .initial σ) : σ.db.PaidOnce := by
  intro a₁ a₂ row₁ row₂ h₁ h₂ hi hs₁ hs₂
  have hstep := (Sys.InStep.of_orderly hrun).2.1
  exact hstep.succeeded_unique (hs₁ ▸ Db.ledger_attempt h₁) (hi ▸ hs₂ ▸ Db.ledger_attempt h₂)

/-- One attempt is declined and the next one succeeds. -/
theorem paid_at_most_once_declined : ∃ σ ∈ Sys.initial.steps declined_charge,
    (∃ row ∈ σ.db.attempt 41, row.status = .Succeeded) ∧ σ.db.PaidOnce := by
  obtain ⟨σ, hσ, hok, hrow⟩ : ∃ σ ∈ Sys.initial.steps declined_charge,
    Sys.initial.Allowed Orderly declined_charge ∧
    ∃ row ∈ σ.db.attempt 41, row.status = .Succeeded := by decide +kernel
  exact ⟨σ, hσ, hrow, paid_at_most_once (Sys.run_of_steps hσ hok)⟩

/-- The worker finds attempt 40 declined while its request has yet to record the same. Attempt 41 is
    charged, the late record reopens the invoice, and attempt 42 is charged as well. -/
def paid_twice : List Sys.Label :=
  Sys.opened ++ Sys.pays 3 "k" 2 40 ++
  Sys.answered (.call 3) (.response 200 (some ⟨"failed", none, some "card_declined"⟩)) ++
  [.tick] ++ Sys.go .worker 1 ++
  Sys.answered .worker (.response 200 (some ⟨"failed", none, some "card_declined"⟩)) ++
  Sys.go .worker 4 ++ Sys.pays 4 "l" 3 41 ++
  Sys.answered (.call 4) (.response 200 (some ⟨"succeeded", some "ref", none⟩)) ++
  Sys.go (.call 3) 5 ++ Sys.pays 5 "m" 5 42 ++
  Sys.answered (.call 5) (.response 200 (some ⟨"succeeded", some "ref", none⟩)) ++
  Sys.go (.call 5) 5 ++ Sys.go (.call 4) 5

theorem invoice_paid_twice : ¬∀ (fate : Uuid → Option Verdict) (σ : Sys),
    Sys.Run (Psp fate fun _ => False) .initial σ → σ.db.PaidOnce := by
  obtain ⟨σ, hσ, hok, row₁, h₁, row₂, h₂, hi, hs₁, hs₂⟩ : ∃ σ ∈ Sys.initial.steps paid_twice,
    Sys.initial.Allowed (Psp declined_fate fun _ => False) paid_twice ∧
    ∃ row₁ ∈ σ.db.attempt 41, ∃ row₂ ∈ σ.db.attempt 42, row₁.invoice_id = row₂.invoice_id ∧
      row₁.status = .Succeeded ∧ row₂.status = .Succeeded := by decide +kernel
  intro h
  have heq : (41 : Uuid) = 42 :=
    h _ σ (Sys.run_of_steps hσ hok) 41 42 row₁ row₂ h₁ h₂ hi hs₁ hs₂
  exact absurd heq (by decide)

/-! ### Legal transitions -/

/-- CORRECT (legal transitions): in a run whose commits are orderly, a step changes the state of an
    invoice along an edge of the transition table, or reverts Processing to Open. -/
theorem transitions_legal (hrun : Sys.Run Orderly .initial σ) (hl : Orderly σ l)
    (hstep : σ.step l = some σ') {i : Uuid} {r r' : Invoice} (hr : σ.db.invoice i = some r)
    (hr' : σ'.db.invoice i = some r') (hne : r'.state ≠ r.state) :
    Ledger.Legal r.state r'.state := by
  obtain ⟨hinv, hin⟩ := Sys.InStep.of_orderly hrun
  have hentry := (hin.step hinv hstep (hinv.happens .any hstep) hl).2
  exact hin.1.legal hentry (Db.ledger_state hr) (Db.ledger_state hr') hne

/-- A finalization up to its commit. -/
def finalized : List Sys.Label :=
  Sys.issued ++ [.arrive 2 (.finalize_invoice 20 1 ⟨1⟩)] ++ Sys.go (.call 2) 3

theorem transitions_legal_finalize : ∃ σ ∈ Sys.initial.steps finalized,
    ∃ σ' ∈ σ.step (.exec (.call 2) Sys.calm), ∃ r ∈ σ.db.invoice 20, ∃ r' ∈ σ'.db.invoice 20,
      r'.state ≠ r.state ∧ Ledger.Legal r.state r'.state := by
  obtain ⟨σ, hσ, hok, hl, σ', hstep, r, hr, r', hr', hne⟩ : ∃ σ ∈ Sys.initial.steps finalized,
    Sys.initial.Allowed Orderly finalized ∧ Orderly σ (.exec (.call 2) Sys.calm) ∧
    ∃ σ' ∈ σ.step (.exec (.call 2) Sys.calm), ∃ r ∈ σ.db.invoice 20, ∃ r' ∈ σ'.db.invoice 20,
      r'.state ≠ r.state := by decide +kernel
  exact ⟨σ, hσ, σ', hstep, r, hr, r', hr', hne,
    transitions_legal (Sys.run_of_steps hσ hok) hl hstep hr hr' hne⟩

/-- A finalization that asks for version 2 has seen the draft at version 1 when a void, which takes
    version 1, commits. -/
def finalized_void : List Sys.Label :=
  Sys.issued ++ [.arrive 2 (.finalize_invoice 20 1 ⟨2⟩), .arrive 3 (.void_invoice 20 1 ⟨1⟩)] ++
  Sys.go (.call 2) 2 ++ Sys.go (.call 3) 4 ++ Sys.go (.call 2) 1

theorem void_invoice_reopened : ¬∀ (σ σ' : Sys) (l : Sys.Label), σ.Reachable →
    σ.step l = some σ' → ∀ i r r', σ.db.invoice i = some r → σ'.db.invoice i = some r' →
      r'.state ≠ r.state → Ledger.Legal r.state r'.state := by
  obtain ⟨σ, hσ, r, hr, hs, σ', hstep, r', hr', hs'⟩ : ∃ σ ∈ Sys.initial.steps finalized_void,
    ∃ r ∈ σ.db.invoice 20, r.state = .Void ∧ ∃ σ' ∈ σ.step (.exec (.call 2) Sys.calm),
      ∃ r' ∈ σ'.db.invoice 20, r'.state = .Open := by decide +kernel
  intro h
  have hlegal := h σ σ' _ (Sys.reachable_of_steps hσ) hstep 20 r r' hr hr' (by rw [hs, hs']; nofun)
  rw [hs, hs'] at hlegal
  rcases hlegal with h | ⟨h, -⟩ <;> cases h

/-! ### One operation after another -/

/-- Process `q` does not run while another one takes a step. -/
def Rests (σ : Sys) : Sys.Label → Pid → Prop
  | .exec p _, q => q ≠ p → σ.head q = none
  | _, _ => True

instance (σ : Sys) : ∀ (l : Sys.Label) (q : Pid), Decidable (Rests σ l q)
  | .exec _ _, _ => inferInstanceAs (Decidable (_ → _))
  | .arrive .., _ | .background _, _ | .tick, _ | .webhook_tick, _ | .kill _, _ => isTrue trivial

theorem Rests.of_none {q : Pid} (h : σ.procs q = none) : Rests σ l q := by
  cases l with
  | exec p c => exact fun _ => Sys.head_of_none h
  | _ => trivial

/-- Operations run one after another: a process takes a step only when no other one has begun and
    is not done. It may be cut off anywhere. -/
def Sequential (σ : Sys) (l : Sys.Label) : Prop := ∀ q, Rests σ l q

def Setting.alone_any : Setting := { Setting.any with alone := True }

theorem Sequential.honours (h : Sequential σ l) : Honours .alone_any σ l where
  answer := fun p c e _ _ => by cases e <;> trivial
  alone := fun _ p c hl q hq => by subst hl; exact h q hq
  start := fun _ => trivial
  drafts := nofun
  scans := nofun

/-- What a process commits that runs alone is timely: the attempt that it settles has been pending
    ever since it looked. -/
theorem Effect.timely (h : Effect K T past db j ws) (hK : K.alone) : Commit.Timely ⟨T, db, ws⟩ := by
  intro row' hrow' hs row hrow
  rw [Commit.mem_attempts] at hrow'
  cases h with
  | pay_start _ hnew =>
    obtain rfl : row' = _ := by simpa using hrow'
    subst hnew
    exact absurd rfl hs
  | @pay_record b i k req a row₀ r kr o ans t hb hrow₀ =>
    obtain rfl : row' = o.record t row₀ := by simpa using hrow'
    obtain ⟨row₁, hrow₁, -, -, hpending⟩ := hb.attempt
    obtain rfl := Option.some.inj (hrow₁.symm.trans hrow₀)
    rw [Outcome.record_id, Db.id_of_attempt hrow₁] at hrow
    obtain rfl := Option.some.inj (hrow.symm.trans hrow₁)
    exact .inl (hpending hK)
  | @retry a row₀ n at_ t hrow₀ =>
    obtain rfl : row' = _ := by simpa using hrow'
    have hid : db.attempt row₀.id = some row := hrow
    rw [Db.id_of_attempt hrow₀] at hid
    obtain rfl := Option.some.inj (hid.symm.trans hrow₀)
    exact .inr ⟨rfl, nofun⟩
  | @settle row₀ r o t hrow₀ _ _ _ hpending =>
    obtain rfl : row' = o.record t row₀ := by simpa using hrow'
    rw [Outcome.record_id] at hrow
    obtain rfl := Option.some.inj (hrow.symm.trans hrow₀)
    exact .inl (hpending hK)
  | @settle_only row₀ o t hrow₀ _ _ hpending =>
    obtain rfl : row' = o.record t row₀ := by simpa using hrow'
    rw [Outcome.record_id] at hrow
    obtain rfl := Option.some.inj (hrow.symm.trans hrow₀)
    exact .inl (hpending hK)
  | edit_items _ _ _ hpre =>
    rcases hpre with ⟨rfl, rfl⟩ | ⟨rfl, -⟩ <;> simp at hrow'
  | _ => simp at hrow'

/-- Nor does it finalize anything but a draft. -/
theorem Effect.drafted (h : Effect K T past db j ws) (hK : K.alone) :
    Commit.Drafted ⟨T, db, ws⟩ (some j) := by
  cases h with
  | finalize hr _ _ _ _ hdraft =>
    intro r hr'
    obtain rfl := Option.some.inj (hr'.symm.trans hr)
    exact .inl (hdraft hK)
  | _ => trivial

/-- What a step commits is an effect of its process's job. -/
theorem Happens.commits (h : Happens K σ l σ') (hstep : σ.step l = some σ') {c : Commit}
    (hc : c ∈ σ.commits l) : ∃ j, σ.job c.pid = some j ∧ c.before = σ.db ∧
      Effect K c.pid σ.world.history σ.db j c.writes := by
  have hquiet : σ'.world.history ≠ σ.world.history := fun hh => by
    rw [Sys.commits, hstep, Option.bind_some, if_neg (by rw [hh]; exact Nat.lt_irrefl _)] at hc
    cases hc
  cases h with
  | quiet _ hh _ => exact absurd hh hquiet
  | send _ _ _ _ _ _ hh => exact absurd hh hquiet
  | commit p j ws hp _ hh _ he =>
    obtain rfl := Option.some.inj (hc.symm.trans (Sys.commits_of_step hstep hh))
    exact ⟨j, hp, rfl, he⟩

/-- CORRECT (good order): whole operations that run one after another commit in good order. -/
theorem Sequential.orderly (hrun : Sys.Run Sequential .initial σ) (hl : Sequential σ l) :
    Orderly σ l := by
  intro c hc
  obtain ⟨σ', hstep, -⟩ := Option.bind_eq_some_iff.mp hc
  have hinv := Inv.initial.run (fun _ _ => Sequential.honours) hrun
  obtain ⟨j, hj, hb, he⟩ := (hinv.happens hl.honours hstep).commits hstep hc
  obtain ⟨p, before, ws⟩ := c
  cases hb
  rw [hj]
  exact ⟨he.timely trivial, he.drafted trivial⟩

theorem Sequential.run_orderly (hrun : Sys.Run Sequential .initial σ) :
    Sys.Run Orderly .initial σ := by
  induction hrun with
  | refl => exact .refl
  | tail hrun hs ih =>
    obtain ⟨l, hl, hstep⟩ := hs
    exact ih.tail ⟨l, Sequential.orderly hrun hl, hstep⟩

/-- CORRECT (in step): after any sequence of whole operations the attempts of every invoice are as
    its state says. -/
theorem invoices_fit_attempts (hrun : Sys.Run Sequential .initial σ) {i : Uuid} {r : Invoice}
    (hr : σ.db.invoice i = some r) : σ.db.ledger.Fits i r.state :=
  (Sys.InStep.of_orderly (Sequential.run_orderly hrun)).2.1.fits i r.state (Db.ledger_state hr)

/-- A declined payment and one that is cut off right after its first transaction. -/
def cut_off : List Sys.Label :=
  Sys.opened ++ Sys.pays 3 "k" 2 40 ++
  Sys.answered (.call 3) (.response 200 (some ⟨"failed", none, some "card_declined"⟩)) ++
  Sys.go (.call 3) 6 ++ Sys.pays 4 "l" 4 41 ++ [.kill (.call 4)]

theorem invoices_fit_attempts_cut_off : ∃ σ ∈ Sys.initial.steps cut_off,
    σ.db.ledger.Fits 20 .Processing := by
  obtain ⟨σ, hσ, hok, r, hr, hs⟩ : ∃ σ ∈ Sys.initial.steps cut_off,
    Sys.initial.Allowed (fun σ l => ∀ q ∈ [.call 0, .call 1, .call 2, .call 3, .call 4],
      Rests σ l q) cut_off ∧ ∃ r ∈ σ.db.invoice 20, r.state = .Processing := by decide +kernel
  have hall : Sys.initial.Allowed Sequential cut_off :=
    .of_started (fun σ l q => Rests.of_none) _ _ (fun _ _ => rfl) (by decide) hok
  exact ⟨σ, hσ, hs ▸ invoices_fit_attempts (Sys.run_of_steps hσ hall) hr⟩

end Payman
