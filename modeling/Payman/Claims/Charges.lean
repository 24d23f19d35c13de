import Payman.Claims.Cards

/-! What a paid invoice stands for.

    An invoice becomes paid only in a commit that marks an attempt of it succeeded, and an attempt is
    marked succeeded only if the PSP's book has its charge as accepted. The book keeps the charge,
    whatever becomes of the row, so a paid invoice has been charged. -/

namespace Payman
open Schemes

/-- An invoice turns paid together with an attempt of it. -/
theorem Ledger.Turn.paid {I A : Type} [DecidableEq I] [DecidableEq A] {g g' : Ledger I A}
    (h : g.Turn g') {i : I} (hi : g'.state i = some .Paid) :
    g.state i = some .Paid ∨ ∃ a, g'.attempt a = some (i, .Succeeded) := by
  have hmove : ∀ {j s}, s ≠ .Paid → (g.move j s).state i = some .Paid → g.state i = some .Paid := by
    intro j s hs hpaid
    rw [move_state] at hpaid
    split at hpaid
    · exact absurd (Option.some.inj hpaid) hs
    · exact hpaid
  cases h with
  | stay => exact .inl hi
  | issue j => exact .inl (hmove (by decide) hi)
  | finalize j => exact .inl (hmove (by decide) hi)
  | void j => exact .inl (hmove (by decide) hi)
  | start j a => exact .inl (hmove (j := j) (s := .Processing) (by decide) hi)
  | settle j a st v ha =>
    rw [mark_state] at hi
    cases v with
    | declined => exact .inl (hmove (by decide) hi)
    | paid =>
      rw [move_state] at hi
      split at hi
      · rename_i hij
        subst hij
        exact .inr ⟨a, (mark_attempt ..).trans (if_pos rfl)⟩
      · exact .inl hi
  | settle_only j a st v ha => exact .inl hi

section
variable {book : Uuid → Option PspBody} {T : Pid} {past : List Commit} {db db' : Db} {j : Job}
  {ws : List Write} {i : Uuid} {r : Invoice}

/-- The book has an accepted charge of an attempt to pay invoice `i`. -/
def Db.Charged (book : Uuid → Option PspBody) (db : Db) (i : Uuid) : Prop :=
  ∃ a row psp, db.attempt a = some row ∧ row.invoice_id = i ∧ book a = some psp ∧
    psp.status = "succeeded"

theorem Db.Charged.grows (h : db.Charged book i) (hg : Grows db db') : db'.Charged book i := by
  obtain ⟨a, row, psp, hrow, hi, ha, hs⟩ := h
  obtain ⟨row', hrow', hi', -⟩ := hg.attempt a row hrow
  exact ⟨a, row', psp, hrow', hi'.trans hi, ha, hs⟩

/-- CORRECT (history): in every committed state the paid invoices have been charged. -/
theorem History.charged {job : Pid → Option Job} (h : History (.books book) job past db)
    (hcomplete : ∀ a psp, book a = some psp → psp.Complete) (hr : db.invoice i = some r)
    (hpaid : r.state = .Paid) : db.Charged book i := by
  induction h generalizing r with
  | nil => cases hr
  | @cons past db p j ws h hp he ih =>
    rcases he.turn.paid (hpaid ▸ Db.ledger_state hr) with hs | ⟨a, ha⟩
    · obtain ⟨r₀, hr₀, hpaid₀⟩ := Option.map_eq_some_iff.mp hs
      exact (ih hr₀ hpaid₀).grows he.grows
    · obtain ⟨row, hrow, heq⟩ := Option.map_eq_some_iff.mp ha
      obtain ⟨rfl, hs⟩ := Prod.mk.inj heq
      obtain ⟨psp, hpsp, hsucceeded, -⟩ :=
        ((History.cons h hp he).agrees hcomplete a row hrow).succeeded hs
      exact ⟨a, row, psp, hrow, rfl, hpsp, hsucceeded⟩

end

/-- A call that is to pay invoice `i` has ordered the charge, with the card given there. -/
def Sys.Orders (σ : Sys) (i : Uuid) (ch : Charge) : Prop :=
  ch ∈ σ.world.charges ∧ ∃ b k req, σ.job ch.pid = some (.call (.pay_invoice i b (some k) req)) ∧
    req.card_token = ch.card_token

namespace Closed
variable {s : Closed} {i : Uuid} {r : Invoice}

/-- What the PSP has of an attempt was ordered to pay the invoice of the attempt. -/
theorem Inv.ordered (h : s.Inv) {a : Uuid} {row : AttemptRow}
    (hrow : s.payman.db.attempt a = some row) {psp : PspBody} (ha : s.book a = some psp) :
    ∃ ch o, s.payman.Orders row.invoice_id ch ∧ s.psp.store ch.attempt_id = some o ∧ psp = o.body ∧
      MockPsp.Settles ch.card_token o := by
  obtain ⟨o, ho, rfl⟩ := Option.map_eq_some_iff.mp ha
  obtain ⟨ch, hch, rfl, hset⟩ := h.entries a o ho
  obtain ⟨row', b, k, req, hrow', hjob, hcard, -⟩ := h.payman.attempt_of_charge hch
  obtain rfl := Option.some.inj (hrow.symm.trans hrow')
  exact ⟨ch, o, ⟨hch, b, k, req, hjob, hcard⟩, ho, rfl, hset⟩

/-- CORRECT (paid means charged): behind every paid invoice is a charge that the PSP has accepted,
    sent by a call that was to pay this invoice and with the card given there. -/
theorem paid_means_charged (h : s.Reachable) (hr : s.payman.db.invoice i = some r)
    (hpaid : r.state = .Paid) : ∃ ch ∈ s.payman.world.charges, ∃ b k req u,
      s.payman.job ch.pid = some (.call (.pay_invoice i b (some k) req)) ∧
      req.card_token = ch.card_token ∧
      (ch.card_token = "tok_success" ∨ ch.card_token = "tok_timeout") ∧
      s.psp.store ch.attempt_id = some (MockPsp.succeeded u) := by
  obtain ⟨hinv, hrun⟩ := h.reading
  have hpayman := Payman.Inv.initial.run (fun _ _ => OnRecord.honours) hrun
  obtain ⟨a, row, psp, hrow, rfl, ha, hs⟩ :=
    hpayman.history.charged (fun _ _ ha => hinv.complete ha) hr hpaid
  obtain ⟨ch, o, ⟨hch, b, k, req, hjob, hcard⟩, ho, rfl, hset⟩ := hinv.ordered hrow ha
  obtain ⟨haccepts, u, rfl⟩ := hset.of_succeeded hs
  exact ⟨ch, hch, b, k, req, u, hjob, hcard, haccepts, ho⟩

theorem paid_means_charged_invoice : ∃ s ∈ initial.steps paid,
    ∃ ch ∈ s.payman.world.charges, ∃ b k req u,
      s.payman.job ch.pid = some (.call (.pay_invoice 20 b (some k) req)) ∧
      req.card_token = ch.card_token ∧
      (ch.card_token = "tok_success" ∨ ch.card_token = "tok_timeout") ∧
      s.psp.store ch.attempt_id = some (MockPsp.succeeded u) := by
  obtain ⟨s, hs, r, hr, hpaid⟩ : ∃ s ∈ initial.steps paid,
    ∃ r ∈ s.payman.db.invoice 20, r.state = .Paid := by decide +kernel
  exact ⟨s, hs, paid_means_charged (reachable_of_steps hs) hr hpaid⟩

end Closed

end Payman
