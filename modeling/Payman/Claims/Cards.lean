import Payman.Claims.Books

/-! What becomes of a card.

    The row of an attempt agrees with the PSP's book, unless the worker has given the attempt up
    after 24 hours; and the book has the outcome that the card stands for. In an orderly run the book
    then has one accepted charge for an invoice at most. -/

namespace Payman
open Schemes

/-! ### Rows and the book -/

/-- The row of an attempt agrees with what the PSP has on record of it. -/
structure AttemptRow.Agrees (o : Option PspBody) (row : AttemptRow) : Prop where
  succeeded : row.status = .Succeeded →
    ∃ psp, o = some psp ∧ psp.status = "succeeded" ∧ row.psp_reference = psp.psp_ref
  failed : row.status = .Failed → row.failure_code = some "reconciliation_timeout" ∨
    ∃ psp, o = some psp ∧ psp.status = "failed" ∧ row.failure_code = psp.code

/-- The PSP has said the outcome. -/
def Outcome.Told (o : Option PspBody) : Outcome → Prop
  | .succeeded psp_ref => ∃ psp, o = some psp ∧ psp.status = "succeeded" ∧ psp_ref = psp.psp_ref
  | .failed code => ∃ psp, o = some psp ∧ psp.status = "failed" ∧ code = psp.code
  | .expired => True

variable {o : Option PspBody} {out : Outcome}

theorem Outcome.Told.agrees (h : out.Told o) (t : DateTime) (row : AttemptRow) :
    (out.record t row).Agrees o := by
  cases out with
  | succeeded psp_ref => exact ⟨fun _ => h, nofun⟩
  | failed code => exact ⟨nofun, fun _ => .inr h⟩
  | expired => exact ⟨nofun, fun _ => .inl rfl⟩

/-- What `pay_invoice` reads from the answer to its charge. -/
theorem told_of_post {ans : Answer} (hreads : ans.Reads o)
    (hcomplete : ∀ psp, o = some psp → psp.Complete) (hout : (psp_result ans).outcome = some out) :
    out.Told o := by
  cases ans with
  | timed_out => cases hout
  | network_error => cases hout
  | response status body =>
    simp only [psp_result] at hout
    split at hout
    · cases body with
      | none => cases hout
      | some psp =>
        obtain ⟨-, ho⟩ := hreads
        rcases hcomplete psp ho with ⟨hs, href⟩ | ⟨hs, hcode⟩
        · obtain ⟨ref, href⟩ := Option.isSome_iff_exists.mp href
          simp only [hs, if_true, PspResult.outcome, Option.some.injEq] at hout
          subst hout
          exact ⟨psp, ho, hs, by rw [href]; rfl⟩
        · obtain ⟨code, hcode⟩ := Option.isSome_iff_exists.mp hcode
          simp only [hs, String.reduceEq, if_false, PspResult.outcome, Option.some.injEq] at hout
          subst hout
          exact ⟨psp, ho, hs, by rw [hcode]; rfl⟩
    · cases hout

/-- What the worker reads from an answer about its attempt, or does without one. -/
theorem told_of_evidence {book : Uuid → Option PspBody} {row : AttemptRow} {t : DateTime}
    (h : Evidence (.books book) row t out) : out.Told (book row.id) := by
  have hread : ∀ status psp, is_success status = true ∧
      (Answer.response status (some psp)).Reads (book row.id) → psp.outcome = some out →
      out.Told (book row.id) := fun status psp ⟨_, _, ho⟩ hout => by
    unfold PspBody.outcome at hout
    split at hout
    · rename_i hs
      cases hout
      exact ⟨psp, ho, hs, rfl⟩
    · split at hout
      · rename_i hs
        cases hout
        exact ⟨psp, ho, hs, rfl⟩
      · cases hout
  cases out with
  | expired => trivial
  | succeeded psp_ref =>
    obtain ⟨status, psp, hok, hout⟩ := h
    exact hread status psp hok hout
  | failed code =>
    obtain ⟨status, psp, hok, hout⟩ := h
    exact hread status psp hok hout

section
variable {book : Uuid → Option PspBody} {T : Pid} {past : List Commit} {db : Db} {j : Job}
  {ws : List Write} {a : Uuid} {row : AttemptRow}

/-- CORRECT (step): the attempt rows that a commit writes agree with the book if those before did. -/
theorem Effect.agrees (h : Effect (.books book) T past db j ws)
    (hcomplete : ∀ a psp, book a = some psp → psp.Complete)
    (hold : ∀ a row, db.attempt a = some row → row.Agrees (book a))
    (hrow : Write.put_attempt row ∈ ws) : row.Agrees (book row.id) := by
  cases h with
  | pay_start hr hrow' hfresh hkr =>
    obtain rfl : row = _ := by simpa using hrow
    rw [hrow']
    exact ⟨nofun, nofun⟩
  | @pay_record b i k req a row' r kr o ans t hb hrow' hr hmax hkr hans ho =>
    obtain rfl : row = o.record t row' := by simpa using hrow
    rw [Outcome.record_id, Db.id_of_attempt hrow']
    exact (told_of_post hans (hcomplete _) ho).agrees t row'
  | @retry a row' n at_ t hrow' =>
    obtain rfl : row = _ := by simpa using hrow
    have hagrees := hold a row' hrow'
    rw [← Db.id_of_attempt hrow'] at hagrees
    exact ⟨hagrees.succeeded, hagrees.failed⟩
  | @settle row' r o t hrow' hr ho =>
    obtain rfl : row = o.record t row' := by simpa using hrow
    rw [Outcome.record_id]
    exact (told_of_evidence ho).agrees t row'
  | @settle_only row' o t hrow' ho =>
    obtain rfl : row = o.record t row' := by simpa using hrow
    rw [Outcome.record_id]
    exact (told_of_evidence ho).agrees t row'
  | edit_items _ _ _ hpre =>
    rcases hpre with ⟨rfl, rfl⟩ | ⟨rfl, -⟩ <;> simp at hrow
  | _ => simp at hrow

/-- CORRECT (history): in every committed state the attempts agree with the book. -/
theorem History.agrees {job : Pid → Option Job} (h : History (.books book) job past db)
    (hcomplete : ∀ a psp, book a = some psp → psp.Complete) :
    ∀ a row, db.attempt a = some row → row.Agrees (book a) := by
  induction h with
  | nil => exact nofun
  | @cons past db p j ws h hp he ih =>
    intro a row hrow
    rcases Db.attempt_applyAll_cases a ws db with ⟨heq, -⟩ | ⟨row', hput, rfl, heq⟩
    · exact ih a row (heq ▸ hrow)
    · cases heq.symm.trans hrow
      exact he.agrees hcomplete ih hput

end

/-! ### Reachable states of the closed system -/

namespace Closed
variable {s : Closed} {a : Uuid} {row : AttemptRow}

theorem Inv.agrees (h : s.Inv) (hrun : Sys.Run (OnRecord s.book) .initial s.payman)
    (hrow : s.payman.db.attempt a = some row) : row.Agrees (s.book a) :=
  (Payman.Inv.initial.run (fun _ _ => OnRecord.honours) hrun).history.agrees
    (fun _ _ ha => h.complete ha) a row hrow

/-- CORRECT (rows and the book): an attempt that Payman has as succeeded is accepted in the PSP's
    book under the reference that Payman has; one that it has as failed is declined there with the
    same code, unless the worker has given it up. -/
theorem rows_agree (h : s.Reachable) (hrow : s.payman.db.attempt a = some row) :
    row.Agrees (s.book a) := h.reading.1.agrees h.reading.2 hrow

/-- The call comes to nothing for Payman, the spawned task settles the charge, and the worker finds
    out. -/
def found_out : List Label :=
  during Sys.opened ++ charges 3 "k" 2 40 "tok_timeout" ++
  [.handle (.call 3) 7, .handle (.call 3) 7, .elapse 5000000] ++
  during ([.exec (.call 3) { Sys.calm with elapsed := 5000000 }] ++ Sys.go (.call 3) 1) ++
  [.hang_up (.call 3), .settle 0 9, .settle 0 9] ++
  during ([.tick] ++ Sys.go .worker 1 ++
    Sys.answered .worker (.response 200 (some ⟨"succeeded", some (hyphenated 9), none⟩)) ++
    Sys.go .worker 4)

theorem rows_agree_found_out : ∃ s ∈ initial.steps found_out, ∃ row ∈ s.payman.db.attempt 40,
    row.status = .Succeeded ∧ row.Agrees (s.book 40) := by
  obtain ⟨s, hs, row, hrow, hstatus⟩ : ∃ s ∈ initial.steps found_out,
    ∃ row ∈ s.payman.db.attempt 40, row.status = .Succeeded := by decide +kernel
  exact ⟨s, hs, row, hrow, hstatus, rows_agree (reachable_of_steps hs) hrow⟩

/-- The outcome on record is the one that the card of the attempt stands for. -/
theorem Inv.settles (h : s.Inv) (hrow : s.payman.db.attempt a = some row) {psp : PspBody}
    (ha : s.book a = some psp) :
    ∃ o, s.psp.store a = some o ∧ psp = o.body ∧ MockPsp.Settles row.card_token o := by
  obtain ⟨o, ho, rfl⟩ := Option.map_eq_some_iff.mp ha
  obtain ⟨ch, hch, rfl, hset⟩ := h.entries a o ho
  obtain ⟨row', -, -, -, hrow', -, -, hcard⟩ := h.payman.attempt_of_charge hch
  obtain rfl := Option.some.inj (hrow.symm.trans hrow')
  exact ⟨o, ho, rfl, hcard ▸ hset⟩

/-- CORRECT (cards): only the two cards that the PSP accepts lead to a paid attempt, and what it is
    paid under is the reference that the PSP has drawn and stored for it; an attempt fails with the
    code of its card, or because it was given up. -/
theorem card_decides (h : s.Reachable) (hrow : s.payman.db.attempt a = some row) :
    (row.status = .Succeeded → (row.card_token = "tok_success" ∨ row.card_token = "tok_timeout") ∧
      ∃ u, s.psp.store a = some (MockPsp.succeeded u) ∧ row.psp_reference = some (hyphenated u)) ∧
    (row.status = .Failed → row.failure_code = some "reconciliation_timeout" ∨
      (row.card_token = "tok_insufficient_funds" ∧
        row.failure_code = some "insufficient_funds") ∨
      (row.card_token = "tok_card_declined" ∧ row.failure_code = some "card_declined")) := by
  obtain ⟨hinv, hrun⟩ := h.reading
  have hagrees := hinv.agrees hrun hrow
  refine ⟨fun hs => ?_, fun hs => ?_⟩
  · obtain ⟨psp, ha, hpaid, href⟩ := hagrees.succeeded hs
    obtain ⟨o, hstore, rfl, hset⟩ := hinv.settles hrow ha
    obtain ⟨hcard, u, rfl⟩ := hset.of_succeeded hpaid
    exact ⟨hcard, u, hstore, href⟩
  · rcases hagrees.failed hs with hexpired | ⟨psp, ha, hfailed, hcode⟩
    · exact .inl hexpired
    · right
      obtain ⟨o, -, rfl, hset⟩ := hinv.settles hrow ha
      obtain ⟨code, rfl, ⟨hcard, rfl⟩ | ⟨hcard, rfl⟩⟩ := hset.of_failed hfailed
      · exact .inl ⟨hcard, hcode⟩
      · exact .inr ⟨hcard, hcode⟩

/-- A card is declined, and another one goes through. -/
def second_card : List Label :=
  during Sys.opened ++ charges 3 "k" 2 40 "tok_card_declined" ++
  [.handle (.call 3) 7, .elapse 100000, .handle (.call 3) 7] ++
  during ([.exec (.call 3) { Sys.calm with
    elapsed := 100000, answer := .response 200 (some ⟨"failed", none, some "card_declined"⟩) }] ++
    Sys.go (.call 3) 5) ++
  charges 4 "l" 4 41 "tok_success" ++ settles 4 ⟨"succeeded", some (hyphenated 7), none⟩

theorem card_decides_second : ∃ s ∈ initial.steps second_card, ∃ row ∈ s.payman.db.attempt 40,
    row.status = .Failed ∧ row.failure_code = some "card_declined" ∧
    (row.status = .Failed → row.failure_code = some "reconciliation_timeout" ∨
      (row.card_token = "tok_insufficient_funds" ∧
        row.failure_code = some "insufficient_funds") ∨
      (row.card_token = "tok_card_declined" ∧ row.failure_code = some "card_declined")) := by
  obtain ⟨s, hs, row, hrow, hstatus, hcode⟩ : ∃ s ∈ initial.steps second_card,
    ∃ row ∈ s.payman.db.attempt 40, row.status = .Failed ∧
      row.failure_code = some "card_declined" := by decide +kernel
  exact ⟨s, hs, row, hrow, hstatus, hcode, (card_decides (reachable_of_steps hs) hrow).2⟩

end Closed

/-! ### At most one accepted charge -/

/-- Attempts of one invoice that have not failed are one attempt. -/
theorem Ledger.InStep.live_unique {I A : Type} {g : Ledger I A} (h : g.InStep) {a b : A} {i : I}
    {st st' : PaymentStatus} (ha : g.attempt a = some (i, st)) (hb : g.attempt b = some (i, st'))
    (hst : st ≠ .Failed) (hst' : st' ≠ .Failed) : a = b := by
  obtain ⟨s, hs, -⟩ := h.known a i st ha
  have hfits := h.fits i s hs
  have hone : ∀ c, (∀ b st, b ≠ c → g.attempt b = some (i, st) → st = .Failed) → a = b :=
    fun c hrest => by
      have hac : a = c := by
        by_contra hne
        exact hst (hrest a st hne ha)
      by_contra hne
      exact hst' (hrest b st' (fun hbc => hne (hac.trans hbc.symm)) hb)
  cases s with
  | Draft => exact absurd ha (hfits a st)
  | Void => exact absurd (hfits a st ha) hst
  | Open => exact absurd (hfits a st ha) hst
  | Uncollectible => exact hfits.elim
  | Processing =>
    obtain ⟨c, -, hrest⟩ := hfits
    exact hone c hrest
  | Paid =>
    obtain ⟨c, -, hrest⟩ := hfits
    exact hone c hrest

/-- The worker has given the attempt up. -/
def AttemptRow.Expired (row : AttemptRow) : Prop :=
  row.status = .Failed ∧ row.failure_code = some "reconciliation_timeout"

instance (row : AttemptRow) : Decidable row.Expired := inferInstanceAs (Decidable (_ ∧ _))

namespace Closed
variable {s : Closed}

/-- An attempt whose charge was accepted has not failed, unless it was given up. -/
theorem Inv.live_of_paid (h : s.Inv) (hrun : Sys.Run (OnRecord s.book) .initial s.payman) {a : Uuid}
    {row : AttemptRow} (hrow : s.payman.db.attempt a = some row) (hpaid : s.fate a = some .paid)
    (hexpired : ¬row.Expired) : row.status ≠ .Failed := by
  intro hs
  rcases (h.agrees hrun hrow).failed hs with hcode | ⟨psp, ha, hfailed, -⟩
  · exact hexpired ⟨hs, hcode⟩
  · rw [fate, ha, Option.bind_some, PspBody.fate, PspBody.outcome, hfailed] at hpaid
    simp [Outcome.verdict] at hpaid

/-- CORRECT (no double charge): in an orderly run the PSP's book accepts at most one charge for an
    invoice, apart from charges of attempts that the worker has given up. -/
theorem charged_once (hrun : Run (Where Orderly) initial s) {a₁ a₂ : Uuid} {row₁ row₂ : AttemptRow}
    (h₁ : s.payman.db.attempt a₁ = some row₁) (h₂ : s.payman.db.attempt a₂ = some row₂)
    (hi : row₁.invoice_id = row₂.invoice_id) (hpaid₁ : s.fate a₁ = some .paid)
    (hpaid₂ : s.fate a₂ = some .paid) (hexpired₁ : ¬row₁.Expired) (hexpired₂ : ¬row₂.Expired) :
    a₁ = a₂ := by
  obtain ⟨hinv, hpayman⟩ := hrun.reading
  have hreads := Schemes.Run.weaken (fun _ _ => And.left) hpayman
  have horderly := Schemes.Run.weaken (fun _ _ => And.right) hpayman
  have hlive₁ := hinv.live_of_paid hreads h₁ hpaid₁ hexpired₁
  have hlive₂ := hinv.live_of_paid hreads h₂ hpaid₂ hexpired₂
  exact (Sys.InStep.of_orderly horderly).2.1.live_unique (Db.ledger_attempt h₁)
    (hi ▸ Db.ledger_attempt h₂) hlive₁ hlive₂

theorem charged_once_second : ∃ s ∈ initial.steps second_card, s.fate 41 = some .paid ∧
    ∀ a row, s.payman.db.attempt a = some row → row.invoice_id = 20 → s.fate a = some .paid →
      a = 41 := by
  obtain ⟨s, hs, hok, hpaid, ⟨row, hrow, hi⟩, hexpired⟩ : ∃ s ∈ initial.steps second_card,
    Allowed step (Where Orderly) initial second_card ∧ s.fate 41 = some .paid ∧
    (∃ row ∈ s.payman.db.attempt 41, row.invoice_id = 20) ∧
    ∀ row ∈ s.payman.db.payment_attempts.rows, ¬row.Expired := by decide +kernel
  exact ⟨s, hs, hpaid, fun a row' hrow' hi' hpaid' => charged_once (run_of_steps hs hok) hrow' hrow
    (hi'.trans hi.symm) hpaid' hpaid (hexpired row' (Table.mem_of_find hrow'))
    (hexpired row (Table.mem_of_find hrow))⟩

end Closed

end Payman
