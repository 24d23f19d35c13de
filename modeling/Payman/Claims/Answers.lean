import Payman.Claims.Cards
import Payman.Safety.Answers

/-! What the caller of a payment is told.

    An answer, from the call that was charged or from a replay, is a committed row of the attempt. An
    outcome in it is the PSP's, under the same reference or code, and neither the PSP nor the row says
    anything else later, unless the worker has given the attempt up. -/

namespace Payman
open Schemes

/-- The outcome that an answer tells is the one that the PSP has on record. -/
structure PaymentAttempt.Agrees (o : Option PspBody) (a : PaymentAttempt) : Prop where
  succeeded : a.status = .Succeeded →
    ∃ psp, o = some psp ∧ psp.status = "succeeded" ∧ a.psp_reference = psp.psp_ref
  failed : a.status = .Failed →
    ∃ psp, o = some psp ∧ psp.status = "failed" ∧ a.failure_code = psp.code

/-- The row of the attempt has what an answer told, unless the attempt was given up. -/
structure PaymentAttempt.Kept (row : AttemptRow) (a : PaymentAttempt) : Prop where
  invoice : row.invoice_id = a.invoice_id
  card : row.card_token = a.card_token
  created : row.created_at = a.created_at
  succeeded : a.status = .Succeeded → row.Expired ∨
    row.status = .Succeeded ∧ row.psp_reference = a.psp_reference
  failed : a.status = .Failed → row.Expired ∨
    row.status = .Failed ∧ row.failure_code = a.failure_code

section
variable {K : Setting} {book : Uuid → Option PspBody} {T : Pid} {past : List Commit} {db : Db}
  {j : Job} {ws : List Write} {row : AttemptRow} {kr : IdempotencyKey}

theorem Outcome.Told.heard {o : Option PspBody} {out : Outcome} (h : out.Told o)
    (hout : out ≠ .expired) (t : DateTime) (row : AttemptRow) :
    (out.record t row).toPaymentAttempt.Agrees o := by
  cases out with
  | succeeded psp_ref =>
    refine ⟨fun _ => h, fun hs => ?_⟩
    cases hs
  | failed code =>
    refine ⟨fun hs => ?_, fun _ => h⟩
    cases hs
  | expired => exact absurd rfl hout

/-- The outcome that a payment reads is never that its attempt has expired. -/
theorem PspResult.outcome_ne_expired {r : PspResult} {o : Outcome} (h : r.outcome = some o) :
    o ≠ .expired := by
  cases r with
  | Succeeded psp_ref => cases h; exact fun heq => by cases heq
  | Failed code => cases h; exact fun heq => by cases heq
  | TimedOut => cases h
  | NetworkError => cases h

/-- A commit leaves behind the attempt row that it writes. -/
theorem Effect.attempt_put (h : Effect K T past db j ws) (hrow : Write.put_attempt row ∈ ws) :
    (applyAll db ws).attempt row.id = some row := by
  rcases Db.attempt_applyAll_cases row.id ws db with ⟨-, hno⟩ | ⟨row', hput, -, heq⟩
  · exact absurd rfl (hno row hrow)
  · suffices row' = row from this ▸ heq
    -- no commit writes two of them
    cases h with
    | pay_start | pay_record | retry | settle | settle_only =>
      simp only [List.mem_cons, reduceCtorEq, Write.put_attempt.injEq, List.not_mem_nil, or_false,
        false_or] at hrow hput
      exact hput.trans hrow.symm
    | edit_items _ _ _ hpre =>
      rcases hpre with ⟨rfl, -⟩ | ⟨rfl, -⟩ <;> simp at hrow
    | _ => simp at hrow

/-- CORRECT (step): an attempt that is written with the record of a key is one of the key's invoice,
    and has an outcome only if the PSP has said so. -/
theorem Effect.heard (h : Effect (.books book) T past db j ws)
    (hcomplete : ∀ a psp, book a = some psp → psp.Complete) (hrow : Write.put_attempt row ∈ ws)
    (hkr : Write.put_key kr ∈ ws) :
    row.invoice_id = kr.invoice_id ∧ row.toPaymentAttempt.Agrees (book row.id) := by
  cases h with
  | @pay_start b i a k req r row' kr' t _ hrow' _ hkr' =>
    obtain rfl : row = row' := by simpa using hrow
    obtain rfl : kr = kr' := by simpa using hkr
    refine ⟨by rw [hrow', hkr'], ?_⟩
    rw [hrow']
    constructor
    · intro hs
      cases hs
    · intro hs
      cases hs
  | @pay_record b i k req a row' r kr' o ans t hb hrow' _ _ hkr' hans ho =>
    obtain rfl : row = o.record t row' := by simpa using hrow
    obtain rfl : kr = _ := by simpa using hkr
    obtain ⟨row₀, hrow₀, hi, -⟩ := hb.attempt
    obtain rfl : row' = row₀ := Option.some.inj (hrow'.symm.trans hrow₀)
    have hindex : kr'.index = (k, b, i) := Db.index_of_key hkr'
    constructor
    · rw [Outcome.record_invoice_id, hi]
      exact (congrArg (fun t : KeyIndex => t.2.2) hindex).symm
    · rw [Outcome.record_id, Db.id_of_attempt hrow']
      exact (told_of_post hans (hcomplete _) ho).heard (PspResult.outcome_ne_expired ho) t row'
  | edit_items _ _ _ hpre =>
    rcases hpre with ⟨rfl, -⟩ | ⟨rfl, -⟩ <;> simp at hkr
  | _ => simp at hrow hkr

/-- What a commit has left behind lasts. -/
theorem History.since {job : Pid → Option Job} {c : Commit} (h : History K job past db)
    (hc : c ∈ past) : Lasts (applyAll c.before c.writes) db := by
  induction h with
  | nil => cases hc
  | cons h hp he ih =>
    rcases List.mem_cons.mp hc with rfl | hc
    · exact .refl _
    · exact (ih hc).trans he.lasts

end

/-- A settled row that agrees with the book has what a true answer told. -/
theorem PaymentAttempt.Agrees.kept {o : Option PspBody} {row row' : AttemptRow}
    (h : row.toPaymentAttempt.Agrees o) (h' : row'.Agrees o) (hi : row'.invoice_id = row.invoice_id)
    (hcard : row'.card_token = row.card_token) (htime : row'.created_at = row.created_at)
    (hfinal : row.status ≠ .Pending → row'.status ≠ .Pending) :
    row.toPaymentAttempt.Kept row' := by
  refine ⟨hi, hcard, htime, fun hs => ?_, fun hs => ?_⟩
  · obtain ⟨psp, rfl, hpaid, href⟩ := h.succeeded hs
    cases hs' : row'.status with
    | Pending => exact absurd hs' (hfinal (hs ▸ fun heq => by cases heq))
    | Succeeded =>
      obtain ⟨psp', hpsp, -, href'⟩ := h'.succeeded hs'
      exact .inr ⟨rfl, href'.trans (Option.some.inj hpsp ▸ href.symm)⟩
    | Failed =>
      rcases h'.failed hs' with hcode | ⟨psp', hpsp, hfailed, -⟩
      · exact .inl ⟨hs', hcode⟩
      · cases hpsp
        exact absurd (hpaid.symm.trans hfailed) (by decide)
  · obtain ⟨psp, rfl, hfailed, hcode⟩ := h.failed hs
    cases hs' : row'.status with
    | Pending => exact absurd hs' (hfinal (hs ▸ fun heq => by cases heq))
    | Succeeded =>
      obtain ⟨psp', hpsp, hpaid, -⟩ := h'.succeeded hs'
      cases hpsp
      exact absurd (hpaid.symm.trans hfailed) (by decide)
    | Failed =>
      rcases h'.failed hs' with hcode' | ⟨psp', hpsp, -, hcode'⟩
      · exact .inl ⟨hs', hcode'⟩
      · exact .inr ⟨rfl, hcode'.trans (Option.some.inj hpsp ▸ hcode.symm)⟩

namespace Closed
variable {s : Closed} {p : Pid} {i b : Uuid} {k : String} {req : PayInvoiceRequest}
  {a : PaymentAttempt}

/-- CORRECT (true answers): whatever attempt a payment returns, in this state and in every later one
    it is an attempt of that invoice; an outcome in the answer is the one in the PSP's book, and the
    row of the attempt still has it, unless the worker has given the attempt up. -/
theorem answers_hold (h : s.Reachable)
    (hp : s.payman.job p = some (.call (.pay_invoice i b (some k) req)))
    (ha : s.payman.answer p = some a) : a.invoice_id = i ∧ a.Agrees (s.book a.id) ∧
      ∃ row, s.payman.db.attempt a.id = some row ∧ a.Kept row := by
  obtain ⟨hinv, hrun⟩ := h.reading
  have hcomplete : ∀ a psp, s.book a = some psp → psp.Complete := fun _ _ => hinv.complete
  have hhistory := (Payman.Inv.initial.run (fun _ _ => OnRecord.honours) hrun).history
  obtain ⟨c, hc, row, kr, hrow, rfl, hkr, ht⟩ := hrun.reachable.answered (Sys.procs_of_answer ha hp)
  obtain ⟨past, j, -, -, he⟩ := hhistory.of_mem hc
  obtain ⟨hi, hheard⟩ := he.heard hcomplete hrow hkr
  have hput := he.attempt_put hrow
  have hlasts := hhistory.since hc
  obtain ⟨row', hrow', hi', hcard, htime⟩ := hlasts.attempt _ row hput
  have hindex : kr.invoice_id = i := congrArg (fun t : KeyIndex => t.2.2) ht
  refine ⟨hi.trans hindex, hheard, row', hrow', ?_⟩
  refine hheard.kept (hinv.agrees hrun hrow') hi' hcard htime fun hs => ?_
  obtain ⟨row'', hrow'', hs''⟩ := hlasts.final _ row hput hs
  exact Option.some.inj (hrow'.symm.trans hrow'') ▸ hs''

/-- The key of a payment that went through is used again, with another card. -/
def paid_again : List Label :=
  paid ++ during [.arrive 4 (.pay_invoice 20 1 (some "k") ⟨"tok_card_declined", 9⟩),
    .exec (.call 4) Sys.calm]

theorem answers_hold_again : ∃ s ∈ initial.steps paid_again, ∃ a ∈ s.payman.answer (.call 4),
    a.status = .Succeeded ∧ a.Agrees (s.book a.id) := by
  obtain ⟨s, hs, hp, a, ha, hstatus⟩ : ∃ s ∈ initial.steps paid_again,
    s.payman.job (.call 4) =
      some (.call (.pay_invoice 20 1 (some "k") ⟨"tok_card_declined", 9⟩)) ∧
    ∃ a ∈ s.payman.answer (.call 4), a.status = .Succeeded := by decide +kernel
  exact ⟨s, hs, a, ha, hstatus, (answers_hold (reachable_of_steps hs) hp ha).2.1⟩

end Closed

end Payman
