import Payman.Claims.Answers
import Payman.Claims.Charges
import Payman.Claims.Provenance

/-! What a notice is worth.

    Whoever gets a webhook that an invoice was paid can rely on it: the PSP has accepted a charge for
    the invoice. A notice of a failed payment has a declined charge behind it, or the worker, who has
    given the attempt up. -/

namespace Payman
open Schemes

namespace Closed
variable {s : Closed} {i : Uuid}

/-- What stands behind a notice of the event about invoice `i`. -/
inductive Backs (s : Closed) (i : Uuid) : String → Prop where
  | finalized {c : Commit} {b : Uuid} (hc : c ∈ s.payman.world.history) (h : c.Finalizes i b) :
      Backs s i "invoice.finalized"
  | paid {ch : Charge} {u : Uuid} (hch : s.payman.Orders i ch)
      (ho : s.psp.store ch.attempt_id = some (MockPsp.succeeded u)) : Backs s i "invoice.paid"
  | declined {ch : Charge} {code : String} (hch : s.payman.Orders i ch)
      (ho : s.psp.store ch.attempt_id = some (MockPsp.failed code)) :
      Backs s i "invoice.payment_failed"
  | given_up {c : Commit} {row : AttemptRow} (hc : c ∈ s.payman.world.history)
      (hrow : .put_attempt row ∈ c.writes) (hi : row.invoice_id = i) (h : row.Expired) :
      Backs s i "invoice.payment_failed"

/-- An outcome that was once committed is the PSP's, or the attempt was given up then. -/
theorem Inv.backs (h : s.Inv) (hrun : Sys.Run (OnRecord s.book) .initial s.payman) {event : String}
    {b : Uuid} (hhappened : s.payman.Happened i b event) : s.Backs i event := by
  cases hhappened with
  | finalized hc hf => exact .finalized hc hf
  | @settled c a v hc hsettles =>
    obtain ⟨row, hrow, -, rfl, hs⟩ := hsettles
    have hcomplete : ∀ a psp, s.book a = some psp → psp.Complete := fun _ _ => h.complete
    have hhistory := (Payman.Inv.initial.run (fun _ _ => OnRecord.honours) hrun).history
    obtain ⟨past, j, hpast, -, he⟩ := hhistory.of_mem hc
    have hagrees := he.agrees hcomplete (hpast.agrees hcomplete) hrow
    -- the row may have changed since then, but not its invoice
    obtain ⟨row', hrow', hi, -⟩ := (hhistory.since hc).attempt _ row (he.attempt_put hrow)
    cases v with
    | paid =>
      obtain ⟨psp, ha, hpaid, -⟩ := hagrees.succeeded hs
      obtain ⟨ch, o, hch, ho, rfl, hset⟩ := h.ordered hrow' ha
      obtain ⟨-, u, rfl⟩ := hset.of_succeeded hpaid
      exact .paid (hi ▸ hch) ho
    | declined =>
      rcases hagrees.failed hs with hcode | ⟨psp, ha, hfailed, -⟩
      · exact .given_up hc hrow rfl ⟨hs, hcode⟩
      · obtain ⟨ch, o, hch, ho, rfl, hset⟩ := h.ordered hrow' ha
        obtain ⟨code, rfl, -⟩ := hset.of_failed hfailed
        exact .declined (hi ▸ hch) ho

/-- CORRECT (a notice is worth something): behind every webhook POST ever made stands what it says:
    the committed finalization, or what the PSP has of a charge for the invoice, or that an attempt
    was given up. -/
theorem notices_are_backed (h : s.Reachable) {post : Post} (hpost : post ∈ s.payman.world.posts) :
    ∃ i b event now, post.payload = payload event i b now ∧ s.Backs i event := by
  obtain ⟨hinv, hrun⟩ := h.reading
  have htold := hrun.reachable.told
  obtain ⟨row, r, hrow, hpayload, -⟩ := htold.posts post hpost
  obtain ⟨t, ht, ⟨-, now, htells⟩, -⟩ := htold.deliveries _ row hrow
  have hhappened := htold.tasks t ht
  exact ⟨t.invoice_id, t.business_id, t.event_type, now, hpayload.symm.trans htells,
    hinv.backs hrun hhappened⟩

/-- Business 1 has an endpoint, and is told that its invoice was paid. -/
def paid_told : List Label :=
  during ([.arrive 9 (.create_endpoint 1 ⟨"https://a.example"⟩)] ++ Sys.go (.call 9) 1 ++
    Sys.fresh (.call 9) 50) ++
  paid ++
  during (Sys.go (.call 3) 1 ++ [.background 1] ++ Sys.go (.task 1) 2 ++ Sys.fresh (.task 1) 60 ++
    [.webhook_tick] ++ Sys.go .webhook_worker 3)

theorem notices_are_backed_paid : ∃ s ∈ initial.steps paid_told, ∃ post ∈ s.payman.world.posts,
    (post.payload.field "event").bind Json.as_str = some "invoice.paid" ∧
      s.Backs 20 "invoice.paid" := by
  obtain ⟨s, hs, post, hpost, hevent, hinvoice⟩ : ∃ s ∈ initial.steps paid_told,
      ∃ post ∈ s.payman.world.posts,
        (post.payload.field "event").bind Json.as_str = some "invoice.paid" ∧
        (post.payload.field "invoice_id").bind Json.as_uuid = some 20 := by decide +kernel
  obtain ⟨i, b, event, now, hpayload, hbacks⟩ := notices_are_backed (reachable_of_steps hs) hpost
  have hsays := hevent
  rw [hpayload] at hsays hinvoice
  obtain rfl : event = "invoice.paid" := Option.some.inj hsays
  obtain rfl : i = 20 := Option.some.inj hinvoice
  exact ⟨s, hs, post, hpost, hevent, hbacks⟩

end Closed

end Payman
