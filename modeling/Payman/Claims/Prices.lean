import Payman.Claims.Content
import Payman.Safety.Checks

/-! Nothing is billed for nothing.

    The schema lets an invoice be without items, and its total be zero. The checks are in the
    services: of a new invoice before its row is inserted, of an edit before the old items go. What
    concurrent edits leave behind may be more items than one of them asked for, but never none. -/

namespace Payman
open Schemes

/-- Every invoice has items and a total to pay, and every item costs something. -/
structure Db.Bills (db : Db) : Prop where
  total : ∀ i r, db.invoice i = some r → 0 < r.total_cents
  some_item : ∀ i r, db.invoice i = some r → db.items i ≠ []
  item : ∀ i, ∀ x ∈ db.items i, 0 < x.quantity ∧ 0 < x.unit_amount_cents

section
variable {K : Setting} {db : Db} {j : Job} {ws : List Write} {gone : List Uuid} {i : Uuid}
  {reqs : List CreateLineItemRequest} {lines : List LineItem}

/-- As many rows as items asked for. -/
theorem Inserted.ne_nil (h : Inserted db gone i reqs lines) (hreqs : reqs ≠ []) : lines ≠ [] := by
  have hrows := h.rows
  cases hrows with
  | nil => exact absurd rfl hreqs
  | cons => nofun

/-- The rows cost what was asked for. -/
theorem Inserted.positive (h : Inserted db gone i reqs lines) (hreqs : ∀ item ∈ reqs, item.Positive) :
    ∀ x ∈ lines, 0 < x.quantity ∧ 0 < x.unit_amount_cents := by
  have hrows := h.rows
  clear h
  induction hrows with
  | nil => exact nofun
  | cons hx _ ih =>
    obtain ⟨-, -, hq, hu⟩ := hx
    rw [List.forall_mem_cons] at hreqs ⊢
    refine ⟨?_, ih hreqs.2⟩
    rw [hq, hu]
    exact hreqs.1

/-- CORRECT (step): whoever has checked what it writes bills no invoice for nothing. -/
theorem Items.bills (h : ∀ i, Items K db j ws i) (hbill : j.Billable) (hdb : db.Bills) :
    (applyAll db ws).Bills where
  total := fun i r hr => by
    cases h i with
    | same _ htotal =>
      rw [hr] at htotal
      obtain ⟨r₀, hr₀, ht⟩ := Option.map_eq_some_iff.mp htotal.symm
      exact (show r₀.total_cents = r.total_cents from ht) ▸ hdb.total i r₀ hr₀
    | created hj _ hr' htotal _ _ =>
      cases hr.symm.trans hr'
      rw [htotal]
      exact (hbill _ (hj ▸ rfl)).total
    | replaced hj hreq _ _ _ hr' htotal _ _ =>
      cases hr.symm.trans hr'
      rw [htotal]
      exact (hbill _ (hj ▸ hreq)).total
  some_item := fun i r hr => by
    cases h i with
    | same hitems htotal =>
      rw [hr] at htotal
      obtain ⟨r₀, hr₀, -⟩ := Option.map_eq_some_iff.mp htotal.symm
      exact hitems ▸ hdb.some_item i r₀ hr₀
    | created hj _ _ _ hlines hitems =>
      rw [hitems]
      exact List.append_ne_nil_of_right_ne_nil _ (hlines.ne_nil (hbill _ (hj ▸ rfl)).nonempty)
    | replaced hj hreq _ _ _ _ _ hlines hitems =>
      rw [hitems]
      exact List.append_ne_nil_of_right_ne_nil _ (hlines.ne_nil (hbill _ (hj ▸ hreq)).nonempty)
  item := fun i x hx => by
    cases h i with
    | same hitems _ => exact hdb.item i x (hitems ▸ hx)
    | created hj _ _ _ hlines hitems =>
      rw [hitems, List.mem_append] at hx
      exact hx.elim (hdb.item i x) (hlines.positive (hbill _ (hj ▸ rfl)).positive x)
    | replaced hj hreq _ _ _ _ _ hlines hitems =>
      rw [hitems, List.mem_append] at hx
      refine hx.elim (fun hx => hdb.item i x (List.mem_of_mem_filter hx)) ?_
      exact hlines.positive (hbill _ (hj ▸ hreq)).positive x

/-- The claim of a draft writes no items and no total. -/
theorem Commit.Claims.bills {c : Commit} (hc : c.Claims) (hdb : c.before.Bills) : c.after.Bills := by
  obtain ⟨i, r, t, hr, hws⟩ := hc
  have hitems : ∀ k, Items .any c.before .tick c.writes k := fun k => by
    have hput := Db.invoice_applyAll k c.writes c.before
    rw [hws] at hput ⊢
    exact .of_put hr hput rfl rfl rfl
  exact Items.bills hitems nofun hdb

end

/-! ### Runs -/

/-- CORRECT (nothing for nothing): in every reachable state every invoice has a positive total and an
    item, and every item a positive number and price. -/
theorem every_invoice_bills {σ : Sys} (h : σ.Reachable) : σ.db.Bills := by
  induction h with
  | refl => exact ⟨nofun, nofun, nofun⟩
  | @tail τ τ' hτ hs ih =>
    obtain ⟨l, -, hstep⟩ := hs
    have hinv := Sys.Reachable.inv hτ
    cases Sys.moves hstep with
    | start p j => exact ih
    | kill p => exact ih
    | exec p c hl j e k w r hp hx =>
      show w.db.Bills
      cases (hinv.exec_keeps .any hp hx).1.1 with
      | quiet hdb _ _ => exact hdb ▸ ih
      | send _ _ hdb _ _ _ => exact hdb ▸ ih
      | commit ws hdb hh _ he =>
        rw [hdb]
        have hwatched := Sys.Reachable.watched hτ fun _ _ => Checking.upholds
        rcases (Checking.commits_checked hwatched hp hx hh).2 with hclaim | hbill
        · exact hclaim.bills ih
        · exact Items.bills he.items hbill ih

/-- Invoice 20 with other items. -/
def Sys.repriced : List Sys.Label :=
  issued ++ [.arrive 2 (.edit_invoice 20 1 ⟨none, some [⟨"more work", 3, 50⟩], 1⟩)] ++
    go (.call 2) 5 ++ fresh (.call 2) 31 ++ go (.call 2) 3

/-- An edit leaves one item, and 150 cents to pay. -/
theorem every_invoice_bills_repriced : ∃ σ ∈ Sys.initial.steps Sys.repriced,
    (σ.db.items 20).map (·.unit_amount_cents) = [50] ∧
      (σ.db.invoice 20).map (·.total_cents) = some 150 ∧ σ.db.Bills := by
  obtain ⟨σ, hσ, hitems, htotal⟩ : ∃ σ ∈ Sys.initial.steps Sys.repriced,
      (σ.db.items 20).map (·.unit_amount_cents) = [50] ∧
        (σ.db.invoice 20).map (·.total_cents) = some 150 := by decide +kernel
  exact ⟨σ, hσ, hitems, htotal, every_invoice_bills (Sys.reachable_of_steps hσ)⟩

end Payman
