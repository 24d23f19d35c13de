import Payman.Safety.Drafts
import Payman.Safety.Frames
import Payman.Safety.Watches

/-! Rows that refer to rows.

    The schema ties the tables to each other: an invoice names its business and its customer, items,
    attempts and idempotency records name their invoice, a delivery names its endpoint. `Linked` says
    that all of these are there. No commit deletes a row that others may name, so it is enough that
    each write refers to what is there when it is made. -/

namespace Payman
open Schemes

variable {B B' : Uuid → Prop} {db : Db} {w : Write} {ws vs : List Write}

/-- Every row names businesses of `B` and rows that are there; and an invoice names a customer of its
    own business, which the schema does not ask for. -/
structure Db.Linked (B : Uuid → Prop) (db : Db) : Prop where
  invoice : ∀ i r, db.invoice i = some r → B r.business_id ∧ db.Serves r.business_id r.customer_id
  line_item : ∀ l x, db.line_item l = some x → ∃ r, db.invoice x.invoice_id = some r
  attempt : ∀ a row, db.attempt a = some row → ∃ r, db.invoice row.invoice_id = some r
  key : ∀ t kr, db.idempotency_key t = some kr →
    B kr.business_id ∧ ∃ r, db.invoice kr.invoice_id = some r
  customer : ∀ c r, db.customers.find c = some r → B r.business_id
  endpoint : ∀ e r, db.endpoint e = some r → B r.business_id
  delivery : ∀ d row, db.delivery d = some row → ∃ e, db.endpoint row.webhook_endpoint_id = some e

theorem Db.Linked.imp (h : db.Linked B) (himp : ∀ b, B b → B' b) : db.Linked B' where
  invoice := fun i r hr => (h.invoice i r hr).imp_left (himp _)
  line_item := h.line_item
  attempt := h.attempt
  key := fun t kr hkr => (h.key t kr hkr).imp_left (himp _)
  customer := fun c r hr => himp _ (h.customer c r hr)
  endpoint := fun e r hr => himp _ (h.endpoint e r hr)
  delivery := h.delivery

/-! ### One write -/

/-- The write refers to what is there. -/
def Write.Refers (B : Uuid → Prop) (db : Db) : Write → Prop
  | .put_invoice r => B r.business_id ∧ db.Serves r.business_id r.customer_id
  | .put_line_item x => ∃ r, db.invoice x.invoice_id = some r
  | .delete_line_item _ => True
  | .put_attempt row => ∃ r, db.invoice row.invoice_id = some r
  | .put_key kr => B kr.business_id ∧ ∃ r, db.invoice kr.invoice_id = some r
  | .put_customer r => B r.business_id ∧ db.customers.find r.id = none
  | .put_endpoint r => B r.business_id
  | .put_delivery row => ∃ e, db.endpoint row.webhook_endpoint_id = some e

/-- A row that is put stays, or is replaced. -/
theorem Table.find_put_isSome {ρ κ : Type} [Keyed ρ κ] [DecidableEq κ] {t : Table ρ} {r : ρ} {k : κ}
    (h : ∃ x, t.find k = some x) : ∃ x, (t.put r).find k = some x := by
  rw [Table.find_put]
  split
  · exact ⟨r, rfl⟩
  · exact h

namespace Write

theorem keeps_invoice {i : Uuid} (h : ∃ r, db.invoice i = some r) :
    ∃ r, (w.apply db).invoice i = some r := by
  cases w with
  | put_invoice r => exact Table.find_put_isSome h
  | _ => exact h

theorem keeps_endpoint {e : Uuid} (h : ∃ r, db.endpoint e = some r) :
    ∃ r, (w.apply db).endpoint e = some r := by
  cases w with
  | put_endpoint r => exact Table.find_put_isSome h
  | _ => exact h

/-- A customer that is there is not replaced. -/
theorem Refers.serves (hw : w.Refers B db) {cu b : Uuid} (h : db.Serves b cu) :
    (w.apply db).Serves b cu := by
  cases w with
  | put_customer r =>
    obtain ⟨c, hc, hb⟩ := h
    refine ⟨c, (Table.find_put_ne _ fun hid => ?_).trans hc, hb⟩
    cases hw.2.symm.trans (hid ▸ hc)
  | _ => exact h

/-- CORRECT (step): a write that refers to what is there keeps all rows linked. -/
theorem Refers.linked (hw : w.Refers B db) (h : db.Linked B) : (w.apply db).Linked B where
  invoice := fun i r hr => by
    refine And.imp_right hw.serves ?_
    cases w with
    | put_invoice r' => exact (Table.find_put_cases hr).elim (· ▸ hw) (h.invoice i r)
    | _ => exact h.invoice i r hr
  line_item := fun l x hx => keeps_invoice <| by
    cases w with
    | put_line_item x' => exact (Table.find_put_cases hx).elim (· ▸ hw) (h.line_item l x)
    | delete_line_item l' => exact h.line_item l x (Table.find_of_erase hx)
    | _ => exact h.line_item l x hx
  attempt := fun a row hrow => keeps_invoice <| by
    cases w with
    | put_attempt row' => exact (Table.find_put_cases hrow).elim (· ▸ hw) (h.attempt a row)
    | _ => exact h.attempt a row hrow
  key := fun t kr hkr => And.imp_right keeps_invoice <| by
    cases w with
    | put_key kr' => exact (Table.find_put_cases hkr).elim (· ▸ hw) (h.key t kr)
    | _ => exact h.key t kr hkr
  customer := fun c r hr => by
    cases w with
    | put_customer r' => exact (Table.find_put_cases hr).elim (· ▸ hw.1) (h.customer c r)
    | _ => exact h.customer c r hr
  endpoint := fun e r hr => by
    cases w with
    | put_endpoint r' => exact (Table.find_put_cases hr).elim (· ▸ hw) (h.endpoint e r)
    | _ => exact h.endpoint e r hr
  delivery := fun d row hrow => keeps_endpoint <| by
    cases w with
    | put_delivery row' => exact (Table.find_put_cases hrow).elim (· ▸ hw) (h.delivery d row)
    | _ => exact h.delivery d row hrow

end Write

/-! ### A transaction -/

/-- Each write refers to what is there when it is made. -/
def AllRefer (B : Uuid → Prop) : Db → List Write → Prop
  | _, [] => True
  | db, w :: ws => w.Refers B db ∧ AllRefer B (w.apply db) ws

theorem AllRefer.linked : ∀ {ws : List Write} {db : Db}, AllRefer B db ws → db.Linked B →
    (applyAll db ws).Linked B
  | [], _, _, h => h
  | _ :: _, _, ⟨hw, hws⟩, h => hws.linked (hw.linked h)

theorem AllRefer.append : ∀ {ws : List Write} {db : Db}, AllRefer B db ws →
    AllRefer B (applyAll db ws) vs → AllRefer B db (ws ++ vs)
  | [], _, _, hvs => hvs
  | _ :: _, _, ⟨hw, hws⟩, hvs => ⟨hw, hws.append hvs⟩

theorem AllRefer.serves {cu b : Uuid} : ∀ {ws : List Write} {db : Db}, AllRefer B db ws →
    db.Serves b cu → (applyAll db ws).Serves b cu
  | [], _, _, h => h
  | _ :: _, _, ⟨hw, hws⟩, h => hws.serves (hw.serves h)

theorem applyAll_keeps_invoice {i : Uuid} : ∀ (ws : List Write) {db : Db},
    (∃ r, db.invoice i = some r) → ∃ r, (applyAll db ws).invoice i = some r
  | [], _, h => h
  | _ :: ws, _, h => applyAll_keeps_invoice ws (Write.keeps_invoice h)

/-- Deletions refer to nothing. -/
theorem AllRefer.delete_line_items : ∀ {gone : List Uuid} {db : Db},
    AllRefer B db (gone.map .delete_line_item)
  | [], _ => trivial
  | _ :: _, _ => ⟨trivial, AllRefer.delete_line_items⟩

/-- Items of an invoice that is there. -/
theorem AllRefer.put_line_items {i : Uuid} : ∀ {lines : List LineItem} {db : Db},
    (∃ r, db.invoice i = some r) → (∀ x ∈ lines, x.invoice_id = i) →
    AllRefer B db (lines.map .put_line_item)
  | [], _, _, _ => trivial
  | x :: lines, _, hi, hall => by
    rw [List.forall_mem_cons] at hall
    refine ⟨?_, AllRefer.put_line_items (Write.keeps_invoice hi) hall.2⟩
    rw [Write.Refers, hall.1]
    exact hi

/-! ### What a job writes -/

section
variable {K : Setting} {T : Pid} {past : List Commit} {j : Job}

/-- CORRECT: a job of a business in `B` refers to what is there, if a new invoice's customer is. -/
theorem Effect.refer (h : Effect K T past db j ws) (hdb : db.Linked B)
    (hB : ∀ q, j = .call q → B q.business)
    (hcustomer : ∀ b req, j = .call (.create_invoice b req) → db.Serves b req.customer_id) :
    AllRefer B db ws := by
  have hinvoice : ∀ {i : Uuid} {r r' : Invoice}, db.invoice i = some r →
      r'.business_id = r.business_id → r'.customer_id = r.customer_id →
      Write.Refers B db (.put_invoice r') := fun hr hb hc => by
    rw [Write.Refers, hb, hc]
    exact hdb.invoice _ _ hr
  have hattempt : ∀ {a : Uuid} {row row' : AttemptRow}, db.attempt a = some row →
      row'.invoice_id = row.invoice_id → Write.Refers B db (.put_attempt row') := fun hrow hi => by
    rw [Write.Refers, hi]
    exact hdb.attempt _ _ hrow
  cases h with
  | edit_nothing => trivial
  | @create b i req lines t hfresh hlines =>
    have hi : (Write.apply db (.put_invoice ⟨i, b, req.customer_id, .Draft,
        total_of req.line_items, req.due_date, t, t, 1⟩)).invoice i = some _ :=
      (Table.find_put ..).trans (if_pos rfl)
    exact ⟨⟨hB _ rfl, hcustomer _ _ rfl⟩, .put_line_items ⟨_, hi⟩ hlines.invoice_id⟩
  | claim_draft hr | edit_due_date hr | finalize hr | void hr =>
    exact ⟨hinvoice hr rfl rfl, trivial⟩
  | @edit_items b i req r r' pre items gone lines t hr hb _ hpre _ hgone _ hlines =>
    have hpre' : AllRefer B db pre ∧ r'.business_id = r.business_id ∧
        r'.customer_id = r.customer_id := by
      rcases hpre with ⟨rfl, rfl⟩ | ⟨rfl, d, rfl⟩
      · exact ⟨trivial, rfl, rfl⟩
      · exact ⟨⟨hinvoice hr rfl rfl, trivial⟩, rfl, rfl⟩
    obtain ⟨hpre', hrb, hrc⟩ := hpre'
    have hlinks := hdb.invoice _ _ hr
    have hlines' : AllRefer B db (pre ++ gone.map .delete_line_item ++ lines.map .put_line_item) :=
      (hpre'.append .delete_line_items).append
        (.put_line_items (applyAll_keeps_invoice _ ⟨r, hr⟩) hlines.invoice_id)
    refine hlines'.append ⟨⟨?_, hlines'.serves ?_⟩, trivial⟩
    · exact hrb ▸ hlinks.1
    · show db.Serves r'.business_id r'.customer_id
      rw [hrb, hrc]
      exact hlinks.2
  | @pay_start b i a k req r row kr t hr hrow _ hkr =>
    subst hrow hkr
    have hi : ∃ r', (Write.apply db (.put_invoice { r with
        state := .Processing, updated_at := t, versioning := r.versioning + 1 })).invoice i =
          some r' := Write.keeps_invoice ⟨r, hr.1⟩
    exact ⟨hinvoice hr.1 rfl rfl, hi, ⟨hB _ rfl, hi⟩, trivial⟩
  | @pay_record b i k req a row r kr o ans t _ hrow hr _ hkr =>
    have hkey := hdb.key _ _ hkr
    have hi : ∃ r', (Write.apply (Write.apply db (.put_attempt (o.record t row))) (.put_invoice { r with
        state := o.state, updated_at := t, versioning := r.versioning + 1 })).invoice
          kr.invoice_id = some r' := Write.keeps_invoice hkey.2
    exact ⟨hattempt hrow (Outcome.record_invoice_id ..), hinvoice hr rfl rfl, ⟨hkey.1, hi⟩,
      trivial⟩
  | @pay_leave b i k req a kr t _ hkr => exact ⟨(hdb.key _ kr hkr :), trivial⟩
  | retry hrow => exact ⟨hattempt hrow rfl, trivial⟩
  | settle hrow hr =>
    exact ⟨hattempt hrow (Outcome.record_invoice_id ..), hinvoice hr rfl rfl, trivial⟩
  | settle_only hrow => exact ⟨hattempt hrow (Outcome.record_invoice_id ..), trivial⟩
  | customer hfresh hb => exact ⟨⟨hb ▸ hB _ rfl, hfresh⟩, trivial⟩
  | endpoint _ hb => exact ⟨show B _ from hb ▸ hB _ rfl, trivial⟩
  | @deactivate b id r hr hb => exact ⟨(hdb.endpoint id r hr :), trivial⟩
  | @delivery task row _ he => exact ⟨he, trivial⟩
  | @report d row s n at_ t hrow => exact ⟨(hdb.delivery d row hrow :), trivial⟩

end

end Payman
