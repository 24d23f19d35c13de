import Payman.Safety.Frames

/-! Businesses and their rows.

    An invoice, a customer and an endpoint name the business that owns them; items and attempts
    belong to the owner of their invoice. A request writes rows of its own business only, except
    that an edit and a payment never compare the owner of the invoice they take with the caller. -/

namespace Payman
open Schemes

variable {K : Setting} {T : Pid} {past : List Commit} {db : Db} {b : Uuid} {w w' : Write}
  {ws : List Write}

/-- Whether invoice `i` belongs to a business other than `b`. -/
def Db.foreign (db : Db) (b i : Uuid) : Bool :=
  (db.invoice i).any fun r => decide (r.business_id ≠ b)

/-- Rows of the tables whose rows have an owner. -/
@[ext] structure Rows where
  invoices : List Invoice
  invoice_line_items : List LineItem
  payment_attempts : List AttemptRow
  customers : List Customer
  webhook_endpoints : List WebhookEndpoint
  deriving DecidableEq

/-- The rows of all businesses but `b`. -/
def Db.others (db : Db) (b : Uuid) : Rows where
  invoices := db.invoices.rows.filter fun r => decide (r.business_id ≠ b)
  invoice_line_items := db.invoice_line_items.rows.filter fun x => db.foreign b x.invoice_id
  payment_attempts := db.payment_attempts.rows.filter fun row => db.foreign b row.invoice_id
  customers := db.customers.rows.filter fun r => decide (r.business_id ≠ b)
  webhook_endpoints := db.webhook_endpoints.rows.filter fun r => decide (r.business_id ≠ b)

theorem Db.foreign_eq_false {i : Uuid} :
    db.foreign b i = false ↔ ∀ r, db.invoice i = some r → r.business_id = b := by
  rw [foreign, Option.any_eq_false]
  simp

theorem Db.foreign_eq_true {i : Uuid} :
    db.foreign b i = true ↔ ∃ r, db.invoice i = some r ∧ r.business_id ≠ b := by
  simp [foreign, Option.any_eq_true]

/-- The row is one of business `b`, and so is the row it replaces. -/
def Write.Own (db : Db) (b : Uuid) : Write → Prop
  | .put_invoice r => r.business_id = b ∧ ∀ r₀, db.invoice r.id = some r₀ → r₀.business_id = b
  | .put_line_item x => db.foreign b x.invoice_id = false ∧
    ∀ y, db.line_item x.id = some y → db.foreign b y.invoice_id = false
  | .delete_line_item l => ∀ y, db.line_item l = some y → db.foreign b y.invoice_id = false
  | .put_attempt row => db.foreign b row.invoice_id = false ∧
    ∀ row₀, db.attempt row.id = some row₀ → db.foreign b row₀.invoice_id = false
  | .put_customer r => r.business_id = b ∧
    ∀ r₀, db.customers.find r.id = some r₀ → r₀.business_id = b
  | .put_endpoint r => r.business_id = b ∧
    ∀ r₀, db.webhook_endpoints.find r.id = some r₀ → r₀.business_id = b
  | .put_key _ => True
  | .put_delivery _ => True

namespace Write

/-- Own writes change no owner. -/
theorem Own.foreign (h : w.Own db b) (i : Uuid) : (w.apply db).foreign b i = db.foreign b i := by
  cases w with
  | put_invoice r =>
    by_cases hi : r.id = i
    · have hold : db.foreign b i = false := Db.foreign_eq_false.mpr (hi ▸ h.2)
      rw [hold, Db.foreign_eq_false]
      intro r' hr'
      obtain rfl := Option.some.inj (((Table.find_put ..).trans (if_pos hi)).symm.trans hr')
      exact h.1
    · rw [Db.foreign, Db.foreign]
      exact congrArg _ (Table.find_put_ne _ hi)
  | _ => rfl

theorem Own.others (h : w.Own db b) : (w.apply db).others b = db.others b := by
  simp only [Db.others, h.foreign]
  cases w with
  | put_invoice r =>
    exact Rows.ext (Table.filter_rows_put (by simp [h.1]) fun r₀ h₀ => by simp [h.2 r₀ h₀])
      rfl rfl rfl rfl
  | put_line_item x => exact Rows.ext rfl (Table.filter_rows_put h.1 h.2) rfl rfl rfl
  | delete_line_item l => exact Rows.ext rfl (Table.filter_rows_erase h) rfl rfl rfl
  | put_attempt row => exact Rows.ext rfl rfl (Table.filter_rows_put h.1 h.2) rfl rfl
  | put_customer r =>
    exact Rows.ext rfl rfl rfl
      (Table.filter_rows_put (by simp [h.1]) fun r₀ h₀ => by simp [h.2 r₀ h₀]) rfl
  | put_endpoint r =>
    exact Rows.ext rfl rfl rfl rfl
      (Table.filter_rows_put (by simp [h.1]) fun r₀ h₀ => by simp [h.2 r₀ h₀])
  | put_key kr => rfl
  | put_delivery r => rfl

/-- An own write leaves other writes own. -/
theorem Own.after (h : w.Own db b) (h' : w'.Own db b) : w'.Own (w.apply db) b := by
  cases w' with
  | put_invoice r =>
    refine ⟨h'.1, fun r₀ h₀ => ?_⟩
    cases w with
    | put_invoice r₁ => exact (Table.find_put_cases h₀).elim (· ▸ h.1) (h'.2 r₀)
    | _ => exact h'.2 r₀ h₀
  | put_line_item x =>
    refine ⟨(h.foreign _).trans h'.1, fun y hy => (h.foreign _).trans ?_⟩
    cases w with
    | put_line_item x₁ => exact (Table.find_put_cases hy).elim (· ▸ h.1) (h'.2 y)
    | delete_line_item l => exact h'.2 y (Table.find_of_erase hy)
    | _ => exact h'.2 y hy
  | delete_line_item l =>
    refine fun y hy => (h.foreign _).trans ?_
    cases w with
    | put_line_item x₁ => exact (Table.find_put_cases hy).elim (· ▸ h.1) (h' y)
    | delete_line_item l₁ => exact h' y (Table.find_of_erase hy)
    | _ => exact h' y hy
  | put_attempt row =>
    refine ⟨(h.foreign _).trans h'.1, fun row₀ h₀ => (h.foreign _).trans ?_⟩
    cases w with
    | put_attempt row₁ => exact (Table.find_put_cases h₀).elim (· ▸ h.1) (h'.2 row₀)
    | _ => exact h'.2 row₀ h₀
  | put_customer r =>
    refine ⟨h'.1, fun r₀ h₀ => ?_⟩
    cases w with
    | put_customer r₁ => exact (Table.find_put_cases h₀).elim (· ▸ h.1) (h'.2 r₀)
    | _ => exact h'.2 r₀ h₀
  | put_endpoint r =>
    refine ⟨h'.1, fun r₀ h₀ => ?_⟩
    cases w with
    | put_endpoint r₁ => exact (Table.find_put_cases h₀).elim (· ▸ h.1) (h'.2 r₀)
    | _ => exact h'.2 r₀ h₀
  | put_key kr => trivial
  | put_delivery r => trivial

/-- A new version of an own invoice. -/
theorem Own.put_invoice_of {i : Uuid} {r r' : Invoice} (hr : db.invoice i = some r)
    (hb : r.business_id = b) (hid : r'.id = r.id) (hb' : r'.business_id = r.business_id) :
    Write.Own db b (.put_invoice r') := by
  refine ⟨hb'.trans hb, fun r₀ h₀ => ?_⟩
  rw [hid, Db.id_of_invoice hr, hr, Option.some.injEq] at h₀
  exact h₀ ▸ hb

/-- A new version of an attempt at an own invoice. -/
theorem Own.put_attempt_of {a : Uuid} {row row' : AttemptRow} (hrow : db.attempt a = some row)
    (hi : db.foreign b row.invoice_id = false) (hid : row'.id = row.id)
    (hi' : row'.invoice_id = row.invoice_id) : Write.Own db b (.put_attempt row') := by
  refine ⟨hi' ▸ hi, fun row₀ h₀ => ?_⟩
  rw [hid, Db.id_of_attempt hrow, hrow, Option.some.injEq] at h₀
  exact h₀ ▸ hi

/-- Items that replace deleted ones of an own invoice. -/
theorem Own.put_line_items {gone : List Uuid} {i : Uuid} {reqs : List CreateLineItemRequest}
    {lines : List LineItem} (h : Inserted db gone i reqs lines)
    (hgone : ∀ l ∈ gone, ∃ y, db.line_item l = some y ∧ y.invoice_id = i)
    (hi : db.foreign b i = false) : ∀ x ∈ lines, Write.Own db b (.put_line_item x) := by
  refine fun x hx => ⟨h.invoice_id x hx ▸ hi, fun y hy => ?_⟩
  obtain ⟨y', hy', hyi⟩ := hgone _ (h.fresh x hx y hy)
  obtain rfl := Option.some.inj (hy.symm.trans hy')
  exact hyi ▸ hi

theorem Own.all : ∀ {ws : List Write} {db : Db}, (∀ w ∈ ws, w.Own db b) →
    (applyAll db ws).others b = db.others b ∧ ∀ i, (applyAll db ws).foreign b i = db.foreign b i
  | [], _, _ => ⟨rfl, fun _ => rfl⟩
  | w :: ws, db, h => by
    rw [List.forall_mem_cons] at h
    rw [applyAll_cons, Write.rowWrite_apply]
    obtain ⟨hrows, hforeign⟩ := Own.all fun w' hw' => h.1.after (h.2 w' hw')
    exact ⟨hrows.trans h.1.others, fun i => (hforeign i).trans (h.1.foreign i)⟩

end Write

/-! ### What a request writes -/

/-- The invoice that an edit or a payment takes. -/
def Request.taken : Request → Option Uuid
  | .edit_invoice i _ _ => some i
  | .pay_invoice i _ _ _ => some i
  | _ => none

/-- CORRECT: a request that takes no invoice of another business writes its own rows only. -/
theorem Effect.own {q : Request} (h : Effect K T past db (.call q) ws)
    (hq : ∀ i ∈ q.taken, db.foreign q.business i = false) : ∀ w ∈ ws, w.Own db q.business := by
  cases h with
  | edit_nothing => exact nofun
  | create hfresh hlines =>
    refine List.forall_mem_cons.mpr ⟨⟨rfl, fun r₀ h₀ => by cases hfresh.symm.trans h₀⟩, ?_⟩
    refine List.forall_mem_map.mpr (Write.Own.put_line_items hlines nofun ?_)
    exact Db.foreign_eq_false.mpr fun r₀ h₀ => by cases hfresh.symm.trans h₀
  | claim_draft hr =>
    exact List.forall_mem_singleton.mpr (.put_invoice_of hr
      (Db.foreign_eq_false.mp (hq _ rfl) _ hr) rfl rfl)
  | edit_due_date hr hb => exact List.forall_mem_singleton.mpr (.put_invoice_of hr hb rfl rfl)
  | @edit_items b i req r r' pre items gone lines t hr hb _ hpre _ hgone _ hlines =>
    have hi : db.foreign b i = false :=
      Db.foreign_eq_false.mpr fun r' hr' => Option.some.inj (hr.symm.trans hr') ▸ hb
    simp only [List.forall_mem_append, List.forall_mem_singleton, List.forall_mem_map]
    refine ⟨⟨⟨?_, fun l hl y hy => ?_⟩, .put_line_items hlines hgone hi⟩, ?_⟩
    · rcases hpre with ⟨rfl, -⟩ | ⟨rfl, d, rfl⟩
      · exact nofun
      · exact List.forall_mem_singleton.mpr (.put_invoice_of hr hb rfl rfl)
    · obtain ⟨y', hy', hyi⟩ := hgone l hl
      obtain rfl := Option.some.inj (hy.symm.trans hy')
      exact hyi ▸ hi
    · rcases hpre with ⟨-, rfl⟩ | ⟨-, d, rfl⟩
      · exact .put_invoice_of hr hb rfl rfl
      · exact .put_invoice_of hr hb rfl rfl
  | finalize hr hb => exact List.forall_mem_singleton.mpr (.put_invoice_of hr hb rfl rfl)
  | void hr hb => exact List.forall_mem_singleton.mpr (.put_invoice_of hr hb rfl rfl)
  | @pay_start b i a k req r row kr t hr hrow hfresh hkr =>
    have hi := hq i rfl
    simp only [List.forall_mem_cons]
    refine ⟨.put_invoice_of hr.1 (Db.foreign_eq_false.mp hi r hr.1) rfl rfl,
      ⟨?_, fun row₀ h₀ => ?_⟩, trivial, nofun⟩
    · rw [hrow]
      exact hi
    · rw [hrow] at h₀
      cases hfresh.symm.trans h₀
  | @pay_record b i k req a row r kr o ans t hb hrow hr =>
    have hforeign := hq i rfl
    obtain ⟨row', hrow', hi, -⟩ := hb.attempt
    obtain rfl := Option.some.inj (hrow.symm.trans hrow')
    simp only [List.forall_mem_cons]
    exact ⟨.put_attempt_of hrow (hi ▸ hforeign) (Outcome.record_id ..)
      (Outcome.record_invoice_id ..),
      .put_invoice_of hr (Db.foreign_eq_false.mp hforeign r hr) rfl rfl, trivial, nofun⟩
  | pay_leave hb => exact List.forall_mem_singleton.mpr trivial
  | customer hfresh hb =>
    exact List.forall_mem_singleton.mpr ⟨hb, fun r₀ h₀ => by cases hfresh.symm.trans h₀⟩
  | endpoint hfresh hb =>
    exact List.forall_mem_singleton.mpr ⟨hb, fun r₀ h₀ => by cases hfresh.symm.trans h₀⟩
  | @deactivate b id r hr hb =>
    have hid : r.id = id := Table.find_key hr
    refine List.forall_mem_singleton.mpr ⟨hb, fun r₀ h₀ => ?_⟩
    rw [hid, hr, Option.some.injEq] at h₀
    exact h₀ ▸ hb

end Payman
