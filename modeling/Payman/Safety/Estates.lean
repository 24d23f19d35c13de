import Payman.Schemes.Twin
import Payman.Safety.Owners
import Payman.Safety.Statements

/-! What a business owns, and what its requests see.

    The estate of a business is its invoices with their items, its customers and its endpoints. A
    statement of an owner-scoped request is blind to everything else: on two databases with the same
    estate it gives the same result and makes the same write, which changes both estates alike. -/

namespace Payman
open Schemes

variable {b i : Uuid} {db db₁ db₂ : Db} {w : Write}

/-- Invoice `i` is there and belongs to `b`. -/
def Db.mine (db : Db) (b i : Uuid) : Bool := (db.invoice i).any fun r => decide (r.business_id = b)

/-- The rows of one business. -/
structure Estate where
  invoices : Table Invoice
  invoice_line_items : Table LineItem
  customers : Table Customer
  webhook_endpoints : Table WebhookEndpoint

def Db.estate (db : Db) (b : Uuid) : Estate where
  invoices := db.invoices.filter fun r => decide (r.business_id = b)
  invoice_line_items := db.invoice_line_items.filter fun x => db.mine b x.invoice_id
  customers := db.customers.filter fun r => decide (r.business_id = b)
  webhook_endpoints := db.webhook_endpoints.filter fun r => decide (r.business_id = b)

/-- The foreign key of line items. -/
def Db.Sound (db : Db) : Prop :=
  ∀ x ∈ db.invoice_line_items.rows, ∃ r, db.invoice x.invoice_id = some r

theorem Db.mine_eq_true : db.mine b i = true ↔ ∃ r, db.invoice i = some r ∧ r.business_id = b := by
  simp [mine, Option.any_eq_true]

/-- A property of an invoice depends on the invoices that have it. -/
theorem Db.any_invoice_congr {q : Invoice → Bool}
    (h : db₁.invoices.filter q = db₂.invoices.filter q) (i : Uuid) :
    (db₁.invoice i).any q = (db₂.invoice i).any q := by
  have hany : ∀ db : Db, (db.invoice i).any q = ((db.invoices.filter q).find i).isSome :=
    fun db => by rw [Table.find_filter, Option.isSome_filter, Db.invoice]
  rw [hany, hany, h]

theorem Db.mine_congr (h : db₁.estate b = db₂.estate b) (i : Uuid) :
    db₁.mine b i = db₂.mine b i := Db.any_invoice_congr (congrArg Estate.invoices h) i

/-- The rows of all businesses but `b'` hold the estate of any other business. -/
theorem Db.estate_of_others {b' : Uuid} (hne : b ≠ b') (h : db₁.others b' = db₂.others b') :
    db₁.estate b = db₂.estate b := by
  have himp : ∀ x : Uuid, decide (x = b) = true → decide (x ≠ b') = true := fun x hx => by
    simpa only [of_decide_eq_true hx, decide_eq_true_eq] using hne
  have hinv : db₁.invoices.filter (fun r => decide (r.business_id = b)) =
      db₂.invoices.filter fun r => decide (r.business_id = b) :=
    Table.filter_of_filter (fun r => himp _) (congrArg Rows.invoices h)
  have hcust : db₁.customers.filter (fun r => decide (r.business_id = b)) =
      db₂.customers.filter fun r => decide (r.business_id = b) :=
    Table.filter_of_filter (fun r => himp _) (congrArg Rows.customers h)
  have hends : db₁.webhook_endpoints.filter (fun r => decide (r.business_id = b)) =
      db₂.webhook_endpoints.filter fun r => decide (r.business_id = b) :=
    Table.filter_of_filter (fun r => himp _) (congrArg Rows.webhook_endpoints h)
  have hothers : db₁.invoices.filter (fun r => decide (r.business_id ≠ b')) =
      db₂.invoices.filter fun r => decide (r.business_id ≠ b') :=
    Table.ext_rows (congrArg Rows.invoices h)
  -- whose an item is says the invoice, and both databases agree on that
  have hmine : ∀ i, db₁.mine b i = db₂.mine b i := Db.any_invoice_congr hinv
  have hforeign : ∀ i, db₁.foreign b' i = db₂.foreign b' i := Db.any_invoice_congr hothers
  have hitems := congrArg Rows.invoice_line_items h
  simp only [Db.others, hforeign] at hitems
  have hitems : db₁.invoice_line_items.filter (fun x => db₁.mine b x.invoice_id) =
      db₂.invoice_line_items.filter fun x => db₂.mine b x.invoice_id := by
    simp only [hmine]
    refine Table.filter_of_filter (fun x hx => ?_) hitems
    obtain ⟨r, hr, hb⟩ := Db.mine_eq_true.mp hx
    exact Db.foreign_eq_true.mpr ⟨r, hr, hb ▸ hne⟩
  rw [Db.estate, Db.estate, hinv, hitems, hcust, hends]

/-! ### Writes -/

/-- A new row of `b`, or a new version of one. -/
inductive Write.Mine (db : Db) (b : Uuid) : Write → Prop
  | invoice (r : Invoice) (hb : r.business_id = b)
      (hold : ∀ r₀, db.invoice r.id = some r₀ → r₀.business_id = b) : Mine db b (.put_invoice r)
  | line_item (x : LineItem) (hnew : db.line_item x.id = none)
      (hi : db.mine b x.invoice_id = true) : Mine db b (.put_line_item x)
  | customer (r : Customer) (hb : r.business_id = b) (hnew : db.customers.find r.id = none) :
      Mine db b (.put_customer r)
  | endpoint (r : WebhookEndpoint) (hb : r.business_id = b)
      (hold : ∀ r₀, db.endpoint r.id = some r₀ → r₀.business_id = b) : Mine db b (.put_endpoint r)

/-- What a write does to the estate of the business whose row it is. -/
def Estate.apply (e : Estate) : Write → Estate
  | .put_invoice r => { e with invoices := e.invoices.put r }
  | .put_line_item x => { e with invoice_line_items := e.invoice_line_items.put x }
  | .put_customer r => { e with customers := e.customers.put r }
  | .put_endpoint r => { e with webhook_endpoints := e.webhook_endpoints.put r }
  | _ => e

namespace Write.Mine

theorem own (h : w.Mine db b) : w.Own db b := by
  cases h with
  | invoice r hb hold => exact ⟨hb, hold⟩
  | line_item x hnew hi =>
    obtain ⟨r, hr, hb⟩ := Db.mine_eq_true.mp hi
    refine ⟨Db.foreign_eq_false.mpr fun r' hr' => ?_, fun y hy => ?_⟩
    · obtain rfl := Option.some.inj (hr.symm.trans hr')
      exact hb
    · cases hnew.symm.trans hy
  | customer r hb hnew => exact ⟨hb, fun r₀ h₀ => by cases hnew.symm.trans h₀⟩
  | endpoint r hb hold => exact ⟨hb, hold⟩

/-- An invoice that is there keeps its owner. -/
theorem mine (h : w.Mine db b) {r : Invoice} (hr : db.invoice i = some r) :
    (w.apply db).mine b i = db.mine b i := by
  cases h with
  | invoice r' hb hold =>
    by_cases hi : r'.id = i
    · have hnew : (Write.apply db (.put_invoice r')).invoice i = some r' :=
        (Table.find_put ..).trans (if_pos hi)
      have hmine : db.mine b i = true := Db.mine_eq_true.mpr ⟨r, hr, hold r (hi ▸ hr)⟩
      rw [hmine]
      exact Db.mine_eq_true.mpr ⟨r', hnew, hb⟩
    · rw [Db.mine, Db.mine]
      exact congrArg _ (Table.find_put_ne _ hi)
  | _ => rfl

theorem estate (h : w.Mine db b) (hs : db.Sound) :
    (w.apply db).estate b = (db.estate b).apply w := by
  have hitems : db.invoice_line_items.filter (fun x => (w.apply db).mine b x.invoice_id) =
      db.invoice_line_items.filter fun x => db.mine b x.invoice_id := by
    refine Table.ext_rows (List.filter_congr fun x hx => ?_)
    obtain ⟨r, hr⟩ := hs x hx
    exact h.mine hr
  cases h with
  | invoice r hb hold =>
    have hinv := Table.filter_put (t := db.invoices) (p := fun r => decide (r.business_id = b))
      (decide_eq_true hb) fun r₀ h₀ => decide_eq_true (hold r₀ h₀)
    exact congrArg₂ (fun i l => Estate.mk i l _ _) hinv hitems
  | line_item x hnew hi =>
    have hput := Table.filter_put (t := db.invoice_line_items)
      (p := fun x => db.mine b x.invoice_id) hi fun y hy => by cases hnew.symm.trans hy
    exact congrArg (fun l => Estate.mk _ l _ _) hput
  | customer r hb hnew =>
    have hput := Table.filter_put (t := db.customers) (p := fun r => decide (r.business_id = b))
      (decide_eq_true hb) fun r₀ h₀ => by cases hnew.symm.trans h₀
    exact congrArg (fun c => Estate.mk _ _ c _) hput
  | endpoint r hb hold =>
    have hput := Table.filter_put (t := db.webhook_endpoints)
      (p := fun r => decide (r.business_id = b)) (decide_eq_true hb)
      fun r₀ h₀ => decide_eq_true (hold r₀ h₀)
    exact congrArg (fun e => Estate.mk _ _ _ e) hput

theorem sound (h : w.Mine db b) (hs : db.Sound) : (w.apply db).Sound := by
  cases h with
  | invoice r hb hold =>
    intro x hx
    obtain ⟨r₀, hr₀⟩ := hs x hx
    by_cases hi : r.id = x.invoice_id
    · exact ⟨r, (Table.find_put ..).trans (if_pos hi)⟩
    · exact ⟨r₀, (Table.find_put_ne _ hi).trans hr₀⟩
  | line_item x hnew hi =>
    intro y hy
    rcases Table.mem_put.mp hy with rfl | ⟨hy, -⟩
    · obtain ⟨r, hr, -⟩ := Db.mine_eq_true.mp hi
      exact ⟨r, hr⟩
    · exact hs y hy
  | customer | endpoint => exact hs

end Write.Mine

/-! ### Statements -/

/-- No row has `u` as its id. -/
structure Db.Unused (db : Db) (u : Uuid) : Prop where
  invoice : db.invoice u = none
  line_item : db.line_item u = none
  customer : db.customers.find u = none
  endpoint : db.endpoint u = none

instance (db : Db) (u : Uuid) : Decidable (db.Unused u) :=
  decidable_of_iff (db.invoice u = none ∧ db.line_item u = none ∧ db.customers.find u = none ∧
    db.endpoint u = none) ⟨fun ⟨h₁, h₂, h₃, h₄⟩ => ⟨h₁, h₂, h₃, h₄⟩, fun ⟨h₁, h₂, h₃, h₄⟩ =>
    ⟨h₁, h₂, h₃, h₄⟩⟩

namespace Stmt

section
variable {ρ κ : Type} [Keyed ρ κ] [DecidableEq κ] {t₁ t₂ : Table ρ} {p cond : ρ → Bool} {k : κ}

theorem and_of_imp (hp : ∀ r, cond r = true → p r = true) : (fun r => p r && cond r) = cond := by
  funext r
  by_cases hr : cond r = true
  · rw [hr, hp r hr]
    rfl
  · rw [Bool.eq_false_iff.mpr hr, Bool.and_false]

/-- A lookup of a selected row. -/
theorem lookup_congr (h : t₁.filter p = t₂.filter p) (hp : ∀ r, cond r = true → p r = true) :
    lookup t₁ k cond = lookup t₂ k cond := by
  have hfilter : ∀ t : Table ρ, lookup t k cond = ((t.filter p).find k).filter cond := fun t => by
    rw [lookup, Table.find_filter, Option.filter_filter, and_of_imp hp]
  rw [hfilter, hfilter, h]

omit [DecidableEq κ] in
theorem select_congr {order : List ℕ} (h : t₁.filter p = t₂.filter p)
    (hp : ∀ r, cond r = true → p r = true) : select t₁ order cond = select t₂ order cond := by
  have hfilter : ∀ t : Table ρ, t.rows.filter cond = (t.filter p).rows.filter cond := fun t => by
    rw [Table.rows_filter, List.filter_filter]
    simp only [Bool.and_comm, and_of_imp hp]
  rw [select, select, hfilter, hfilter t₂, h]

omit [DecidableEq κ] in
theorem any_congr (h : t₁.filter p = t₂.filter p) (hp : ∀ r, cond r = true → p r = true) :
    t₁.rows.any cond = t₂.rows.any cond := by
  have hfilter : ∀ t : Table ρ, t.rows.any cond = (t.filter p).rows.any cond := fun t => by
    rw [Table.rows_filter, List.any_filter, and_of_imp hp]
  rw [hfilter, hfilter t₂, h]

theorem update_congr {set : ρ → Except DbError ρ} {wr : ρ → Write} (h : t₁.filter p = t₂.filter p)
    (hp : ∀ r, cond r = true → p r = true) :
    update t₁ k cond set wr = update t₂ k cond set wr := by
  rw [update_eq, update_eq, lookup_congr h hp]

end

/-- The statements that an owner-scoped request of `b` issues, on the database that it sees. -/
def Scoped (b : Uuid) (db : Db) : Stmt → Prop
  | .select_customer_id _ b' | .select_invoice _ b' | .list_invoices b' _
  | .update_state _ _ b' _ | .select_state_at_version _ b' _ | .select_customer _ b'
  | .list_customers b' | .insert_endpoint b' _ _ | .select_endpoint _ b' | .list_endpoints b'
  | .deactivate_endpoint _ b' => b' = b
  | .insert_customer id b' _ _ => b' = b ∧ db.customers.find id = none
  | .insert_invoice i b' c _ _ => b' = b ∧ db.invoice i = none ∧
    ∃ r, db.customers.find c = some r ∧ r.business_id = b
  | .insert_line_item i _ _ _ => db.mine b i = true
  | .select_line_items i => db.mine b i = true
  | _ => False

variable {s : Stmt} {c : Choice} {now : DateTime} {ws : List Write}

/-- A scoped statement is blind to the rows of others. -/
theorem run_congr (h₁ : s.Scoped b db₁) (h₂ : s.Scoped b db₂) (he : db₁.estate b = db₂.estate b)
    (hu₁ : db₁.Unused c.uuid) (hu₂ : db₂.Unused c.uuid) :
    s.run now c db₁ = s.run now c db₂ := by
  have hinv := congrArg Estate.invoices he
  have hitems := congrArg Estate.invoice_line_items he
  have hcust := congrArg Estate.customers he
  have hends := congrArg Estate.webhook_endpoints he
  cases s <;> try exact h₁.elim
  case select_customer_id | select_customer =>
    cases h₁
    simp only [run]
    rw [lookup_congr hcust fun r hr => hr]
  case select_invoice =>
    cases h₁
    simp only [run]
    rw [lookup_congr hinv fun r hr => hr]
  case select_endpoint =>
    cases h₁
    simp only [run]
    rw [lookup_congr hends fun r hr => hr]
  case select_state_at_version =>
    cases h₁
    simp only [run]
    rw [lookup_congr hinv fun r hr => decide_eq_true (of_decide_eq_true hr).1]
  case list_invoices =>
    cases h₁
    simp only [run]
    rw [select_congr hinv fun r hr => decide_eq_true (of_decide_eq_true hr).1]
  case list_customers =>
    cases h₁
    simp only [run]
    rw [select_congr hcust fun r hr => hr]
  case list_endpoints =>
    cases h₁
    simp only [run]
    rw [select_congr hends fun r hr => hr]
  case select_line_items i =>
    have hmine : (fun x : LineItem => db₁.mine b x.invoice_id) =
        fun x => db₂.mine b x.invoice_id := funext fun x => Db.mine_congr he _
    have hitems : db₁.invoice_line_items.filter (fun x => db₂.mine b x.invoice_id) =
        db₂.invoice_line_items.filter fun x => db₂.mine b x.invoice_id :=
      (congrArg db₁.invoice_line_items.filter hmine.symm).trans hitems
    have hi : ∀ x : LineItem, decide (x.invoice_id = i) = true → db₂.mine b x.invoice_id = true :=
      fun x hx => (of_decide_eq_true hx).symm ▸ h₂
    simp only [run]
    rw [select_congr hitems hi]
  case update_state =>
    cases h₁
    simp only [run]
    exact update_congr hinv fun r hr => decide_eq_true (of_decide_eq_true hr).1
  case deactivate_endpoint =>
    cases h₁
    simp only [run]
    rw [update_congr hends fun r hr => hr]
  case insert_endpoint =>
    simp only [run]
    rw [unused_of hu₁.endpoint, unused_of hu₂.endpoint]
  case insert_customer =>
    obtain ⟨rfl, hnew₁⟩ := h₁
    simp only [run]
    rw [unused_of hnew₁, unused_of h₂.2,
      any_congr hcust fun r hr => decide_eq_true (of_decide_eq_true hr).1]
  case insert_invoice =>
    obtain ⟨rfl, hnew₁, r₁, hr₁, -⟩ := h₁
    obtain ⟨-, hnew₂, r₂, hr₂, -⟩ := h₂
    simp only [run]
    rw [unused_of hnew₁, unused_of hnew₂, references_of hr₁, references_of hr₂]
  case insert_line_item =>
    obtain ⟨r₁, hr₁, -⟩ := Db.mine_eq_true.mp h₁
    obtain ⟨r₂, hr₂, -⟩ := Db.mine_eq_true.mp h₂
    simp only [run]
    rw [unused_of hu₁.line_item, unused_of hu₂.line_item, references_of hr₁, references_of hr₂]

/-- What a scoped statement writes is a row of `b`. -/
theorem run_mine (h : s.Scoped b db) {r : s.Result}
    (hrun : s.run now c db = .ok (ws, r)) : ws = [] ∨ ∃ w, ws = [w] ∧ w.Mine db b := by
  cases s <;> try exact h.elim
  case select_customer_id | select_invoice | select_line_items | list_invoices |
      select_state_at_version | select_customer | list_customers | select_endpoint |
      list_endpoints =>
    cases hrun
    exact .inl rfl
  case update_state =>
    cases h
    rcases update_ok hrun with ⟨-, hws, -⟩ | ⟨r₀, r', hr₀, hc, hs, hws, -⟩
    · exact .inl hws
    · obtain ⟨-, rfl⟩ := map_next_i32_ok hs
      have hb := (of_decide_eq_true hc).1
      refine .inr ⟨_, hws, .invoice _ hb fun r₁ hr₁ => ?_⟩
      rw [Db.id_of_invoice hr₀] at hr₁
      obtain rfl := Option.some.inj (hr₀.symm.trans hr₁)
      exact hb
  case deactivate_endpoint =>
    cases h
    rcases run_deactivate_endpoint hrun with ⟨-, hws⟩ | ⟨r₀, hr₀, hb, hws⟩
    · exact .inl hws
    · refine .inr ⟨_, hws, .endpoint _ hb fun r₁ hr₁ => ?_⟩
      rw [Db.id_of_endpoint hr₀] at hr₁
      obtain rfl := Option.some.inj (hr₀.symm.trans hr₁)
      exact hb
  case insert_endpoint =>
    cases h
    obtain ⟨hnew, hb, hws⟩ := run_insert_endpoint hrun
    exact .inr ⟨_, hws, .endpoint _ hb fun r₁ hr₁ => by cases hnew.symm.trans hr₁⟩
  case insert_customer =>
    obtain ⟨hnew, hb, hws⟩ := run_insert_customer hrun
    exact .inr ⟨_, hws, .customer _ (hb.trans h.1) hnew⟩
  case insert_invoice =>
    obtain ⟨hnew, rfl, hws⟩ := run_insert_invoice hrun
    exact .inr ⟨_, hws, .invoice _ h.1 fun r₁ hr₁ => by cases hnew.symm.trans hr₁⟩
  case insert_line_item =>
    obtain ⟨hnew, rfl, hws⟩ := run_insert_line_item hrun
    exact .inr ⟨_, hws, .line_item _ hnew h⟩

end Stmt

end Payman
