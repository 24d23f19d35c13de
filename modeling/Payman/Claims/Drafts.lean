import Payman.Claims.Content
import Payman.Safety.Edits

/-! Creating a draft and replacing its content.

    The two requests check emptiness, signs, the total and the date in different orders and places.
    What they accept is the same: items that are `Billable` and a due date that is not past. The
    total, though, is a wrapping sum in both, and a wrapped total may be positive. -/

namespace Payman
open Schemes

attribute [local irreducible] trim

variable {p : Pid} {w : World} {b i : Uuid}

/-! ### Exact totals -/

theorem exact_total_nonneg : ∀ {items : List CreateLineItemRequest},
    (∀ item ∈ items, item.Positive) → 0 ≤ exact_total items
  | [], _ => Int.le_refl 0
  | item :: items, h => by
    obtain ⟨⟨hq, hu⟩, hall⟩ := List.forall_mem_cons.mp h
    have hq : 0 < item.quantity.toInt := Int32.lt_iff_toInt_lt.mp hq
    have hu : 0 < item.unit_amount_cents.toInt := Int64.lt_iff_toInt_lt.mp hu
    have hmul := Int.mul_pos hq hu
    have hrest := exact_total_nonneg hall
    rw [exact_total_cons]
    omega

/-- The wrapped sum is the exact one exactly if that is an `i64`. -/
theorem total_of_exact_iff {items : List CreateLineItemRequest}
    (h : ∀ item ∈ items, item.Positive) :
    (total_of items).toInt = exact_total items ↔ exact_total items < 2 ^ 63 := by
  constructor
  · intro heq
    rw [← heq]
    exact Int64.toInt_lt _
  · intro hlt
    have hpos := exact_total_nonneg h
    exact toInt_total_of ⟨by omega, hlt⟩

/-- The total that is returned and the one that is stored are `n`. -/
structure TotalIs (db : Db) (res : InvoiceResult) (n : ℤ) : Prop where
  returned : res.invoice.total_cents.toInt = n
  stored : ∃ r, db.invoice res.invoice.id = some r ∧ r.total_cents.toInt = n

theorem TotalIs.iff_of_stored {db : Db} {res : InvoiceResult} {items : List CreateLineItemRequest}
    (hrow : db.invoice res.invoice.id = some res.invoice)
    (htotal : res.invoice.total_cents = total_of items) (h : ∀ item ∈ items, item.Positive) :
    TotalIs db res (exact_total items) ↔ exact_total items < 2 ^ 63 := by
  rw [← total_of_exact_iff h, ← htotal]
  exact ⟨fun h => h.returned, fun h => ⟨h, res.invoice, hrow, h⟩⟩

section
variable {allow : Choice → World → Prop} {l : Durable} {since : DateTime} {w' : World}
  {res : InvoiceResult}

theorem Created.db {req : CreateInvoiceRequest} (h : Created p allow l since b req res w') :
    w'.db = { l.db with
      invoices := l.db.invoices.put res.invoice,
      invoice_line_items := res.line_items.foldl Table.put l.db.invoice_line_items } := by
  rw [h.stage.db, Durable.commit_db, applyAll_cons, Db.applyAll_put_line_items]
  rfl

theorem Created.stored {req : CreateInvoiceRequest} (h : Created p allow l since b req res w') :
    w'.db.invoice res.invoice.id = some res.invoice := by
  rw [h.db]
  exact (Table.find_put ..).trans (if_pos rfl)

theorem Edited.stored {req : EditInvoiceRequest} {r : Invoice}
    (h : Edited p allow l since req r res w') :
    w'.db.invoice res.invoice.id = some res.invoice := by
  rw [h.db]
  exact (Table.find_put ..).trans (if_pos rfl)

end

/-- Any choices. -/
abbrev Anyhow : Choice → World → Prop := fun _ _ => True

theorem Prog.along_anyhow {α : Type} {x : Prog payman α} {cs : List Choice} :
    x.Along (World.exec p) Anyhow cs w := .of_all fun _ _ => trivial

theorem World.staged (htx : w.tx p = none) : Stage p w.durable none w.now w :=
  ⟨rfl, htx, Int.le_refl _⟩

/-- CORRECT (exact totals): a request that creates an invoice or replaces its items and is accepted
    stores and returns the exact sum of its items exactly if that sum is below 2 ^ 63. -/
theorem total_exact_iff (htx : w.tx p = none) :
    (∀ (b : Uuid) (req : CreateInvoiceRequest) cs w' res,
      (Handlers.create_invoice b req).run.run (World.exec p) cs w = some (w', .ok res) →
      (TotalIs w'.db res (exact_total req.line_items) ↔ exact_total req.line_items < 2 ^ 63)) ∧
    ∀ (i b : Uuid) (req : EditInvoiceRequest) (items : List CreateLineItemRequest) cs w' res,
      req.line_items = some items →
      (edit_invoice i b req).run.run (World.exec p) cs w = some (w', .ok res) →
      (TotalIs w'.db res (exact_total items) ↔ exact_total items < 2 ^ 63) := by
  constructor
  · intro b req cs w' res hrun
    have h : Created p Anyhow w.durable w.now b req res w' :=
      Leaves.of_run (create_invoice_leaves (World.staged htx)) Prog.along_anyhow hrun
    obtain ⟨k, t, hrow⟩ := h.row
    exact TotalIs.iff_of_stored h.stored (by rw [hrow]) h.billable.positive
  · intro i b req items cs w' res hitems hrun
    obtain ⟨r, t, -, -, hchecked, h⟩ :=
      Leaves.of_run (edit_invoice_leaves (World.staged htx)) Prog.along_anyhow hrun
    obtain ⟨u, hu⟩ := h.row
    refine TotalIs.iff_of_stored h.stored ?_ (hchecked items hitems).2
    rw [hu, Invoice.edited, hitems]
    rfl

theorem ok_of_toOption {α : Type} {x : Except AppError α} {a : α} (h : a ∈ x.toOption) :
    x = .ok a := by
  cases x with
  | ok a' => exact congrArg _ (Option.some.inj h)
  | error e => cases h

/-- Three hours of work. -/
def hours : EditInvoiceRequest := ⟨none, some [⟨"hours", 3, 9000⟩], 1⟩

theorem total_exact_iff_hours : ∃ σ ∈ Sys.initial.steps Sys.issued,
    ∃ x ∈ (edit_invoice 20 1 hours).run.run (World.exec (.call 9)) (List.replicate 9 Sys.calm)
      σ.world, ∃ res ∈ x.2.toOption, TotalIs x.1.db res 27000 := by
  obtain ⟨σ, hσ, htx, ⟨w', answer⟩, hx, res, hres, -⟩ : ∃ σ ∈ Sys.initial.steps Sys.issued,
    (σ.world.tx (.call 9)).isNone ∧
    ∃ x ∈ (edit_invoice 20 1 hours).run.run (World.exec (.call 9)) (List.replicate 9 Sys.calm)
      σ.world, ∃ res ∈ x.2.toOption, res.line_items.length = 1 := by decide +kernel
  obtain rfl := ok_of_toOption hres
  exact ⟨σ, hσ, _, hx, res, hres, ((total_exact_iff (Option.isNone_iff_eq_none.mp htx)).2 20 1 hours
    _ _ w' res rfl hx).mpr (by decide)⟩

/-- Three times a third of 2 ^ 64 and a bit. -/
def wrapping : CreateInvoiceRequest := ⟨10, 0, [⟨"hours", 3, 6148914691236517206⟩]⟩

theorem total_wraps : ¬∀ (p : Pid) (w : World) (b : Uuid) (req : CreateInvoiceRequest) cs w' res,
    w.tx p = none → (Handlers.create_invoice b req).run.run (World.exec p) cs w = some (w', .ok res) →
      TotalIs w'.db res (exact_total req.line_items) := by
  obtain ⟨σ, -, htx, ⟨w', answer⟩, hx, res, hres, htotal⟩ : ∃ σ ∈ Sys.initial.steps Sys.issued,
    (σ.world.tx (.call 9)).isNone ∧
    ∃ x ∈ (Handlers.create_invoice 1 wrapping).run.run (World.exec (.call 9))
      (List.replicate 7 Sys.calm) σ.world,
      ∃ res ∈ x.2.toOption, res.invoice.total_cents = 2 := by decide +kernel
  obtain rfl := ok_of_toOption hres
  intro h
  have hexact := (h _ _ 1 wrapping _ w' res (Option.isNone_iff_eq_none.mp htx) hx).returned
  rw [htotal] at hexact
  exact absurd hexact (by decide)

/-! ### All or nothing -/

/-- The line item that a request's item becomes. -/
structure Itemized (i : Uuid) (item : CreateLineItemRequest) (x : LineItem) : Prop where
  invoice_id : x.invoice_id = i
  description : x.description = trim item.description
  quantity : x.quantity = item.quantity
  unit_amount_cents : x.unit_amount_cents = item.unit_amount_cents
  positive : 0 < x.quantity ∧ 0 < x.unit_amount_cents

/-- From `db` to `db'` one draft of `b` was added with its items, and nothing else changed. -/
structure Added (b : Uuid) (req : CreateInvoiceRequest) (db db' : Db) (res : InvoiceResult) :
    Prop where
  business_id : res.invoice.business_id = b
  customer_id : res.invoice.customer_id = req.customer_id
  state : res.invoice.state = .Draft
  versioning : res.invoice.versioning = 1
  invoices : db'.invoices.rows = db.invoices.rows ++ [res.invoice]
  line_items : db'.invoice_line_items.rows = db.invoice_line_items.rows ++ res.line_items
  items : List.Forall₂ (Itemized res.invoice.id) req.line_items res.line_items
  rest : db' = { db with
    invoices := db'.invoices, invoice_line_items := db'.invoice_line_items }

theorem Inserted.itemized {db : Db} {gone : List Uuid} {reqs : List CreateLineItemRequest}
    {lines : List LineItem} (h : Inserted db gone i reqs lines)
    (hpos : ∀ item ∈ reqs, item.Positive) : List.Forall₂ (Itemized i) reqs lines := by
  have hrows := h.rows
  clear h
  induction hrows with
  | nil => exact .nil
  | @cons item x reqs lines hx _ ih =>
    obtain ⟨hitem, hrest⟩ := List.forall_mem_cons.mp hpos
    obtain ⟨hid, hd, hq, hu⟩ := hx
    exact .cons ⟨hid, hd, hq, hu, by rw [hq, hu]; exact hitem⟩ (ih hrest)

/-- All rows of `db` are still there. -/
theorem Inserted.rows_added {db : Db} {reqs : List CreateLineItemRequest} {lines : List LineItem}
    (h : Inserted db [] i reqs lines) :
    (lines.foldl Table.put db.invoice_line_items).rows = db.invoice_line_items.rows ++ lines := by
  refine h.rows_eq.trans (congrArg (· ++ lines) (List.filter_eq_self.mpr fun x _ => ?_))
  simp

theorem Created.added {allow : Choice → World → Prop} {l : Durable} {since : DateTime} {w' : World}
    {req : CreateInvoiceRequest} {res : InvoiceResult}
    (h : Created p allow l since b req res w') : Added b req l.db w'.db res := by
  obtain ⟨k, t, hrow⟩ := h.row
  refine ⟨by rw [hrow], by rw [hrow], by rw [hrow], by rw [hrow], ?_, ?_,
    h.lines.itemized h.billable.positive, ?_⟩
  · rw [h.db]
    exact Table.rows_put_of_none h.fresh
  · rw [h.db]
    exact h.lines.rows_added
  · rw [h.db]

theorem date_naive_mono {t t' : DateTime} (h : t ≤ t') : date_naive t ≤ date_naive t' :=
  Int.ediv_le_ediv (by decide) h

/-- CORRECT (all or nothing): whichever database calls fail, a request to create an invoice that runs
    on its own has an answer wherever nobody is in a transaction. If it succeeds, it has added one
    draft with its items, for a customer of the business and a due date that is not past; if it
    fails, nothing has changed. -/
theorem create_all_or_nothing (htx : w.tx p = none) (req : CreateInvoiceRequest) :
    (w.Quiet → ∀ f : ℕ → Choice, ∃ n w' answer, (Handlers.create_invoice b req).run.run
      (World.exec p) ((List.range n).map f) w = some (w', answer)) ∧
    ∀ cs w' answer,
      (Handlers.create_invoice b req).run.run (World.exec p) cs w = some (w', answer) →
      (∀ res, answer = .ok res → Added b req w.db w'.db res ∧ w.db.Serves b req.customer_id ∧
        req.line_items ≠ [] ∧ date_naive w.now ≤ req.due_date) ∧
      ∀ e, answer = .error e → w'.db = w.db := by
  refine ⟨fun h f => h.returns _ f, fun cs w' answer hrun => ?_⟩
  have h := Leaves.of_run (create_invoice_leaves (World.staged htx)) Prog.along_anyhow hrun
  cases answer with
  | error e => exact ⟨nofun, fun _ _ => h.2.db⟩
  | ok res =>
    refine ⟨fun _ hres => ?_, nofun⟩
    cases hres
    have h : Created p Anyhow w.durable w.now b req res w' := h
    obtain ⟨t, -, hsince, hdue⟩ := h.due
    exact ⟨h.added, h.customer, h.billable.nonempty, Int.le_trans (date_naive_mono hsince) hdue⟩

/-- Two items. -/
def two_items : CreateInvoiceRequest := ⟨10, 0, [⟨" hours ", 3, 9000⟩, ⟨"fee", 1, 500⟩]⟩

/-- The COMMIT fails, or the draft is there with both items. -/
theorem create_all_or_nothing_two : ∃ σ ∈ Sys.initial.steps Sys.issued,
    (∃ x ∈ (Handlers.create_invoice 1 two_items).run.run (World.exec (.call 9))
      (List.replicate 6 Sys.calm ++ [{ Sys.calm with uuid := 1 }, { Sys.calm with fail := true },
        Sys.calm]) σ.world, x.2.toOption.isNone ∧ x.1.db = σ.db) ∧
    ∃ x ∈ (Handlers.create_invoice 1 two_items).run.run (World.exec (.call 9))
      (List.replicate 6 Sys.calm ++ [{ Sys.calm with uuid := 1 }, Sys.calm]) σ.world,
      ∃ res ∈ x.2.toOption, res.line_items.length = 2 ∧ Added 1 two_items σ.db x.1.db res := by
  obtain ⟨σ, hσ, htx, ⟨⟨w', answer⟩, hx, herr⟩, ⟨w'', answer'⟩, hx', res, hres, htwo⟩ :
    ∃ σ ∈ Sys.initial.steps Sys.issued, (σ.world.tx (.call 9)).isNone ∧
    (∃ x ∈ (Handlers.create_invoice 1 two_items).run.run (World.exec (.call 9))
      (List.replicate 6 Sys.calm ++ [{ Sys.calm with uuid := 1 }, { Sys.calm with fail := true },
        Sys.calm]) σ.world, x.2.toOption.isNone) ∧
    ∃ x ∈ (Handlers.create_invoice 1 two_items).run.run (World.exec (.call 9))
      (List.replicate 6 Sys.calm ++ [{ Sys.calm with uuid := 1 }, Sys.calm]) σ.world,
      ∃ res ∈ x.2.toOption, res.line_items.length = 2 := by decide +kernel
  have htx := Option.isNone_iff_eq_none.mp htx
  refine ⟨σ, hσ, ⟨_, hx, herr, ?_⟩, _, hx', res, hres, htwo, ?_⟩
  · cases answer with
    | ok res => cases herr
    | error e => exact ((create_all_or_nothing htx two_items).2 _ _ _ hx).2 e rfl
  · obtain rfl := ok_of_toOption hres
    exact (((create_all_or_nothing htx two_items).2 _ _ _ hx').1 res rfl).1

/-! ### The same rules -/

/-- The database works, the UUIDs are new, and the day is `day`. -/
def OnDay (p : Pid) (day : NaiveDate) (c : Choice) (w : World) : Prop :=
  c.fail = false ∧ Unseen p c w ∧ date_naive (w.now + c.elapsed) = day

instance (p : Pid) (day : NaiveDate) (c : Choice) (w : World) : Decidable (OnDay p day c w) :=
  inferInstanceAs (Decidable (_ ∧ _ ∧ _))

/-- So it goes for a request that runs alone. -/
def Daily {α : Type} (p : Pid) (day : NaiveDate) (x : App α) (cs : List Choice) (w : World) : Prop :=
  x.run.Along (World.exec p) (OnDay p day) cs w

instance {α : Type} (p : Pid) (day : NaiveDate) (x : App α) (cs : List Choice) (w : World) :
    Decidable (Daily p day x cs w) := Prog.decidableAlong ..

theorem OnDay.calm {day : NaiveDate} : Calm (OnDay p day) := fun _ _ h => h.1

theorem OnDay.draws {day : NaiveDate} : Draws p (OnDay p day) := fun _ _ h => h.2.1

theorem Reads.on_day {day : NaiveDate} {t : DateTime} (h : Reads (OnDay p day) t) :
    date_naive t = day := by
  obtain ⟨c, w, hc, rfl⟩ := h
  exact hc.2.2

/-- What an item says. -/
def LineItem.wording (x : LineItem) : String × Int32 × Int64 :=
  (x.description, x.quantity, x.unit_amount_cents)

/-- What an invoice says: its total, its due date and its items in order. -/
def Db.wording (db : Db) (i : Uuid) :
    Option (Int64 × NaiveDate × List (String × Int32 × Int64)) :=
  (db.invoice i).map fun r => (r.total_cents, r.due_date, (db.items i).map (·.wording))

/-- What it is asked to say. -/
def asked (items : List CreateLineItemRequest) (due_date : NaiveDate) :
    Int64 × NaiveDate × List (String × Int32 × Int64) :=
  (total_of items, due_date,
    items.map fun item => (trim item.description, item.quantity, item.unit_amount_cents))

theorem Inserted.wording {db : Db} {gone : List Uuid} {reqs : List CreateLineItemRequest}
    {lines : List LineItem} (h : Inserted db gone i reqs lines) : lines.map (·.wording) =
      reqs.map fun item => (trim item.description, item.quantity, item.unit_amount_cents) := by
  have hrows := h.rows
  clear h
  induction hrows with
  | nil => rfl
  | cons hx _ ih =>
    obtain ⟨-, hd, hq, hu⟩ := hx
    rw [List.map_cons, List.map_cons, ih, LineItem.wording, hd, hq, hu]

/-- The items of `i` are its new ones where it had no others. -/
theorem Db.items_of_rows {db : Db} {rows lines : List LineItem}
    (h : db.invoice_line_items.rows = rows ++ lines) (hrows : ∀ x ∈ rows, x.invoice_id ≠ i)
    (hlines : ∀ x ∈ lines, x.invoice_id = i) : db.items i = lines := by
  rw [Db.items, h, List.filter_append, List.filter_eq_nil_iff.mpr fun x hx => by
    simpa using hrows x hx, List.filter_eq_self.mpr fun x hx => by simpa using hlines x hx]
  rfl

section
variable {l : Durable} {since : DateTime} {w' : World} {day : NaiveDate} {res : InvoiceResult}
  {allow : Choice → World → Prop}

theorem Created.wording {req : CreateInvoiceRequest} (h : Created p allow l since b req res w')
    (hsound : l.db.Sound) :
    w'.db.wording res.invoice.id = some (asked req.line_items req.due_date) := by
  have hitems : w'.db.items res.invoice.id = res.line_items := by
    refine Db.items_of_rows h.added.line_items (fun x hx hi => ?_) h.lines.invoice_id
    obtain ⟨r, hr⟩ := hsound x hx
    cases h.fresh.symm.trans (hi ▸ hr)
  obtain ⟨k, t, hrow⟩ := h.row
  rw [Db.wording, h.stored, Option.map_some, hitems, h.lines.wording, hrow]
  rfl

theorem Edited.items_eq {req : EditInvoiceRequest} {r : Invoice} {reqs : List CreateLineItemRequest}
    (h : Edited p allow l since req r res w') (hreqs : req.line_items = some reqs) :
    w'.db.items r.id = res.line_items := by
  obtain ⟨hrows, gone, hins⟩ := h.items.replaced reqs hreqs
  refine Db.items_of_rows hrows (fun x hx => ?_) hins.invoice_id
  exact of_decide_eq_true (List.mem_filter.mp hx).2

theorem Edited.wording {req : EditInvoiceRequest} {r : Invoice} {reqs : List CreateLineItemRequest}
    {d : NaiveDate} (h : Edited p allow l since req r res w') (hreqs : req.line_items = some reqs)
    (hd : req.due_date = some d) : w'.db.wording r.id = some (asked reqs d) := by
  obtain ⟨-, gone, hins⟩ := h.items.replaced reqs hreqs
  obtain ⟨u, hu⟩ := h.row
  have hrow : w'.db.invoice r.id = some res.invoice := by
    have hid : r.id = res.invoice.id := by rw [hu]; rfl
    rw [hid]
    exact h.stored
  rw [Db.wording, hrow, Option.map_some, h.items_eq hreqs, hins.wording, hu, Invoice.edited, hreqs, hd]
  rfl

end

/-- The one rule about content, on a given day. -/
def Acceptable (items : List CreateLineItemRequest) (due_date day : NaiveDate) : Prop :=
  Billable items ∧ day ≤ due_date

theorem create_acceptable {cs : List Choice} {w' : World} {req : CreateInvoiceRequest}
    {answer : Except AppError InvoiceResult} {day : NaiveDate} (htx : w.tx p = none)
    (hcu : w.db.Serves b req.customer_id) (hsound : w.db.Sound)
    (hcs : Daily p day (Handlers.create_invoice b req) cs w)
    (hrun : (Handlers.create_invoice b req).run.run (World.exec p) cs w = some (w', answer)) :
    ((∃ res, answer = .ok res) ↔ Acceptable req.line_items req.due_date day) ∧
    ∀ res, answer = .ok res →
      w'.db.wording res.invoice.id = some (asked req.line_items req.due_date) := by
  have h := Leaves.of_run (create_invoice_leaves (World.staged htx)) hcs hrun
  cases answer with
  | ok res =>
    have h : Created p (OnDay p day) w.durable w.now b req res w' := h
    obtain ⟨t, hreads, -, hdue⟩ := h.due
    refine ⟨⟨fun _ => ⟨h.billable, hreads.on_day ▸ hdue⟩, fun _ => ⟨res, rfl⟩⟩, fun _ hres => ?_⟩
    cases hres
    exact h.wording hsound
  | error e =>
    refine ⟨⟨nofun, fun ⟨hbill, hday⟩ => ?_⟩, nofun⟩
    obtain ⟨-, hno⟩ | ⟨-, hno | ⟨t, hreads, hpast⟩⟩ := h.1 OnDay.calm OnDay.draws
    · exact absurd hcu hno
    · exact absurd hbill hno
    · rw [hreads.on_day] at hpast
      exact absurd hday (Int.not_le.mpr hpast)

theorem edit_acceptable {cs : List Choice} {w' : World} {r : Invoice}
    {items : List CreateLineItemRequest} {due_date day : NaiveDate}
    {answer : Except AppError InvoiceResult} (htx : w.tx p = none)
    (hr : Claimable w.db i r.versioning r) (hb : r.business_id = b)
    (hcs : Daily p day (edit_invoice i b ⟨some due_date, some items, r.versioning⟩) cs w)
    (hrun : (edit_invoice i b ⟨some due_date, some items, r.versioning⟩).run.run (World.exec p) cs
      w = some (w', answer)) :
    ((∃ res, answer = .ok res) ↔ Acceptable items due_date day) ∧
    ∀ res, answer = .ok res → w'.db.wording i = some (asked items due_date) := by
  have h := Leaves.of_run (edit_invoice_leaves (World.staged htx)) hcs hrun
  cases answer with
  | ok res =>
    obtain ⟨r', t, hr', -, hchecked, h⟩ := h
    obtain rfl := Option.some.inj (hr.row.symm.trans hr'.row)
    obtain ⟨u, hreads, -, hdue⟩ := h.due due_date rfl
    obtain ⟨hne, hpos⟩ := hchecked items rfl
    refine ⟨⟨fun _ => ⟨⟨hne, hpos, h.total items rfl⟩, hreads.on_day ▸ hdue⟩,
      fun _ => ⟨res, rfl⟩⟩, fun _ _ => ?_⟩
    obtain rfl := Db.id_of_invoice hr.row
    exact h.wording rfl rfl
  | error e =>
    refine ⟨⟨nofun, fun ⟨hbill, hday⟩ => ?_⟩, nofun⟩
    have hchecked : EditChecked (some items) := fun reqs hreqs => by
      cases hreqs
      exact ⟨hbill.nonempty, hbill.positive⟩
    rcases h with ⟨hbad, -⟩ | ⟨r', t, hr', -, hbad, -⟩
    · rcases hbad OnDay.calm with ⟨hno, -⟩ | ⟨hno, -⟩ | ⟨⟨r', hr', -, -, hmax⟩, -⟩
      · exact absurd hchecked hno
      · exact absurd ⟨rfl, hr.draft⟩ (hno r hr.row)
      · exact absurd hmax (Option.some.inj (hr.row.symm.trans hr') ▸ hr.max)
    · obtain rfl := Option.some.inj (hr.row.symm.trans hr'.row)
      rcases hbad OnDay.calm OnDay.draws with ⟨hno, -⟩ | ⟨r', hown, ⟨hne, -⟩ | ⟨-, hpast | hneg⟩⟩
      · cases hno.symm.trans (hr.own.mpr ⟨hb, rfl⟩)
      · obtain ⟨-, rfl⟩ := hr.own.mp hown
        exact absurd hr.draft hne
      · obtain ⟨d, t', hd, hreads, hlt⟩ := hpast
        cases hd
        rw [hreads.on_day] at hlt
        exact absurd hday (Int.not_le.mpr hlt)
      · exact absurd (fun reqs hreqs => by cases hreqs; exact hbill.total) hneg

/-- CORRECT (one set of rules): the edit of a draft by its owner at its current version and the
    creation of an invoice for a valid customer, each on its own, with the same items and due date
    on the same day, are both accepted or both refused; and if they are accepted, the two invoices
    say the same. -/
theorem same_rules {p₁ p₂ : Pid} {w₁ w₂ : World} {b₁ b₂ cu : Uuid} {r : Invoice}
    {edit : EditInvoiceRequest} {create : CreateInvoiceRequest} {items : List CreateLineItemRequest}
    {due_date : NaiveDate} (day : NaiveDate) (htx₁ : w₁.tx p₁ = none) (htx₂ : w₂.tx p₂ = none)
    (hr : Claimable w₁.db i r.versioning r) (hb : r.business_id = b₁) (hcu : w₂.db.Serves b₂ cu)
    (hsound : w₂.db.Sound) (hedit : edit = ⟨some due_date, some items, r.versioning⟩)
    (hcreate : create = ⟨cu, due_date, items⟩) :
    (w₁.Quiet → ∀ f : ℕ → Choice, ∃ n w₁' a₁, (edit_invoice i b₁ edit).run.run (World.exec p₁)
      ((List.range n).map f) w₁ = some (w₁', a₁)) ∧
    (w₂.Quiet → ∀ f : ℕ → Choice, ∃ n w₂' a₂, (Handlers.create_invoice b₂ create).run.run
      (World.exec p₂) ((List.range n).map f) w₂ = some (w₂', a₂)) ∧
    ∀ cs₁ w₁' a₁ cs₂ w₂' a₂, Daily p₁ day (edit_invoice i b₁ edit) cs₁ w₁ →
      (edit_invoice i b₁ edit).run.run (World.exec p₁) cs₁ w₁ = some (w₁', a₁) →
      Daily p₂ day (Handlers.create_invoice b₂ create) cs₂ w₂ →
      (Handlers.create_invoice b₂ create).run.run (World.exec p₂) cs₂ w₂ = some (w₂', a₂) →
      ((∃ res, a₁ = .ok res) ↔ ∃ res, a₂ = .ok res) ∧
      ∀ res₁ res₂, a₁ = .ok res₁ → a₂ = .ok res₂ →
        w₁'.db.wording i = some (asked items due_date) ∧
        w₂'.db.wording res₂.invoice.id = some (asked items due_date) := by
  subst hedit hcreate
  refine ⟨fun h f => h.returns _ f, fun h f => h.returns _ f, ?_⟩
  intro cs₁ w₁' a₁ cs₂ w₂' a₂ hcs₁ hrun₁ hcs₂ hrun₂
  obtain ⟨hiff₁, hwording₁⟩ := edit_acceptable htx₁ hr hb hcs₁ hrun₁
  obtain ⟨hiff₂, hwording₂⟩ := create_acceptable htx₂ hcu hsound hcs₂ hrun₂
  exact ⟨hiff₁.trans hiff₂.symm, fun res₁ res₂ h₁ h₂ => ⟨hwording₁ res₁ h₁, hwording₂ res₂ h₂⟩⟩

/-- `n` operations, each with an id of its own. -/
def apart (n : ℕ) : List Choice := (List.range n).map fun k => { Sys.calm with uuid := 50 + k }

def two_lines : List CreateLineItemRequest := [⟨" hours ", 3, 9000⟩, ⟨"fee", 1, 500⟩]

theorem same_rules_two : ∃ σ ∈ Sys.initial.steps Sys.issued,
    ∃ x₁ ∈ (edit_invoice 20 1 ⟨some 0, some two_lines, 1⟩).run.run (World.exec (.call 8)) (apart 12)
      σ.world,
    ∃ x₂ ∈ (Handlers.create_invoice 1 ⟨10, 0, two_lines⟩).run.run (World.exec (.call 9)) (apart 8)
      σ.world, ∃ res ∈ x₂.2.toOption,
    x₁.1.db.wording 20 = some (asked two_lines 0) ∧
    x₂.1.db.wording res.invoice.id = some (asked two_lines 0) := by
  obtain ⟨σ, hσ, ⟨htx₁, htx₂, hsound, hcu⟩, ⟨r, hr, hs, hv, hmax, hb⟩, ⟨x₁, hx₁, hok₁⟩,
      ⟨x₂, hx₂, hok₂⟩, hcs₁, hcs₂⟩ : ∃ σ ∈ Sys.initial.steps Sys.issued,
    ((σ.world.tx (.call 8)).isNone ∧ (σ.world.tx (.call 9)).isNone ∧
      (∀ x ∈ σ.db.invoice_line_items.rows, (σ.db.invoice x.invoice_id).isSome) ∧
      ∃ c ∈ σ.db.customers.find 10, c.business_id = 1) ∧
    (∃ r ∈ σ.db.invoice 20, r.state = .Draft ∧ r.versioning = 1 ∧
      r.versioning ≠ Int32.maxValue ∧ r.business_id = 1) ∧
    (∃ x₁ ∈ (edit_invoice 20 1 ⟨some 0, some two_lines, 1⟩).run.run (World.exec (.call 8)) (apart 12)
      σ.world, x₁.2.toOption.isSome) ∧
    (∃ x₂ ∈ (Handlers.create_invoice 1 ⟨10, 0, two_lines⟩).run.run (World.exec (.call 9)) (apart 8)
      σ.world, x₂.2.toOption.isSome) ∧
    Daily (.call 8) 0 (edit_invoice 20 1 ⟨some 0, some two_lines, 1⟩) (apart 12) σ.world ∧
    Daily (.call 9) 0 (Handlers.create_invoice 1 ⟨10, 0, two_lines⟩) (apart 8) σ.world := by
      decide +kernel
  obtain ⟨res₁, hres₁⟩ := Option.isSome_iff_exists.mp hok₁
  obtain ⟨res₂, hres₂⟩ := Option.isSome_iff_exists.mp hok₂
  exact ⟨σ, hσ, x₁, hx₁, x₂, hx₂, res₂, hres₂, (same_rules 0 (Option.isNone_iff_eq_none.mp htx₁)
    (Option.isNone_iff_eq_none.mp htx₂) ⟨hr, hs, rfl, hmax⟩ hb hcu
    (fun x hx => Option.isSome_iff_exists.mp (hsound x hx)) (hv ▸ rfl) rfl).2.2 _ _ _ _ _ _ hcs₁ hx₁
    hcs₂ hx₂ |>.2 res₁ res₂ (ok_of_toOption hres₁) (ok_of_toOption hres₂)⟩

end Payman
