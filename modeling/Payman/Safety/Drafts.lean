import Payman.Safety.Invoices
import Payman.Safety.Transitions

/-! `create_invoice`, on its own.

    The loop that inserts the items is shared with `edit_invoice`. Its rule says what it has added to
    the transaction when it is through, and that nothing but a bad item can stop it as long as the
    database works and the UUIDs are new. -/

namespace Payman
open Schemes

attribute [local irreducible] trim

variable {p : Pid} {allow : Choice → World → Prop} {w : World} {l : Durable} {since : DateTime}
  {b i : Uuid} {err : AppError → World → Prop}

/-- A time that the process may read from the clock. -/
def Reads (allow : Choice → World → Prop) (t : DateTime) : Prop :=
  ∃ c w, allow c w ∧ t = w.now + c.elapsed

/-- Both numbers of an item are positive. -/
def CreateLineItemRequest.Positive (item : CreateLineItemRequest) : Prop :=
  0 < item.quantity ∧ 0 < item.unit_amount_cents

instance (item : CreateLineItemRequest) : Decidable item.Positive :=
  inferInstanceAs (Decidable (_ ∧ _))

/-- The items may be billed: there are some, all numbers are positive, and so is what is computed as
    their total. -/
structure Billable (items : List CreateLineItemRequest) : Prop where
  nonempty : items ≠ []
  positive : ∀ item ∈ items, item.Positive
  total : 0 < total_of items

/-- The error is the caller's input. -/
def AppError.IsBadRequest (e : AppError) : Prop := ∃ m, e = .BadRequest m

theorem Stage.earlier {tx : Option (Tx DateTime Write)} {t : DateTime} (h : Stage p l tx t w)
    (ht : since ≤ t) : Stage p l tx since w := ⟨h.durable, h.tx, Int.le_trans ht h.clock⟩

/-! ### Checks -/

namespace Leaves

theorem check_line_item {ok : Unit → World → Prop} {item : CreateLineItemRequest}
    (herr : ¬item.Positive → ∀ m, err (.BadRequest m) w) (hok : item.Positive → ok () w) :
    Leaves p allow ok err (check_line_item item) w := by
  refine .seq (.reject_if (fun hq => herr (fun h => ?_) _) fun hq => .reject_if (fun hu =>
    herr (fun h => ?_) _) fun hu => hok ⟨Int32.not_le.mp hq, Int64.not_le.mp hu⟩)
  · exact Int32.not_le.mpr h.1 hq
  · exact Int64.not_le.mpr h.2 hu

theorem check_total {ok : Unit → World → Prop} {total_cents : Int64}
    (herr : ¬0 < total_cents → ∀ m, err (.BadRequest m) w) (hok : 0 < total_cents → ok () w) :
    Leaves p allow ok err (check_total total_cents) w :=
  .reject_if (fun h => herr (fun hpos => Int64.not_le.mpr hpos h) _) fun h =>
    hok (Int64.not_le.mp h)

theorem check_due_date {ok : Unit → World → Prop} {tx : Option (Tx DateTime Write)}
    {due_date : NaiveDate} (h : Stage p l tx since w)
    (herr : ∀ t m w', Reads allow t → due_date < date_naive t → Stage p l tx since w' →
      err (.BadRequest m) w')
    (hok : ∀ t w', Reads allow t → since ≤ t → date_naive t ≤ due_date → Stage p l tx t w' →
      ok () w') : Leaves p allow ok err (check_due_date due_date) w := by
  refine .seq (.utc_now h fun c w' hc hle h' => ?_)
  have hreads : Reads allow (w.now + c.elapsed) := ⟨c, w, hc, rfl⟩
  exact .reject_if (fun hpast => herr _ _ w' hreads hpast (h'.earlier hle))
    fun hpast => hok _ w' hreads hle (Int.not_lt.mp hpast) h'

end Leaves

/-! ### Inserting items -/

/-- `check` lets every positive item of the list pass, and nothing else goes on. -/
def Checks (p : Pid) (allow : Choice → World → Prop) (items : List CreateLineItemRequest)
    (check : CreateLineItemRequest → App Unit) : Prop :=
  ∀ item ∈ items, ∀ (ok : Unit → World → Prop) (err : AppError → World → Prop) (w : World),
    (¬item.Positive → ∀ m, err (.BadRequest m) w) → (item.Positive → ok () w) →
      Leaves p allow ok err (check item) w

theorem Checks.line_item {items : List CreateLineItemRequest} :
    Checks p allow items check_line_item := fun _ _ _ _ _ => Leaves.check_line_item

theorem Checks.none {items : List CreateLineItemRequest} (h : ∀ item ∈ items, item.Positive) :
    Checks p allow items fun _ => pure () := fun item hi _ _ _ _ hok => hok (h item hi)

theorem run_insert_line_item_of {now : DateTime} {c : Choice} {db : Db} {r : Invoice}
    {item : CreateLineItemRequest} (hnew : db.line_item c.uuid = none) (hi : db.invoice i = some r)
    (hpos : item.Positive) : ∃ x, Stmt.run now c db (.insert_line_item i (trim item.description)
      item.quantity item.unit_amount_cents) = .ok x := by
  simp only [Stmt.run]
  rw [Stmt.unused_of hnew, Stmt.references_of hi]
  refine ⟨_, if_neg fun h => ?_⟩
  rcases h with h | h
  · exact Int32.not_le.mpr hpos.1 h
  · exact Int64.not_le.mpr hpos.2 h

/-- The loop, on top of the writes `base` and of the items `lines₀` that it has inserted already. -/
theorem insert_line_items_leaves (base : List Write) (gone : List Uuid) {t : DateTime} {r : Invoice}
    {check : CreateLineItemRequest → App Unit} (hi : (applyAll l.db base).invoice i = some r)
    (hbase : ∀ u, (applyAll l.db base).line_item u = none →
      ∀ y, l.db.line_item u = some y → u ∈ gone) :
    ∀ (items reqs₀ : List CreateLineItemRequest) (lines₀ : List LineItem) (w : World),
      Checks p allow items check → Inserted l.db gone i reqs₀ lines₀ →
      Stage p l (some ⟨t, base ++ lines₀.map .put_line_item⟩) since w →
      Leaves p allow
        (fun lines w' => (∀ item ∈ items, item.Positive) ∧
          Inserted l.db gone i (reqs₀ ++ items) (lines₀ ++ lines) ∧
          Stage p l (some ⟨t, base ++ (lines₀ ++ lines).map .put_line_item⟩) since w')
        (fun e w' => (Calm allow → Draws p allow →
          e.IsBadRequest ∧ ∃ item ∈ items, ¬item.Positive) ∧ ∃ tx, Stage p l tx since w')
        (insert_line_items check i items) w
  | [], reqs₀, lines₀, w, _, hins, h => by
    refine .pure ⟨nofun, ?_, ?_⟩
    · simpa using hins
    · simpa using h
  | item :: items, reqs₀, lines₀, w, hchecks, hins, h => by
    refine .seq (hchecks item (List.mem_cons_self ..) _ _ w (fun hneg m =>
      ⟨fun _ _ => ⟨⟨m, rfl⟩, item, List.mem_cons_self .., hneg⟩, _, h⟩) fun hpos => ?_)
    have hview : ∀ u, (applyAll l.db (base ++ lines₀.map .put_line_item)).line_item u =
        (lines₀.foldl Table.put (applyAll l.db base).invoice_line_items).find u := fun u => by
      rw [applyAll_append, Db.applyAll_put_line_items]
    have hinv : (applyAll l.db (base ++ lines₀.map .put_line_item)).invoice i = some r := by
      rw [applyAll_append, Db.applyAll_put_line_items]
      exact hi
    refine .seq (.sql_within h (fun c e w₁ hc href h₁ => ⟨fun hcalm hdraws => ?_, _, h₁⟩)
      fun c ws (x : LineItem) w₁ hc hrun h₁ => ?_)
    · have hnew : (applyAll l.db (base ++ lines₀.map .put_line_item)).line_item c.uuid = none := by
        rw [← h.view]
        exact (hdraws c w hc).line_item
      have hbad := hcalm.refused hc href
      obtain ⟨x, hx⟩ := run_insert_line_item_of hnew hinv hpos
      cases hx.symm.trans hbad
    · obtain ⟨hnone, hx, rfl⟩ := Stmt.run_insert_line_item hrun
      obtain ⟨hid, hrow⟩ : x.id = c.uuid ∧ x.invoice_id = i ∧
        x.description = trim item.description ∧ x.quantity = item.quantity ∧
        x.unit_amount_cents = item.unit_amount_cents := by simp [hx]
      rw [hview, ← hid] at hnone
      obtain ⟨hnone, hnew⟩ := (Table.find_foldl_put_eq_none ..).mp hnone
      have hins₁ := hins.concat hrow hnew (hbase x.id hnone)
      have h₁ : Stage p l (some ⟨t, base ++ (lines₀ ++ [x]).map .put_line_item⟩) since w₁ := by
        simpa [List.append_assoc] using h₁
      refine .bind (.imp (insert_line_items_leaves base gone hi hbase items _ _ w₁
        (fun item' hi' => hchecks item' (List.mem_cons_of_mem _ hi')) hins₁ h₁)
        (fun _ _ h => h) fun e w₂ h₂ => ⟨fun hcalm hdraws => ?_, h₂.2⟩) fun lines w₂ h₂ => .pure ?_
      · obtain ⟨hbad, item', hi', hneg⟩ := h₂.1 hcalm hdraws
        exact ⟨hbad, item', List.mem_cons_of_mem _ hi', hneg⟩
      · obtain ⟨hall, hins₂, hstage₂⟩ := h₂
        refine ⟨List.forall_mem_cons.mpr ⟨hpos, hall⟩, ?_, ?_⟩
        · simpa [List.append_assoc] using hins₂
        · simpa [List.append_assoc] using hstage₂

/-! ### Create -/

/-- The customer belongs to the business. -/
def Db.Serves (db : Db) (b customer_id : Uuid) : Prop :=
  ∃ c, db.customers.find customer_id = some c ∧ c.business_id = b

/-- What a request that has succeeded has seen and done. -/
structure Created (p : Pid) (allow : Choice → World → Prop) (l : Durable) (since : DateTime)
    (b : Uuid) (req : CreateInvoiceRequest) (res : InvoiceResult) (w' : World) : Prop where
  customer : l.db.Serves b req.customer_id
  billable : Billable req.line_items
  due : ∃ t, Reads allow t ∧ since ≤ t ∧ date_naive t ≤ req.due_date
  row : ∃ i t, res.invoice = ⟨i, b, req.customer_id, .Draft, total_of req.line_items, req.due_date,
    t, t, 1⟩
  fresh : l.db.invoice res.invoice.id = none
  lines : Inserted l.db [] res.invoice.id req.line_items res.line_items
  stage : Stage p (l.commit p (.put_invoice res.invoice :: res.line_items.map .put_line_item)) none
    since w'

/-- Why a request fails when the database works and the UUIDs are new. -/
def CreateRefused (allow : Choice → World → Prop) (db : Db) (b : Uuid) (req : CreateInvoiceRequest)
    (e : AppError) : Prop :=
  (e = .NotFound ∧ ¬db.Serves b req.customer_id) ∨
    (e.IsBadRequest ∧ (¬Billable req.line_items ∨
      ∃ t, Reads allow t ∧ req.due_date < date_naive t))

theorem run_select_customer_id {now : DateTime} {c : Choice} {db : Db} {cu : Uuid} :
    Stmt.run now c db (.select_customer_id cu b) =
      .ok ([], (Stmt.lookup db.customers cu fun r => decide (r.business_id = b)).map (·.id)) := rfl

theorem Db.serves_iff {db : Db} {cu : Uuid} : db.Serves b cu ↔
    (Stmt.lookup db.customers cu fun r => decide (r.business_id = b)).map (·.id) ≠ none := by
  rw [Ne, Option.map_eq_none_iff, ← Ne, Option.ne_none_iff_exists']
  refine exists_congr fun c => ?_
  rw [Stmt.lookup, Option.filter_eq_some_iff, decide_eq_true_eq]

theorem run_insert_invoice_of {now : DateTime} {c : Choice} {db : Db} {cu : Uuid} {total : Int64}
    {due : NaiveDate} (hi : db.invoice i = none) (hcu : db.Serves b cu) :
    ∃ x, Stmt.run now c db (.insert_invoice i b cu total due) = .ok x := by
  obtain ⟨r, hr, -⟩ := hcu
  simp only [Stmt.run]
  rw [Stmt.unused_of hi, Stmt.references_of hr]
  exact ⟨_, rfl⟩

theorem create_invoice_leaves {req : CreateInvoiceRequest} (h : Stage p l none since w) :
    Leaves p allow (Created p allow l since b req)
      (fun e w' => (Calm allow → Draws p allow → CreateRefused allow l.db b req e) ∧
        Stage p l none since w') (Handlers.create_invoice b req) w := by
  refine .seq (.reject_if (fun hnil => ⟨fun _ _ => .inr ⟨⟨_, rfl⟩, .inl fun hbill =>
    hbill.nonempty hnil⟩, h⟩) fun hne => ?_)
  refine .seq (.query h (fun _ _ => run_select_customer_id) (fun c e w₁ hc hf h₁ =>
    ⟨fun hcalm => hcalm.never hc hf, h₁⟩) fun w₁ h₁ => ?_)
  refine .seq (.ok_or (fun hnone => ⟨fun _ _ => .inl ⟨rfl, fun hs =>
    Db.serves_iff.mp hs hnone⟩, h₁⟩) fun cu hcu => ?_)
  have hserves : l.db.Serves b req.customer_id := Db.serves_iff.mpr (hcu ▸ nofun)
  refine .seq (.check_total (fun hpos m => ⟨fun _ _ => .inr ⟨⟨m, rfl⟩, .inl fun hbill =>
    hpos hbill.total⟩, h₁⟩) fun htotal => ?_)
  refine .seq (.check_due_date h₁ (fun t m w₂ hreads hpast h₂ => ⟨fun _ _ => .inr ⟨⟨m, rfl⟩,
    .inr ⟨t, hreads, hpast⟩⟩, h₂⟩) fun t₂ w₂ hreads hsince hdue h₂ => ?_)
  refine .transaction (fun e => Calm allow → Draws p allow → CreateRefused allow l.db b req e)
    (h₂.earlier hsince) (fun e w' hbad h' => ⟨hbad, h'⟩) (fun c e w' hc hf hcalm =>
      hcalm.never hc hf) fun t w₃ _ h₃ => ?_
  refine .seq (.new_v4 h₃ fun c₄ w₄ hc₄ h₄ => ?_)
  have hnew : Draws p allow → l.db.invoice c₄.uuid = none := fun hdraws => by
    have hunused := hdraws c₄ w₃ hc₄
    rw [Unseen, h₃.view, applyAll_nil] at hunused
    exact hunused.invoice
  refine .seq (.sql_within h₄ (fun c e w₅ hc href h₅ => ⟨fun hcalm hdraws => ?_, _, h₅⟩)
    fun c ws (r : Invoice) w₅ hc hrun h₅ => ?_)
  · obtain ⟨x, hx⟩ := run_insert_invoice_of (hnew hdraws) hserves
    cases hx.symm.trans (hcalm.refused hc href)
  obtain ⟨hfresh, hr, rfl⟩ := Stmt.run_insert_invoice hrun
  have hfound : (applyAll l.db [Write.put_invoice r]).invoice c₄.uuid = some r := by
    have hid : r.id = c₄.uuid := by rw [hr]
    exact (Table.find_put ..).trans (if_pos hid)
  refine .bind (.imp (insert_line_items_leaves [.put_invoice r] [] hfound
    (fun u hu y hy => absurd (hu.symm.trans hy) nofun) req.line_items [] [] w₅ .line_item .nil h₅)
    (fun _ _ h => h) fun e w₆ h₆ => ⟨fun hcalm hdraws => ?_, h₆.2⟩)
    fun lines w₆ ⟨hpos, hins, h₆⟩ => .pure ⟨_, h₆, fun w₇ h₇ => ?_⟩
  · obtain ⟨hbad, item, hitem, hneg⟩ := h₆.1 hcalm hdraws
    exact .inr ⟨hbad, .inl fun hbill => hneg (hbill.positive item hitem)⟩
  · have hid : r.id = c₄.uuid := by rw [hr]
    refine ⟨hserves, ⟨hne, hpos, htotal⟩, ⟨t₂, hreads, hsince, hdue⟩, ⟨_, _, hr⟩, ?_, ?_, h₇⟩
    · show l.db.invoice r.id = none
      rw [hid]
      exact hfresh
    · show Inserted l.db [] r.id req.line_items lines
      rw [hid]
      exact hins

end Payman
