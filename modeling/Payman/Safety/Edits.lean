import Payman.Safety.Drafts
import Payman.Safety.Frames

/-! `edit_invoice`, on its own.

    The claim of the draft commits by itself; the rest is a transaction. What the transaction makes of
    the invoice and its items is one row version and one new list of items, whichever of the two
    optional fields is given. -/

namespace Payman
open Schemes

attribute [local irreducible] trim

variable {p : Pid} {allow : Choice → World → Prop} {w : World} {l : Durable}
  {since t : DateTime} {b i : Uuid} {req : EditInvoiceRequest}

/-- The invoice as the edit leaves it. -/
def Invoice.edited (r : Invoice) (req : EditInvoiceRequest) (t : DateTime) : Invoice :=
  { r with
    due_date := req.due_date.getD r.due_date,
    total_cents := (req.line_items.map total_of).getD r.total_cents,
    updated_at := t }

/-- The items as the edit leaves them; `lines` is what it returns. -/
structure ItemsEdited (db db' : Db) (i : Uuid) (items : Option (List CreateLineItemRequest))
    (lines : List LineItem) : Prop where
  kept : items = none → db'.invoice_line_items = db.invoice_line_items ∧ lines.Perm (db.items i)
  replaced : ∀ reqs, items = some reqs → db'.invoice_line_items.rows =
    (db.invoice_line_items.rows.filter fun x => decide (x.invoice_id ≠ i)) ++ lines ∧
    ∃ gone, Inserted db gone i reqs lines

/-- The due date that was given was not in the past. -/
def DueChecked (allow : Choice → World → Prop) (since : DateTime) (due_date : Option NaiveDate) :
    Prop := ∀ d, due_date = some d → ∃ t, Reads allow t ∧ since ≤ t ∧ date_naive t ≤ d

def PastDue (allow : Choice → World → Prop) (due_date : Option NaiveDate) : Prop :=
  ∃ d t, due_date = some d ∧ Reads allow t ∧ d < date_naive t

/-- The items that were given cost something. -/
def TotalChecked (items : Option (List CreateLineItemRequest)) : Prop :=
  ∀ reqs, items = some reqs → 0 < total_of reqs

/-- Between the state check and the items: the row version with the due date in it, and the writes
    that it took. -/
structure Dated (due_date : Option NaiveDate) (r r' : Invoice) (pre : List Write) : Prop where
  row : ∃ u, r' = { r with due_date := due_date.getD r.due_date, updated_at := u }
  pre : (pre = [] ∧ r' = r) ∨ pre = [.put_invoice r']

theorem Dated.id {due_date : Option NaiveDate} {r r' : Invoice} {pre : List Write}
    (h : Dated due_date r r' pre) : r'.id = r.id := by
  obtain ⟨u, rfl⟩ := h.row
  rfl

/-- Only the invoice's row has changed. -/
theorem Dated.applyAll {due_date : Option NaiveDate} {r r' : Invoice} {pre : List Write} {db : Db}
    (h : Dated due_date r r' pre) (hr : db.invoice r.id = some r) :
    applyAll db pre = { db with invoices := db.invoices.put r' } := by
  rcases h.pre with ⟨rfl, rfl⟩ | rfl
  · rw [Table.put_self hr]
    rfl
  · rfl

theorem Dated.invoice {due_date : Option NaiveDate} {r r' : Invoice} {pre : List Write} {db : Db}
    (h : Dated due_date r r' pre) (hr : db.invoice r.id = some r) :
    (Schemes.applyAll db pre).invoice r.id = some r' := by
  rw [h.applyAll hr]
  exact (Table.find_put ..).trans (if_pos h.id)

theorem set_due_date_leaves {due_date : Option NaiveDate} {r : Invoice}
    (h : Stage p l (some ⟨t, []⟩) since w) (hr : l.db.invoice r.id = some r) :
    Leaves p allow (fun _ w' => DueChecked allow since due_date ∧
        ∃ pre r', Dated due_date r r' pre ∧ Stage p l (some ⟨t, pre⟩) since w')
      (fun e w' => (Calm allow → e.IsBadRequest ∧ PastDue allow due_date) ∧
        ∃ tx, Stage p l tx since w') (set_due_date r.id due_date) w := by
  cases due_date with
  | none => exact .pure ⟨nofun, [], r, ⟨⟨r.updated_at, rfl⟩, .inl ⟨rfl, rfl⟩⟩, h⟩
  | some d =>
    refine .seq (.check_due_date h (fun t₁ m w₁ hreads hpast h₁ =>
      ⟨fun _ => ⟨⟨m, rfl⟩, d, t₁, rfl, hreads, hpast⟩, _, h₁⟩) fun t₁ w₁ hreads hsince hdue h₁ => ?_)
    have h₁ := h₁.earlier hsince
    refine .seq (.sql_known h₁ (fun c => Stmt.run_update_due_date_of hr) (fun e w₂ hno h₂ =>
      ⟨fun hcalm => absurd hcalm hno, _, h₂⟩) fun w₂ h₂ => .pure ?_)
    refine ⟨fun d' hd' => ?_, _, _, ⟨⟨t, rfl⟩, .inr rfl⟩, h₂⟩
    cases hd'
    exact ⟨t₁, hreads, hsince, hdue⟩

/-! ### Items -/

/-- The DELETE finds all items of the invoice and no others. -/
theorem delete_line_items_leaves {pre : List Write} (h : Stage p l (some ⟨t, pre⟩) since w)
    (hlines : (applyAll l.db pre).invoice_line_items = l.db.invoice_line_items) :
    Leaves p allow (fun _ w' => ∃ gone : List Uuid,
        (∀ u, u ∈ gone ↔ ∃ y, l.db.line_item u = some y ∧ y.invoice_id = i) ∧
        Stage p l (some ⟨t, pre ++ gone.map .delete_line_item⟩) since w')
      (fun _ w' => ¬Calm allow ∧ ∃ tx, Stage p l tx since w') (delete_line_items i) w := by
  refine .seq (.sql_within h (fun c e w₁ hc href h₁ => ⟨fun hcalm => ?_, _, h₁⟩)
    fun c ws (scanned : List Uuid) w₁ hc hrun h₁ => ?_)
  · cases hcalm.refused hc href
  obtain ⟨rfl, hscan⟩ := Stmt.run_scan_line_items hrun
  rw [hlines] at hscan
  rw [List.append_nil] at h₁
  refine .sql_within h₁ (fun c e w₂ hc href h₂ => ⟨fun hcalm => ?_, _, h₂⟩)
    fun c ws n w₂ hc hrun h₂ => ?_
  · cases hcalm.refused hc href
  obtain rfl := Stmt.run_delete_line_items hrun
  refine ⟨_, fun u => ?_, h₂⟩
  rw [Stmt.mem_still_there, Db.line_item, hlines]
  refine ⟨And.right, fun hy => ⟨?_, hy⟩⟩
  obtain ⟨y, hy, hi⟩ := hy
  exact Table.find_key hy ▸ hscan y (Table.mem_of_find hy) hi

theorem Inserted.rows_replaced {db : Db} {gone : List Uuid} {reqs : List CreateLineItemRequest}
    {lines : List LineItem} (h : Inserted db gone i reqs lines)
    (hgone : ∀ u, u ∈ gone ↔ ∃ y, db.line_item u = some y ∧ y.invoice_id = i) :
    (lines.foldl Table.put (gone.foldl Table.erase db.invoice_line_items)).rows =
      (db.invoice_line_items.rows.filter fun x => decide (x.invoice_id ≠ i)) ++ lines := by
  rw [h.rows_eq]
  refine congrArg (· ++ lines) (List.filter_congr fun x hx => ?_)
  rw [decide_eq_decide, not_iff_not, hgone]
  have hfind : db.line_item x.id = some x := Table.find_of_mem hx
  constructor
  · rintro ⟨y, hy, hi⟩
    exact Option.some.inj (hfind.symm.trans hy) ▸ hi
  · exact fun hi => ⟨x, hfind, hi⟩

/-- The invoice after its items: what the whole transaction writes. -/
structure Reworked (p : Pid) (l : Durable) (since t : DateTime) (r' : Invoice)
    (items : Option (List CreateLineItemRequest)) (lines : List LineItem) (w' : World) : Prop where
  total : TotalChecked items
  writes : ∃ ws rt u, rt = { r' with
      total_cents := (items.map total_of).getD r'.total_cents, updated_at := u } ∧
    Stage p l (some ⟨t, ws⟩) since w' ∧
    applyAll l.db ws = { l.db with
      invoices := l.db.invoices.put rt,
      invoice_line_items := (applyAll l.db ws).invoice_line_items } ∧
    ItemsEdited l.db (applyAll l.db ws) r'.id items lines

theorem replace_line_items_leaves {due_date : Option NaiveDate} {r r' : Invoice}
    {pre : List Write} {items : Option (List CreateLineItemRequest)}
    (h : Stage p l (some ⟨t, pre⟩) since w) (hr : l.db.invoice r.id = some r)
    (hpre : Dated due_date r r' pre) (hitems : EditChecked items) :
    Leaves p allow (Reworked p l since t r' items)
      (fun e w' => (Calm allow → Draws p allow → e.IsBadRequest ∧ ¬TotalChecked items) ∧
        ∃ tx, Stage p l tx since w') (replace_line_items r.id items) w := by
  have hdb := hpre.applyAll hr
  have hid := hpre.id
  cases items with
  | none =>
    refine .sql_within h (fun c e w₁ hc href h₁ => ⟨fun hcalm => ?_, _, h₁⟩)
      fun c ws lines w₁ hc hrun h₁ => ⟨fun _ hreqs => ?_, pre, r', r'.updated_at, rfl, ?_, ?_, ?_⟩
    · cases hcalm.refused hc href
    · cases hreqs
    · cases hrun
      rwa [List.append_nil] at h₁
    · rw [hdb]
    · cases hrun
      refine ⟨fun _ => ⟨by rw [hdb], ?_⟩, fun _ hreqs => ?_⟩
      · rw [hdb, hid]
        exact arrange_perm ..
      · cases hreqs
  | some reqs =>
    obtain ⟨-, hpos⟩ := hitems reqs rfl
    have hlines : (applyAll l.db pre).invoice_line_items = l.db.invoice_line_items := by rw [hdb]
    refine .seq (.check_total (fun hneg m => ⟨fun _ _ => ⟨⟨m, rfl⟩, fun hall =>
      hneg (hall reqs rfl)⟩, _, h⟩) fun htotal => ?_)
    refine .bind (.imp (delete_line_items_leaves h hlines) (fun _ _ h => h) fun e w₁ h₁ =>
      ⟨fun hcalm => absurd hcalm h₁.1, h₁.2⟩) fun _ w₁ hdeleted => ?_
    obtain ⟨gone, hgone, h₁⟩ := hdeleted
    have hfound : (applyAll l.db (pre ++ gone.map .delete_line_item)).invoice r.id = some r' := by
      rw [applyAll_append, Db.applyAll_delete_line_items]
      exact hpre.invoice hr
    have hbase : ∀ u, (applyAll l.db (pre ++ gone.map .delete_line_item)).line_item u = none →
        ∀ y, l.db.line_item u = some y → u ∈ gone := by
      intro u hu y hy
      by_contra hnot
      rw [applyAll_append, Db.applyAll_delete_line_items, Db.line_item, hlines,
        Table.find_foldl_erase, if_neg hnot] at hu
      cases hu.symm.trans hy
    refine .bind (.imp (insert_line_items_leaves _ gone hfound hbase reqs [] [] w₁ (.none hpos) .nil
      (by simpa using h₁)) (fun _ _ h => h) fun e w₂ h₂ => ⟨fun hcalm hdraws => ?_, h₂.2⟩)
      fun lines w₂ hadded => ?_
    · obtain ⟨-, item, hitem, hneg⟩ := h₂.1 hcalm hdraws
      exact absurd (hpos item hitem) hneg
    obtain ⟨-, hins, h₂⟩ := hadded
    simp only [List.nil_append] at hins h₂
    have hview : (applyAll l.db (pre ++ gone.map .delete_line_item ++
        lines.map .put_line_item)).invoice r.id = some r' := by
      rw [applyAll_append, Db.applyAll_put_line_items]
      exact hfound
    refine .seq (.sql_known h₂ (fun c => Stmt.run_update_total_of hview) (fun e w₃ hno h₃ =>
      ⟨fun hcalm => absurd hcalm hno, _, h₃⟩) fun w₃ h₃ => .pure ?_)
    refine ⟨fun reqs' hreqs' => ?_, _, _, t, rfl, h₃, ?_, fun hnone => ?_, fun reqs' hreqs' => ?_⟩
    · cases hreqs'
      exact htotal
    · rw [applyAll_edit hpre.pre, hdb]
      dsimp only
      rw [Table.put_put _ (by rfl)]
      rfl
    · cases hnone
    · cases hreqs'
      rw [applyAll_edit hpre.pre, hid]
      exact ⟨hins.rows_replaced hgone, gone, hins⟩

/-! ### The transaction -/

/-- What `edit_invoice` does once it has the draft. -/
def edit_draft (invoice_id business_id : Uuid) (req : EditInvoiceRequest) : App InvoiceResult :=
  transaction (do
    let state : InvoiceState ← ok_or
      (← sql (.select_invoice_state invoice_id business_id)) .NotFound
    reject_if (state ≠ .Draft) (.InvalidStateTransition
      ("cannot edit invoice in '" ++ state.debug ++ "' state, must be 'draft'"))
    set_due_date invoice_id req.due_date
    let line_items ← replace_line_items invoice_id req.line_items
    let invoice ← fetch_one (← sql (.select_updated invoice_id))
    return { invoice, line_items })

/-- The edit of the row `r`, on top of the durable state `l`. -/
structure Edited (p : Pid) (allow : Choice → World → Prop) (l : Durable) (since : DateTime)
    (req : EditInvoiceRequest) (r : Invoice) (res : InvoiceResult) (w' : World) : Prop where
  row : ∃ u, res.invoice = r.edited req u
  due : DueChecked allow since req.due_date
  total : TotalChecked req.line_items
  db : w'.db = { l.db with
    invoices := l.db.invoices.put res.invoice,
    invoice_line_items := w'.db.invoice_line_items }
  items : ItemsEdited l.db w'.db r.id req.line_items res.line_items
  idle : w'.tx p = none
  clock : since ≤ w'.now

/-- Why the transaction fails when the database works and the UUIDs are new. -/
def EditRefused (allow : Choice → World → Prop) (db : Db) (b i : Uuid) (req : EditInvoiceRequest)
    (e : AppError) : Prop :=
  (db.own b i = none ∧ e = .NotFound) ∨ ∃ r, db.own b i = some r ∧
    ((r.state ≠ .Draft ∧ ∃ m, e = .InvalidStateTransition m) ∨
      (e.IsBadRequest ∧ (PastDue allow req.due_date ∨ ¬TotalChecked req.line_items)))

theorem edit_draft_leaves (h : Stage p l none since w) (hitems : EditChecked req.line_items) :
    Leaves p allow (fun res w' => ∃ r, l.db.own b i = some r ∧ r.state = .Draft ∧
        Edited p allow l since req r res w')
      (fun e w' => (Calm allow → Draws p allow → EditRefused allow l.db b i req e) ∧
        Stage p l none since w') (edit_draft i b req) w := by
  refine .transaction (fun e => Calm allow → Draws p allow → EditRefused allow l.db b i req e) h
    (fun e w' hbad h' => ⟨hbad, h'⟩) (fun c e w' hc hf hcalm => hcalm.never hc hf)
    fun t w₁ _ h₁ => ?_
  refine .seq (.query_within h₁ (fun _ => rfl) (fun e w₂ hno h₂ =>
    ⟨fun hcalm => absurd hcalm hno, _, h₂⟩) fun w₂ h₂ => ?_)
  rw [applyAll_nil, Db.lookup_own]
  refine .seq (.ok_or (fun hnone => ⟨fun _ _ => .inl ⟨Option.map_eq_none_iff.mp hnone, rfl⟩, _,
    h₂⟩) fun s hs => ?_)
  obtain ⟨r, hr, rfl⟩ := Option.map_eq_some_iff.mp hs
  refine .seq (.reject_if (fun hne => ⟨fun _ _ => .inr ⟨r, hr, .inl ⟨hne, _, rfl⟩⟩, _, h₂⟩)
    fun hdraft => ?_)
  have hrow := (Db.own_eq_some.mp hr).1
  obtain rfl := Db.id_of_invoice hrow
  refine .bind (.imp (set_due_date_leaves h₂ hrow) (fun _ _ h => h) fun e w₃ h₃ =>
    ⟨fun hcalm _ => ?_, h₃.2⟩) fun _ w₃ ⟨hdue, pre, r', hpre, h₃⟩ => ?_
  · obtain ⟨hbad, hpast⟩ := h₃.1 hcalm
    exact .inr ⟨r, hr, .inr ⟨hbad, .inl hpast⟩⟩
  refine .bind (.imp (replace_line_items_leaves h₃ hrow hpre hitems) (fun _ _ h => h) fun e w₄ h₄ =>
    ⟨fun hcalm hdraws => ?_, h₄.2⟩) fun lines w₄ ⟨htotal, ws, rt, u, hrt, h₄, hdb, hlines⟩ => ?_
  · obtain ⟨hbad, hneg⟩ := h₄.1 hcalm hdraws
    exact .inr ⟨r, hr, .inr ⟨hbad, .inr hneg⟩⟩
  refine .seq (.query_within h₄ (fun _ => rfl) (fun e w₅ hno h₅ =>
    ⟨fun hcalm => absurd hcalm hno, _, h₅⟩) fun w₅ h₅ => ?_)
  have hid : rt.id = r.id := by rw [hrt]; exact hpre.id
  have hview : (applyAll l.db ws).invoices.find r.id = some rt := by
    rw [hdb]
    exact (Table.find_put ..).trans (if_pos hid)
  rw [hview]
  refine .seq (.ok_or nofun fun rt' hrt' => .pure ⟨ws, h₅, fun w₆ h₆ => ?_⟩)
  cases hrt'
  have hw₆ : w₆.db = applyAll l.db ws := h₆.db
  refine ⟨r, hr, not_not.mp hdraft, ⟨u, ?_⟩, hdue, htotal, hw₆ ▸ hdb, ?_, h₆.tx, h₆.clock⟩
  · obtain ⟨u', rfl⟩ := hpre.row
    exact hrt
  · rw [hw₆]
    exact hpre.id ▸ hlines

/-! ### The request -/

/-- A draft at this version, whoever it belongs to. -/
structure Claimable (db : Db) (i : Uuid) (v : Int32) (r : Invoice) : Prop where
  row : db.invoice i = some r
  draft : r.state = .Draft
  version : r.versioning = v
  max : r.versioning ≠ Int32.maxValue

/-- The draft once it is claimed. -/
def Invoice.claimed (r : Invoice) (t : DateTime) : Invoice :=
  { r with updated_at := t, versioning := r.versioning + 1 }

/-- Why a request ends before it has the draft, when the database works. -/
def ClaimRefused (db : Db) (i : Uuid) (req : EditInvoiceRequest) (e : AppError) : Prop :=
  (¬EditChecked req.line_items ∧ e.IsBadRequest) ∨
    ((∀ r, db.invoice i = some r → ¬(r.versioning = req.versioning ∧ r.state = .Draft)) ∧
      ∃ m, e = .Conflict m) ∨
    ((∃ r, db.invoice i = some r ∧ r.versioning = req.versioning ∧ r.state = .Draft ∧
      r.versioning = Int32.maxValue) ∧ e = .Database .NumericValueOutOfRange)

theorem edit_invoice_eq : edit_invoice i b req = (do
    check_edit_items req.line_items
    let rows_affected : ℕ ← sql (.claim_draft i req.versioning)
    reject_if (rows_affected = 0) (.Conflict "invoice is being processed, try later!")
    edit_draft i b req) := rfl

namespace Leaves
variable {ok : Unit → World → Prop} {err : AppError → World → Prop}

theorem check_line_items : ∀ {items : List CreateLineItemRequest},
    (¬(∀ item ∈ items, item.Positive) → ∀ m, err (.BadRequest m) w) →
    ((∀ item ∈ items, item.Positive) → ok () w) →
    Leaves p allow ok err (Payman.check_line_items items) w
  | [], _, hok => hok nofun
  | item :: items, herr, hok => by
    refine .seq (.check_line_item (fun hneg => herr fun hall => hneg (hall _ (.head _))) fun hpos =>
      check_line_items (fun hneg => herr fun hall => hneg fun x hx => hall x (.tail _ hx))
        fun hall => hok (List.forall_mem_cons.mpr ⟨hpos, hall⟩))

theorem check_edit_items {items : Option (List CreateLineItemRequest)}
    (herr : ¬EditChecked items → ∀ m, err (.BadRequest m) w) (hok : EditChecked items → ok () w) :
    Leaves p allow ok err (Payman.check_edit_items items) w := by
  cases items with
  | none => exact hok nofun
  | some reqs =>
    refine .seq (.reject_if (fun hnil => herr (fun h => (h reqs rfl).1 hnil) _) fun hne =>
      check_line_items (fun hneg => herr fun h => hneg (h reqs rfl).2) fun hall => hok ?_)
    intro reqs' hreqs'
    cases hreqs'
    exact ⟨hne, hall⟩

/-- The claim of a draft. -/
theorem claim_draft {ok : ℕ → World → Prop} {v : Int32} (h : Stage p l none since w)
    (hok : ∀ r t w', Claimable l.db i v r →
      Stage p (l.commit p [.put_invoice (r.claimed t)]) none since w' → ok 1 w')
    (hstale : ∀ w', (∀ r, l.db.invoice i = some r → ¬(r.versioning = v ∧ r.state = .Draft)) →
      Stage p l none since w' → ok 0 w')
    (herr : ∀ e w', (Calm allow → (∃ r, l.db.invoice i = some r ∧ r.versioning = v ∧
      r.state = .Draft ∧ r.versioning = Int32.maxValue) ∧ e = .NumericValueOutOfRange) →
      Stage p l none since w' → err (.Database e) w') :
    Leaves p allow ok err (sql (.claim_draft i v)) w := by
  refine .sql_outside h (fun now c e w' hc href h' => herr e w' (fun hcalm => ?_) h')
    fun now c ws n w' hc _ hrun h' => ?_
  · obtain ⟨rfl, r, hr, hcond, hmax⟩ := Stmt.bump_error (hcalm.refused hc href)
    obtain ⟨hv, hdraft⟩ := of_decide_eq_true hcond
    exact ⟨⟨r, hr, hv, hdraft, hmax⟩, rfl⟩
  · rcases Stmt.rows_affected_ok hrun with ⟨rfl, rfl, hno⟩ | ⟨r, r', hr, hc, hs, rfl, rfl⟩
    · rw [Durable.auto_nil] at h'
      exact hstale w' (fun r hr hc => by simpa [hc] using hno r hr) h'
    · obtain ⟨hmax, rfl⟩ := Stmt.map_next_i32_ok hs
      obtain ⟨hv, hdraft⟩ := of_decide_eq_true hc
      rw [Durable.auto_of_ne (List.cons_ne_nil _ _)] at h'
      exact hok r now w' ⟨hr, hdraft, hv, hmax⟩ h'

end Leaves

/-- `l` after the claim. -/
abbrev Durable.claimed (l : Durable) (p : Pid) (r : Invoice) (t : DateTime) : Durable :=
  l.commit p [.put_invoice (r.claimed t)]

theorem Claimable.own {v : Int32} {r r' : Invoice} (h : Claimable l.db i v r) :
    (l.claimed p r t).db.own b i = some r' ↔ r.business_id = b ∧ r' = r.claimed t := by
  have hid : r.id = i := Db.id_of_invoice h.row
  have hfind : (l.claimed p r t).db.invoice i = some (r.claimed t) :=
    (Table.find_put ..).trans (if_pos hid)
  rw [Db.own_eq_some, hfind, Option.some.injEq]
  constructor
  · rintro ⟨rfl, hb⟩
    exact ⟨hb, rfl⟩
  · rintro ⟨hb, rfl⟩
    exact ⟨rfl, hb⟩

/-- Nothing of the claimed version is left. -/
theorem Edited.of_claimed {r : Invoice} {res : InvoiceResult} {w' : World}
    (h : Edited p allow (l.claimed p r t) since req (r.claimed t) res w') :
    Edited p allow l since req (r.claimed t) res w' := by
  refine ⟨h.row, h.due, h.total, ?_, ⟨h.items.kept, fun reqs hreqs => ?_⟩, h.idle, h.clock⟩
  rotate_left
  · obtain ⟨hrows, gone, hins⟩ := h.items.replaced reqs hreqs
    exact ⟨hrows, gone, hins.rows, hins.nodup, hins.fresh⟩
  obtain ⟨u, hu⟩ := h.row
  have hkey : Keyed.key res.invoice = Keyed.key (r.claimed t) := by rw [hu]; rfl
  have hput := l.db.invoices.put_put hkey
  rw [h.db, ← hput]
  rfl

/-- CORRECT: an edit on its own. Either it has edited the draft that it has claimed, or it has failed
    with the claim behind it, or it has failed before and done nothing. -/
theorem edit_invoice_leaves (h : Stage p l none since w) :
    Leaves p allow (fun res w' => ∃ r t, Claimable l.db i req.versioning r ∧ r.business_id = b ∧
        EditChecked req.line_items ∧ Edited p allow l since req (r.claimed t) res w')
      (fun e w' => ((Calm allow → ClaimRefused l.db i req e) ∧ Stage p l none since w') ∨
        ∃ r t, Claimable l.db i req.versioning r ∧ EditChecked req.line_items ∧
          (Calm allow → Draws p allow → EditRefused allow (l.claimed p r t).db b i req e) ∧
          Stage p (l.claimed p r t) none since w') (edit_invoice i b req) w := by
  rw [edit_invoice_eq]
  refine .seq (.check_edit_items (fun hneg m => .inl ⟨fun _ => .inl ⟨hneg, m, rfl⟩, h⟩)
    fun hitems => ?_)
  refine .seq (.claim_draft h (fun r t w₁ hr h₁ => ?_) (fun w₁ hno h₁ => ?_)
    fun e w₁ hbad h₁ => .inl ⟨fun hcalm => ?_, h₁⟩)
  · refine .seq (.reject_if nofun fun _ => ?_)
    refine .imp (edit_draft_leaves h₁ hitems) (fun res w₂ ⟨r', hr', _, hedited⟩ => ?_)
      fun e w₂ ⟨hbad, h₂⟩ => .inr ⟨r, t, hr, hitems, hbad, h₂⟩
    obtain ⟨hb, rfl⟩ := hr.own.mp hr'
    exact ⟨r, t, hr, hb, hitems, hedited.of_claimed⟩
  · exact .seq (.reject_if (fun _ => .inl ⟨fun _ => .inr (.inl ⟨hno, _, rfl⟩), h₁⟩)
      fun hne => absurd rfl hne)
  · obtain ⟨hmax, rfl⟩ := hbad hcalm
    exact .inr (.inr ⟨hmax, rfl⟩)

/-! ### Reading it back -/

theorem get_invoice_leaves (h : Stage p l none since w) :
    Leaves p allow (fun res w' => l.db.own b i = some res.invoice ∧
        res.line_items.Perm (l.db.items i) ∧ Stage p l none since w')
      (fun e w' => (Calm allow → e = .NotFound ∧ l.db.own b i = none) ∧ Stage p l none since w')
      (get_invoice i b) w := by
  refine .seq (.query h (fun _ _ => rfl) (fun c e w₁ hc hf h₁ => ⟨fun hcalm => hcalm.never hc hf,
    h₁⟩) fun w₁ h₁ => ?_)
  refine .seq (.ok_or (fun hnone => ⟨fun _ => ⟨rfl, hnone⟩, h₁⟩) fun r hr => ?_)
  refine .seq (.sql_outside h₁ (fun now c e w₂ hc href h₂ => ⟨fun hcalm => ?_, h₂⟩)
    fun now c ws lines w₂ hc _ hrun h₂ => .pure ?_)
  · cases hcalm.refused hc href
  · cases hrun
    rw [Durable.auto_nil] at h₂
    exact ⟨hr, arrange_perm .., h₂⟩

end Payman
