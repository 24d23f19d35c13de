import Payman.Safety.Rules
import Payman.Safety.Statements

/-! The invoice requests keep their contract. -/

namespace Payman
open Schemes

variable {K : Setting} {T : Pid} {w : World}

/-- Process `T` has no open transaction. -/
def Idle (T : Pid) (w : World) : Prop := w.tx T = none

theorem check_transition_open {s : InvoiceState} (h : ¬s.can_transition_to .Open = false) :
    s = .Draft := by cases s <;> simp_all [InvoiceState.can_transition_to]

/-! ### Finalize and void -/

theorem finalize_invoice_keeps {i b : Uuid} {req : FinalizeInvoiceRequest} (htx : Idle T w) :
    Keeps K T (.call (.finalize_invoice i b req)) (fun _ => Idle T) (Idle T)
      (finalize_invoice i b req) w := by
  refine .seq (.transaction htx (fun _ h => h) fun w₁ _ htx₁ => ?_)
  refine .seq (.sql_within htx₁ (fun _ _ => trivial) fun c ws o w₂ _ htx₂ hrun => ?_)
  obtain ⟨rfl, hsel⟩ := Stmt.run_select_invoice hrun
  refine .seq (.fetch_one trivial fun r₀ ho => ?_)
  obtain ⟨hr₀, -⟩ := hsel r₀ ho
  refine .seq (.reject_if trivial fun hcan => ?_)
  have hdraft := check_transition_open hcan
  refine .seq (.sql_within htx₂ (fun _ _ => trivial) fun c' ws o' w₃ hn₃ htx₃ hrun' => ?_)
  refine .ok_or trivial fun r' ho' => ?_
  obtain ⟨r, hr, hb, hv, hmax, rfl⟩ := Stmt.run_update_state hrun' r' ho'
  refine ⟨_, htx₃, fun w₄ hn₄ => ⟨?_, fun w₅ hs => ?_⟩⟩
  · -- the row is locked since the UPDATE; that it was Draft is only known of the SELECT
    have hr₄ : w₄.db.invoice i = some r :=
      ((hn₄.held _ htx₃).invoice (by simp [← Db.id_of_invoice hr])).trans hr
    refine .finalize hr₄ hb hv hmax (hn₄.was _ (hn₃.was _ (.inl ⟨r₀, hr₀, hdraft⟩))) fun hK => ?_
    rw [show w₃.db = w₂.db from hn₃.alone hK nofun] at hr
    obtain rfl : r₀ = r := Option.some.inj (hr₀.symm.trans hr)
    exact hdraft
  · exact .seq (.spawn_dispatch rfl fun w₆ _ h => .pure (h.trans hs.tx))

theorem void_invoice_keeps {i b : Uuid} {req : VoidInvoiceRequest} (htx : Idle T w) :
    Keeps K T (.call (.void_invoice i b req)) (fun _ => Idle T) (Idle T)
      (void_invoice i b req) w := by
  refine .transaction htx (fun _ h => h) fun w₁ _ htx₁ => ?_
  refine .seq (.sql_within htx₁ (fun _ _ => trivial) fun c ws o w₂ _ htx₂ hrun => ?_)
  obtain ⟨rfl, hsel⟩ := Stmt.run_select_state_at_version hrun
  refine .seq (.ok_or trivial fun s ho => ?_)
  obtain ⟨r₀, hr₀, -, hv₀, rfl⟩ := hsel s ho
  refine .seq (.reject_if trivial fun hcan => ?_)
  have hdraft := check_transition_open hcan
  refine .seq (.sql_within htx₂ (fun _ _ => trivial) fun c' ws o' w₃ hn₃ htx₃ hrun' => ?_)
  refine .ok_or trivial fun r' ho' => ?_
  obtain ⟨r, hr, hb, hv, hmax, rfl⟩ := Stmt.run_update_state hrun' r' ho'
  refine ⟨_, htx₃, fun w₄ hn₄ => ⟨?_, fun w₅ hs => hs.tx⟩⟩
  have hr₄ : w₄.db.invoice i = some r :=
    ((hn₄.held _ htx₃).invoice (by simp [← Db.id_of_invoice hr])).trans hr
  have hwas : Was w₂.history w₂.db fun d => ∃ r₀, d.invoice i = some r₀ ∧ r₀.state = .Draft ∧
      r₀.versioning = r.versioning := .inl ⟨r₀, hr₀, hdraft, hv₀.trans hv.symm⟩
  refine .void hr₄ hb hv hmax (hn₄.was _ (hn₃.was _ hwas)) fun hK => ?_
  rw [show w₃.db = w₂.db from hn₃.alone hK nofun] at hr
  obtain rfl : r₀ = r := Option.some.inj (hr₀.symm.trans hr)
  exact hdraft

/-! ### Line items -/

theorem Inserted.nil {db : Db} {gone : List Uuid} {i : Uuid} : Inserted db gone i [] [] :=
  ⟨.nil, List.nodup_nil, nofun⟩

theorem Inserted.held {db db' : Db} {gone : List Uuid} {i : Uuid}
    {reqs : List CreateLineItemRequest} {lines : List LineItem} {ws : List Write}
    (h : Inserted db gone i reqs lines) (hheld : Held ws db db')
    (hws : ∀ x ∈ lines, LockKey.line_item x.id ∈ lockSet ws) : Inserted db' gone i reqs lines :=
  ⟨h.rows, h.nodup, fun x hx y hy => h.fresh x hx y (hheld.line_item (hws x hx) ▸ hy)⟩

theorem Inserted.concat {db : Db} {gone : List Uuid} {i : Uuid}
    {reqs : List CreateLineItemRequest} {lines : List LineItem} {item : CreateLineItemRequest}
    {x : LineItem} (h : Inserted db gone i reqs lines) (hx : x.invoice_id = i ∧
      x.description = trim item.description ∧ x.quantity = item.quantity ∧
      x.unit_amount_cents = item.unit_amount_cents) (hnew : x.id ∉ lines.map (·.id))
    (hfresh : ∀ y, db.line_item x.id = some y → x.id ∈ gone) :
    Inserted db gone i (reqs ++ [item]) (lines ++ [x]) where
  rows := List.rel_append h.rows (.cons hx .nil)
  nodup := by
    rw [List.map_append, List.nodup_append]
    refine ⟨h.nodup, List.nodup_singleton _, ?_⟩
    rintro u hu v hv rfl
    simp only [List.map_cons, List.map_nil, List.mem_singleton] at hv
    exact hnew (hv ▸ hu)
  fresh := fun y hy => by
    rcases List.mem_append.mp hy with hy | hy
    · exact h.fresh y hy
    · exact List.mem_singleton.mp hy ▸ hfresh

theorem mem_lockSet_put_line_items {lines : List LineItem} {x : LineItem} (hx : x ∈ lines) :
    LockKey.line_item x.id ∈ lockSet (lines.map Write.put_line_item) :=
  List.mem_flatMap.mpr ⟨_, List.mem_map_of_mem hx, by simp⟩

/-- The INSERT loop: on top of the writes `base`, under which the ids outside `gone` are as
    committed, it adds one fresh row an item. `P` is what the loop's surroundings carry along. -/
theorem insert_line_items_keeps {j : Job} {t : DateTime} (base : List Write) {i : Uuid}
    (gone : List Uuid) {check : CreateLineItemRequest → App Unit} {P : World → Prop}
    (hcheck : ∀ item {ok : Unit → World → Prop} {w}, ok () w →
      Keeps K T j ok (fun _ => True) (check item) w)
    (hP : ∀ {d q u w w' ws}, Next K T j (.sql (.insert_line_item i d q u)) w w' →
      w.tx T = some ⟨t, base ++ ws⟩ → P w → P w')
    (hbase : ∀ w u, P w → (applyAll w.db base).line_item u = none →
      ∀ y, w.db.line_item u = some y → u ∈ gone) :
    ∀ (reqs reqs₀ : List CreateLineItemRequest) (lines₀ : List LineItem) (w : World),
      w.tx T = some ⟨t, base ++ lines₀.map .put_line_item⟩ → P w →
      Inserted w.db gone i reqs₀ lines₀ →
      Keeps K T j (fun lines w' =>
          w'.tx T = some ⟨t, base ++ (lines₀ ++ lines).map .put_line_item⟩ ∧ P w' ∧
            Inserted w'.db gone i (reqs₀ ++ reqs) (lines₀ ++ lines)) (fun _ => True)
        (insert_line_items check i reqs) w
  | [], reqs₀, lines₀, w, htx, hPw, hins => by
    refine .pure ?_
    simp only [List.append_nil]
    exact ⟨htx, hPw, hins⟩
  | item :: reqs, reqs₀, lines₀, w, htx, hPw, hins => by
    refine .seq (hcheck item ?_)
    refine .seq (.sql_within htx (fun _ _ => trivial)
      fun c ws (x : LineItem) w₁ hn₁ htx₁ hrun => ?_)
    obtain ⟨hnone, hx, rfl⟩ := Stmt.run_insert_line_item hrun
    obtain ⟨hid, hrow⟩ : x.id = c.uuid ∧ x.invoice_id = i ∧ x.description = trim item.description ∧
      x.quantity = item.quantity ∧ x.unit_amount_cents = item.unit_amount_cents := by simp [hx]
    have hins₁ : Inserted w₁.db gone i reqs₀ lines₀ := hins.held (hn₁.held _ htx) fun x hx => by
      rw [lockSet_append]
      exact List.mem_append_right _ (mem_lockSet_put_line_items hx)
    have hP₁ := hP hn₁ htx hPw
    rw [applyAll_append, Db.applyAll_put_line_items, ← hid] at hnone
    obtain ⟨hnone, hnew⟩ := (Table.find_foldl_put_eq_none ..).mp hnone
    have hins₂ := hins₁.concat hrow hnew (hbase w₁ x.id hP₁ hnone)
    refine .bind (insert_line_items_keeps base gone hcheck hP hbase reqs _ _ w₁ ?_ hP₁ hins₂)
      fun lines w₂ h => .pure ?_
    · simpa [List.append_assoc] using htx₁
    · simpa [List.append_assoc] using h

theorem check_line_item_keeps {j : Job} {item : CreateLineItemRequest} {err : World → Prop}
    {ok : Unit → World → Prop} (h : ok () w) (herr : err w) :
    Keeps K T j ok err (check_line_item item) w :=
  .seq (.reject_if herr fun _ => .reject_if herr fun _ => h)

theorem check_due_date_keeps {j : Job} {d : NaiveDate} {err : World → Prop}
    {ok : Unit → World → Prop} (herr : ∀ w', w'.tx T = w.tx T → err w')
    (h : ∀ w', Next K T j .utc_now w w' → w'.tx T = w.tx T → ok () w') :
    Keeps K T j ok err (check_due_date d) w :=
  .seq (.utc_now fun _ w' hn htx => .reject_if (herr w' htx) fun _ => h w' hn htx)

/-! ### Create -/

theorem create_invoice_keeps {b : Uuid} {req : CreateInvoiceRequest} (htx : Idle T w) :
    Keeps K T (.call (.create_invoice b req)) (fun _ => Idle T) (Idle T)
      (Handlers.create_invoice b req) w := by
  refine .seq (.reject_if htx fun _ => ?_)
  refine .seq (.sql_read htx (fun _ _ h => h) (fun _ _ _ _ _ h => by cases h; rfl)
    fun c o w₁ _ htx₁ _ => ?_)
  refine .seq (.ok_or htx₁ fun _ _ => .seq (.reject_if htx₁ fun _ => ?_))
  refine .seq (check_due_date_keeps (fun w' h => h.trans htx₁) fun w₂ _ htx₂ => ?_)
  refine .transaction (htx₂.trans htx₁) (fun _ h => h) fun w₃ _ htx₃ => ?_
  refine .seq (.new_v4 fun i w₄ _ htx₄ => ?_)
  rw [htx₃] at htx₄
  refine .seq (.sql_within htx₄ (fun _ _ => trivial) fun c ws r w₅ _ htx₅ hrun => ?_)
  obtain ⟨hfresh, rfl, rfl⟩ := Stmt.run_insert_invoice hrun
  refine .bind (insert_line_items_keeps [_] [] (P := fun w' => w'.db.invoice i = none)
    (fun _ _ _ h => check_line_item_keeps h trivial) ?_ ?_ _ [] [] w₅ htx₅ hfresh .nil)
    fun lines w₆ h => .pure ?_
  · intro d q u w w' ws hn htx hfresh
    exact ((hn.held _ htx).invoice (by simp)).trans hfresh
  · intro w u _ hnone y hy
    exact absurd (hnone.symm.trans hy) nofun
  · obtain ⟨htx₆, hfresh₆, hins⟩ := h
    refine ⟨_, htx₆, fun w₇ hn => ⟨.create ?_ ?_, fun _ hs => hs.tx⟩⟩
    · exact ((hn.held _ htx₆).invoice (by simp)).trans hfresh₆
    · refine hins.held (hn.held _ htx₆) fun x hx => ?_
      exact List.mem_append_right _ (mem_lockSet_put_line_items hx)

/-! ### Edit -/

/-- After the state check: the invoice's row, which is locked once a due date has been written, and
    the writes `pre` made so far. -/
structure Editing (K : Setting) (i b : Uuid) (due_date : Option NaiveDate) (t : DateTime)
    (pre : List Write) (r : Invoice) (db : Db) : Prop where
  row : db.invoice i = some r
  owner : r.business_id = b
  draft : K.drafts → r.state = .Draft
  pre : (pre = [] ∧ due_date = none) ∨
    ∃ d, due_date = some d ∧ pre = [.put_invoice { r with due_date := d, updated_at := t }]

/-- Others may change the row before it is locked, but neither its owner nor, if the setting says
    so, its state. -/
theorem Editing.next {i b : Uuid} {req : EditInvoiceRequest} {due_date : Option NaiveDate}
    {t : DateTime} {pre ws : List Write} {r : Invoice} {e : Eff} {w' : World}
    (h : Editing K i b due_date t pre r w.db)
    (hn : Next K T (.call (.edit_invoice i b req)) e w w') (htx : w.tx T = some ⟨t, pre ++ ws⟩)
    (he : rewriting (.call (.edit_invoice i b req)) (some e) = some i) :
    ∃ r', Editing K i b due_date t pre r' w'.db := by
  obtain ⟨hr, hb, hdraft, ⟨rfl, hd⟩ | ⟨d, hd, rfl⟩⟩ := h
  · obtain ⟨r', hr', hb'⟩ := hn.grows.invoice i r hr
    refine ⟨r', hr', hb'.trans hb, fun hK => ?_, .inl ⟨rfl, hd⟩⟩
    obtain ⟨r'', hr'', hdraft'⟩ := hn.drafts hK i he r hr (hdraft hK)
    exact Option.some.inj (hr'.symm.trans hr'') ▸ hdraft'
  · exact ⟨r, ((hn.held _ htx).invoice (by simp [← Db.id_of_invoice hr])).trans hr, hb, hdraft,
      .inr ⟨d, hd, rfl⟩⟩

theorem set_due_date_keeps {i b : Uuid} {req : EditInvoiceRequest} {t : DateTime} {r : Invoice}
    {due_date : Option NaiveDate} (htx : w.tx T = some ⟨t, []⟩)
    (h : Editing K i b none t [] r w.db) :
    Keeps K T (.call (.edit_invoice i b req)) (fun _ w' => ∃ pre r', w'.tx T = some ⟨t, pre⟩ ∧
      Editing K i b due_date t pre r' w'.db) (fun _ => True) (set_due_date i due_date) w := by
  cases due_date with
  | none => exact .pure ⟨[], r, htx, h⟩
  | some d =>
    refine .seq (check_due_date_keeps (fun _ _ => trivial) fun w₁ hn₁ htx₁ => ?_)
    rw [htx] at htx₁
    obtain ⟨r₁, h₁⟩ := h.next hn₁ (show w.tx T = some ⟨t, [] ++ []⟩ from htx) rfl
    refine .seq (.sql_within htx₁ (fun _ _ => trivial) fun c ws n w₂ hn₂ htx₂ hrun => .pure ?_)
    obtain ⟨r₂, hr, hb, hdraft, -⟩ := h₁.next hn₂ (show w₁.tx T = some ⟨t, [] ++ []⟩ from htx₁) rfl
    obtain rfl := Stmt.run_update_due_date hrun r₂ hr
    exact ⟨_, r₂, htx₂, hr, hb, hdraft, .inr ⟨d, rfl, rfl⟩⟩

/-- After the DELETE: the items `gone` are deleted and, if the setting says so, there are no
    others. -/
structure Replacing (K : Setting) (i : Uuid) (gone : List Uuid) (db : Db) : Prop where
  deleted : ∀ l ∈ gone, ∃ y, db.line_item l = some y ∧ y.invoice_id = i
  scan : K.scans → ∀ x ∈ db.items i, x.id ∈ gone

theorem mem_lockSet_delete_line_items {gone : List Uuid} {l : Uuid} (hl : l ∈ gone) :
    LockKey.line_item l ∈ lockSet (gone.map Write.delete_line_item) :=
  List.mem_flatMap.mpr ⟨_, List.mem_map_of_mem hl, by simp⟩

theorem Replacing.held {i : Uuid} {gone : List Uuid} {db db' : Db} {ws : List Write}
    (h : Replacing K i gone db) (hheld : Held ws db db')
    (hws : ∀ l ∈ gone, LockKey.line_item l ∈ lockSet ws)
    (hitems : K.scans → db'.items i = db.items i) : Replacing K i gone db' where
  deleted := fun l hl => by rw [hheld.line_item (hws l hl)]; exact h.deleted l hl
  scan := fun hK x hx => h.scan hK x (hitems hK ▸ hx)

/-- The statements before the DELETE touch no line item. -/
theorem Editing.line_items {i b : Uuid} {due_date : Option NaiveDate} {t : DateTime}
    {pre : List Write} {r : Invoice} {db : Db} (h : Editing K i b due_date t pre r db) :
    (applyAll db pre).invoice_line_items = db.invoice_line_items := by
  obtain ⟨-, -, -, ⟨rfl, -⟩ | ⟨d, -, rfl⟩⟩ := h <;> rfl

theorem delete_line_items_keeps {i b : Uuid} {req : EditInvoiceRequest} {t : DateTime}
    {due_date : Option NaiveDate} {pre : List Write} {r : Invoice} (htx : w.tx T = some ⟨t, pre⟩)
    (h : Editing K i b due_date t pre r w.db) :
    Keeps K T (.call (.edit_invoice i b req)) (fun _ w' => ∃ r' gone,
      w'.tx T = some ⟨t, pre ++ gone.map .delete_line_item⟩ ∧
      Editing K i b due_date t pre r' w'.db ∧ Replacing K i gone w'.db)
      (fun _ => True) (delete_line_items i) w := by
  have hpre : w.tx T = some ⟨t, pre ++ []⟩ := by rw [List.append_nil]; exact htx
  refine .seq (.sql_within htx (fun _ _ => trivial) fun c ws scanned w₁ hn₁ htx₁ hrun => ?_)
  obtain ⟨r₁, h₁⟩ := h.next hn₁ hpre rfl
  obtain ⟨rfl, hscan⟩ := Stmt.run_scan_line_items hrun
  rw [h₁.line_items] at hscan
  refine .sql_within htx₁ (fun _ _ => trivial) fun c ws n w₂ hn₂ htx₂ hrun => ?_
  obtain ⟨r₂, h₂⟩ := h₁.next hn₂ htx₁ rfl
  obtain rfl := Stmt.run_delete_line_items hrun
  rw [List.append_nil] at htx₂
  refine ⟨r₂, _, htx₂, h₂, fun l hl => ?_, fun hK x hx => ?_⟩
  · obtain ⟨-, y, hy, hi⟩ := Stmt.mem_still_there.mp hl
    rw [Db.line_item, h₂.line_items] at hy
    exact ⟨y, hy, hi⟩
  · -- nobody has committed items of this invoice since the scan
    obtain ⟨hx₂, hi⟩ := List.mem_filter.mp hx
    rw [hn₂.scans hK i rfl] at hx
    refine Stmt.mem_still_there.mpr
      ⟨hscan x (List.mem_filter.mp hx).1 (of_decide_eq_true hi), x, ?_, of_decide_eq_true hi⟩
    rw [Db.line_item, h₂.line_items]
    exact Table.find_of_mem hx₂

/-- The writes `ws` are an effect of job `j` on every database that agrees with `db` on what they
    lock, once `T` has committed before. -/
def Firm (K : Setting) (T : Pid) (j : Job) (ws : List Write) (db : Db) : Prop :=
  ∀ db' past, (∃ c ∈ past, c.pid = T) → Held ws db db' → Effect K T past db' j ws

theorem Firm.next {j : Job} {ws : List Write} {e : Eff} {t : DateTime} {w' : World}
    (h : Firm K T j ws w.db) (hn : Next K T j e w w') (htx : w.tx T = some ⟨t, ws⟩) :
    Firm K T j ws w'.db := fun db'' past hclaimed hheld =>
  h db'' past hclaimed ((hn.held _ htx).trans hheld)

/-- An edit of the due date alone, or of nothing. -/
theorem Editing.firm {i b : Uuid} {req : EditInvoiceRequest} {t : DateTime} {pre : List Write}
    {r : Invoice} {db : Db} (h : Editing K i b req.due_date t pre r db)
    (hitems : req.line_items = none) : Firm K T (.call (.edit_invoice i b req)) pre db := by
  intro db' past hclaimed hheld
  obtain ⟨hr, hb, hdraft, ⟨rfl, -⟩ | ⟨d, hd, rfl⟩⟩ := h
  · exact .edit_nothing
  · exact .edit_due_date ((hheld.invoice (by simp [← Db.id_of_invoice hr])).trans hr) hb hdraft hd
      hitems hclaimed

/-- An edit that replaces the items, once the total is written and the row thereby locked. -/
theorem Editing.firm_items {i b : Uuid} {req : EditInvoiceRequest} {t : DateTime}
    {pre : List Write} {r : Invoice} {db : Db} {items : List CreateLineItemRequest}
    {gone : List Uuid} {lines : List LineItem} (h : Editing K i b req.due_date t pre r db)
    (hitems : req.line_items = some items) (hgone : Replacing K i gone db)
    (hins : Inserted db gone i items lines) :
    ∃ r', (applyAll db pre).invoice i = some r' ∧ Firm K T (.call (.edit_invoice i b req))
      (pre ++ gone.map .delete_line_item ++ lines.map .put_line_item ++
        [.put_invoice { r' with total_cents := total_of items, updated_at := t }]) db := by
  obtain ⟨hr, hb, hdraft, hpre⟩ := h
  have hid := Db.id_of_invoice hr
  obtain ⟨r', hr', hid', hpre'⟩ : ∃ r', (applyAll db pre).invoice i = some r' ∧ r'.id = i ∧
      ((pre = [] ∧ r' = r) ∨
        (pre = [.put_invoice r'] ∧ ∃ d, r' = { r with due_date := d, updated_at := t })) := by
    rcases hpre with ⟨rfl, -⟩ | ⟨d, -, rfl⟩
    · exact ⟨r, hr, hid, .inl ⟨rfl, rfl⟩⟩
    · refine ⟨{ r with due_date := d, updated_at := t }, ?_, hid, .inr ⟨rfl, d, rfl⟩⟩
      exact (Table.find_put ..).trans (if_pos hid)
  refine ⟨r', hr', fun db' past hclaimed hheld => ?_⟩
  have hlock : LockKey.invoice i ∈ lockSet (pre ++ gone.map .delete_line_item ++
      lines.map .put_line_item ++
      [Write.put_invoice { r' with total_cents := total_of items, updated_at := t }]) := by
    simp [hid']
  have hgone' : Replacing K i gone db' := by
    refine hgone.held hheld (fun l hl => ?_) fun _ => hheld.items i hlock
    have := mem_lockSet_delete_line_items hl
    simp only [lockSet_append, List.mem_append, this, true_or, or_true]
  refine .edit_items ((hheld.invoice hlock).trans hr) hb hdraft hpre' hitems hgone'.deleted
    hgone'.scan (hins.held hheld fun x hx => ?_) hclaimed
  have := mem_lockSet_put_line_items hx
  simp only [lockSet_append, List.mem_append, this, true_or, or_true]

theorem replace_line_items_keeps {i b : Uuid} {req : EditInvoiceRequest} {t : DateTime}
    {pre : List Write} {r : Invoice} (htx : w.tx T = some ⟨t, pre⟩)
    (h : Editing K i b req.due_date t pre r w.db) :
    Keeps K T (.call (.edit_invoice i b req)) (fun _ w' => ∃ ws, w'.tx T = some ⟨t, ws⟩ ∧
      Firm K T (.call (.edit_invoice i b req)) ws w'.db) (fun _ => True)
      (replace_line_items i req.line_items) w := by
  cases hitems : req.line_items with
  | none =>
    refine .sql_within htx (fun _ _ => trivial) fun c ws r₁ w₁ hn₁ htx₁ hrun => ?_
    cases hrun
    rw [List.append_nil] at htx₁
    exact ⟨pre, htx₁, (h.firm hitems).next hn₁ htx⟩
  | some items =>
    refine .seq (.reject_if trivial fun _ => ?_)
    refine .bind (delete_line_items_keeps htx h) fun _ w₁ ⟨r₁, gone, htx₁, h₁, hgone₁⟩ => ?_
    refine .bind (insert_line_items_keeps (t := t) (pre ++ gone.map .delete_line_item) gone
      (P := fun w' => (∃ r', Editing K i b req.due_date t pre r' w'.db) ∧ Replacing K i gone w'.db)
      (fun _ _ _ h => .pure h) ?_ ?_ items [] [] w₁ ?_ ⟨⟨r₁, h₁⟩, hgone₁⟩ .nil)
      fun lines w₂ ⟨htx₂, ⟨⟨r₂, h₂⟩, hgone₂⟩, hins₂⟩ => ?_
    · rintro d q u w w' ws hn htx ⟨⟨r', h'⟩, hgone⟩
      refine ⟨h'.next hn (by rw [htx, List.append_assoc]) rfl, hgone.held (hn.held _ htx)
        (fun l hl => ?_) fun hK => hn.scans hK i rfl⟩
      have := mem_lockSet_delete_line_items hl
      simp only [lockSet_append, List.mem_append, this, true_or, or_true]
    · rintro w u ⟨⟨r', h'⟩, -⟩ hnone y hy
      rw [applyAll_append, Db.applyAll_delete_line_items, h'.line_items] at hnone
      by_contra hu
      rw [Db.line_item, Table.find_foldl_erase, if_neg hu] at hnone
      exact absurd (hnone.symm.trans hy) nofun
    · rw [htx₁, List.map_nil, List.append_nil]
    · simp only [List.nil_append] at htx₂ hins₂
      refine .seq (.sql_within htx₂ (fun _ _ => trivial) fun c ws n w₃ hn₃ htx₃ hrun => .pure ?_)
      have hheld := hn₃.held _ htx₂
      obtain ⟨r₃, h₃⟩ := h₂.next hn₃ (by rw [htx₂, List.append_assoc]) rfl
      have hgone₃ : Replacing K i gone w₃.db := by
        refine hgone₂.held hheld (fun l hl => ?_) fun hK => hn₃.scans hK i rfl
        have := mem_lockSet_delete_line_items hl
        simp only [lockSet_append, List.mem_append, this, true_or, or_true]
      have hins₃ : Inserted w₃.db gone i items lines := by
        refine hins₂.held hheld fun x hx => ?_
        have := mem_lockSet_put_line_items hx
        simp only [lockSet_append, List.mem_append, this, or_true]
      obtain ⟨r', hr', hfirm⟩ := h₃.firm_items hitems hgone₃ hins₃
      have hview : (applyAll w₃.db (pre ++ gone.map .delete_line_item ++
          lines.map .put_line_item)).invoice i = some r' := by
        rw [applyAll_append, Db.applyAll_put_line_items, applyAll_append,
          Db.applyAll_delete_line_items]
        exact hr'
      obtain rfl := Stmt.run_update_total hrun r' hview
      exact ⟨_, htx₃, hfirm⟩

/-! The checks at the start let only well-formed items through. -/

theorem check_line_items_keeps {j : Job} {ok : Unit → World → Prop} (htx : Idle T w) :
    ∀ (items : List CreateLineItemRequest),
      ((∀ item ∈ items, 0 < item.quantity ∧ 0 < item.unit_amount_cents) → ok () w) →
      Keeps K T j ok (Idle T) (check_line_items items) w
  | [], h => .pure (h nofun)
  | item :: items, h => by
    refine .seq (.seq (.reject_if htx fun hq => .reject_if htx fun hu => ?_))
    refine check_line_items_keeps htx items fun hall => h fun x hx => ?_
    rcases List.mem_cons.mp hx with rfl | hx
    · exact ⟨Int32.not_le.mp hq, Int64.not_le.mp hu⟩
    · exact hall x hx

theorem check_edit_items_keeps {j : Job} {ok : Unit → World → Prop} (htx : Idle T w)
    {items : Option (List CreateLineItemRequest)} (h : EditChecked items → ok () w) :
    Keeps K T j ok (Idle T) (check_edit_items items) w := by
  cases items with
  | none => exact .pure (h nofun)
  | some l =>
    refine .seq (.reject_if htx fun hne => check_line_items_keeps htx l fun hall => h ?_)
    intro l' hl'
    obtain rfl := Option.some.inj hl'
    exact ⟨hne, hall⟩

theorem edit_invoice_keeps {i b : Uuid} {req : EditInvoiceRequest} (htx : Idle T w)
    (hstart : K.alone → K.start w.db) :
    Keeps K T (.call (.edit_invoice i b req)) (fun _ => Idle T) (Idle T)
      (edit_invoice i b req) w := by
  refine .seq (check_edit_items_keeps htx fun hitems => ?_)
  have hclaim : Keeps K T (.call (.edit_invoice i b req))
      (fun (n : ℕ) w' => Idle T w' ∧ (n ≠ 0 → ∃ c ∈ w'.history, c.pid = T)) (Idle T)
      (sql (.claim_draft i req.versioning)) w := by
    refine .sql_outside htx (fun _ _ h => h) fun c ws n w₁ hn₁ hrun => ?_
    rcases Stmt.run_claim_draft hrun with ⟨h0, rfl⟩ | ⟨r, hr, hdraft, hv, hmax, rfl⟩
    · exact ⟨fun _ h => ⟨h, fun hne => absurd h0 hne⟩, fun hne => absurd rfl hne⟩
    · refine ⟨nofun, fun _ => ⟨.claim_draft hr hdraft hv hmax hitems fun hK => ?_,
        fun w₂ hs => ⟨hs.tx, fun _ => ⟨_, hs.history ▸ List.mem_cons_self .., rfl⟩⟩⟩⟩
      rw [show w₁.db = w.db from hn₁.alone hK nofun]
      exact hstart hK
  refine .bind hclaim fun n w₂ ⟨htx₂, hclaimed₂⟩ => .seq (.reject_if htx₂ fun hn => ?_)
  · obtain ⟨first, hfirst, hpid⟩ := hclaimed₂ hn
    refine .transaction htx₂ (fun _ h => h) fun w₃ hn₃ htx₃ => ?_
    refine .seq (.sql_within htx₃ (fun _ _ => trivial) fun c ws o w₄ hn₄ htx₄ hrun => ?_)
    have hclaimed₄ : ∃ c ∈ w₄.history, c.pid = T :=
      ⟨first, hn₄.history _ (hn₃.history _ hfirst), hpid⟩
    obtain ⟨rfl, hsel⟩ := Stmt.run_select_invoice_state hrun
    refine .seq (.ok_or trivial fun s ho => .seq (.reject_if trivial fun hdraft => ?_))
    obtain ⟨r, hr, hb, rfl⟩ := hsel s ho
    have h : Editing K i b none w₃.now [] r w₄.db :=
      ⟨hr, hb, fun _ => not_not.mp hdraft, .inl ⟨rfl, rfl⟩⟩
    refine .bind ((set_due_date_keeps htx₄ h).committed hclaimed₄)
      fun _ w₅ ⟨⟨pre, r₅, htx₅, h₅⟩, hclaimed₅⟩ => ?_
    refine .bind ((replace_line_items_keeps htx₅ h₅).committed hclaimed₅)
      fun _ w₆ ⟨⟨ws, htx₆, hfirm⟩, c₆, hc₆, hT⟩ => ?_
    refine .seq (.sql_within htx₆ (fun _ _ => trivial) fun c ws' o w₇ hn₇ htx₇ hrun => ?_)
    cases hrun
    rw [List.append_nil] at htx₇
    refine .seq (.fetch_one trivial fun _ _ => .pure ⟨_, htx₇, fun w₈ hn₈ => ?_⟩)
    have hclaimed₈ : ∃ c ∈ w₈.history, c.pid = T := ⟨c₆, hn₈.history _ (hn₇.history _ hc₆), hT⟩
    exact ⟨hfirm.next hn₇ htx₆ _ _ hclaimed₈ (hn₈.held _ htx₇), fun _ hs => hs.tx⟩


/-! ### Queries -/

theorem get_invoice_keeps {i b : Uuid} {j : Job} (htx : Idle T w) :
    Keeps K T j (fun _ => Idle T) (Idle T) (get_invoice i b) w := by
  refine .seq (.sql_read htx (fun _ _ h => h) (fun _ _ _ _ _ h => by cases h; rfl)
    fun _ _ w₁ _ htx₁ _ => .seq (.ok_or htx₁ fun _ _ => ?_))
  exact .seq (.sql_read htx₁ (fun _ _ h => h) (fun _ _ _ _ _ h => by cases h; rfl)
    fun _ _ _ _ htx₂ _ => .pure htx₂)

theorem list_invoices_keeps {b : Uuid} {query : ListInvoicesQuery} {j : Job} (htx : Idle T w) :
    Keeps K T j (fun _ => Idle T) (Idle T) (list_invoices b query) w :=
  .sql_read htx (fun _ _ h => h) (fun _ _ _ _ _ h => by cases h; rfl) fun _ _ _ _ htx₁ _ => htx₁

end Payman
