import Payman.Claims.Drafts
import Payman.Claims.Versions

/-! What an edit changes: what it was asked to when it succeeds, and the version when it fails late.

    The draft is claimed by an UPDATE of its own, before the owner, the due date and the total are
    looked at. Whatever refuses the request after that leaves the claim behind. -/

namespace Payman
open Schemes

attribute [local irreducible] trim

variable {p : Pid} {w : World} {b i : Uuid} {req : EditInvoiceRequest}

/-! ### Failing -/

/-- The claim of the draft succeeds. -/
def ClaimStands (db : Db) (i : Uuid) (req : EditInvoiceRequest) (cs : List Choice) : Prop :=
  EditChecked req.line_items ∧ (∃ r, Claimable db i req.versioning r) ∧
    ∃ c ∈ cs.head?, c.fail = false

theorem check_line_items_eq : ∀ {items : List CreateLineItemRequest},
    (∀ item ∈ items, item.Positive) → check_line_items items = pure ()
  | [], _ => rfl
  | item :: items, h => by
    obtain ⟨⟨hq, hu⟩, hall⟩ := List.forall_mem_cons.mp h
    rw [check_line_items, check_line_item, reject_if, reject_if, if_neg (Int32.not_le.mpr hq),
      if_neg (Int64.not_le.mpr hu), check_line_items_eq hall]
    rfl

theorem check_edit_items_eq {items : Option (List CreateLineItemRequest)} (h : EditChecked items) :
    check_edit_items items = pure () := by
  cases items with
  | none => rfl
  | some reqs =>
    obtain ⟨hne, hpos⟩ := h reqs rfl
    rw [check_edit_items, reject_if, if_neg hne, check_line_items_eq hpos]
    rfl

/-- The claim is the first operation. -/
theorem edit_invoice_claims (h : EditChecked req.line_items) : edit_invoice i b req = (do
    let rows_affected : ℕ ← sql (.claim_draft i req.versioning)
    reject_if (rows_affected = 0) (.Conflict "invoice is being processed, try later!")
    edit_draft i b req) := by
  rw [edit_invoice_eq, check_edit_items_eq h]
  rfl

theorem claimed_ne {r : Invoice} (h : r.versioning ≠ Int32.maxValue) (t : DateTime) :
    r.claimed t ≠ r := fun heq => by
  have hv := congrArg (·.versioning.toInt) heq
  have hsucc := toInt_versioning_succ h
  simp only [Invoice.claimed] at hv
  omega

/-- A failed edit leaves its claim behind, if that was successful. -/
theorem edit_failed_claimed {cs : List Choice} {w' : World} {e : AppError} (htx : w.tx p = none)
    (hclaim : ClaimStands w.db i req cs)
    (hrun : (edit_invoice i b req).run.run (World.exec p) cs w = some (w', .error e)) :
    ∃ r t, Claimable w.db i req.versioning r ∧ w'.durable = w.durable.claimed p r t := by
  obtain ⟨hitems, ⟨r, hr⟩, c, hc, hf⟩ := hclaim
  rw [edit_invoice_claims hitems] at hrun
  obtain ⟨c', cs', w₁, n, rfl, hx, hrest⟩ := run_sql_bind hrun
  cases hc
  have hfirst : Leaves p (fun c' _ => c' = c) (fun (n : ℕ) w₁ => n = 1 ∧
      ∃ r t, Claimable w.db i req.versioning r ∧ Stage p (w.durable.claimed p r t) none w.now w₁)
      (fun _ _ => False) (sql (.claim_draft i req.versioning)) w := by
    refine .claim_draft (World.staged htx) (fun r t w₁ hr h₁ => ⟨rfl, r, t, hr, h₁⟩)
      (fun w₁ hno _ => absurd ⟨hr.version, hr.draft⟩ (hno r hr.row)) fun e w₁ hbad _ => ?_
    obtain ⟨⟨r', hr', -, -, hmax⟩, -⟩ := hbad fun c' _ hc' => hc' ▸ hf
    exact hr.max (Option.some.inj (hr.row.symm.trans hr') ▸ hmax)
  have hstage := hfirst c w₁ n rfl hx
  rcases hrest with ⟨n, rfl, hrest⟩ | ⟨e, rfl, -⟩
  · obtain ⟨rfl, r, t, hr, h₁⟩ := hstage
    obtain ⟨-, h'⟩ := Leaves.of_run (edit_draft_leaves h₁ hitems) Prog.along_anyhow hrest
    exact ⟨r, t, hr, h'.durable⟩
  · exact hstage.elim

/-- CORRECT (failing cleanly): an edit on its own that fails has changed nothing exactly if it has
    not claimed the draft. -/
theorem edit_fails_cleanly_iff (htx : w.tx p = none) {cs : List Choice} {w' : World} {e : AppError}
    (hrun : (edit_invoice i b req).run.run (World.exec p) cs w = some (w', .error e)) :
    w'.db = w.db ↔ ¬ClaimStands w.db i req cs := by
  constructor
  · intro hsame hclaim
    obtain ⟨r, t, hr, hdur⟩ := edit_failed_claimed htx hclaim hrun
    have hid : r.id = i := Db.id_of_invoice hr.row
    have hrow : w'.db.invoice i = some (r.claimed t) := by
      rw [show w'.db = (w.durable.claimed p r t).db from congrArg Durable.db hdur]
      exact (Table.find_put ..).trans (if_pos hid)
    exact claimed_ne hr.max t (Option.some.inj (hrow.symm.trans (hsame ▸ hr.row)))
  · intro hclaim
    rcases Leaves.of_run (edit_invoice_leaves (World.staged htx)) Prog.along_anyhow hrun with
      ⟨-, h'⟩ | ⟨r, t, hr, hitems, -, -⟩
    · exact h'.db
    · rw [edit_invoice_claims hitems] at hrun
      obtain ⟨c, cs', w₁, n, rfl, hx, hrest⟩ := run_sql_bind hrun
      cases hf : c.fail with
      | false => exact absurd ⟨hitems, ⟨r, hr⟩, c, rfl, hf⟩ hclaim
      | true =>
        have hx : some (w.elapse c.elapsed, .error .Connection) = some (w₁, n) := by
          rw [← hx]
          exact (if_pos hf).symm
        cases hx
        obtain ⟨x, hno, -⟩ | ⟨e, -, rfl, -⟩ := hrest
        · cases hno
        · rfl

/-- A stale edit. -/
theorem edit_fails_cleanly_iff_stale : ∃ σ ∈ Sys.initial.steps Sys.issued,
    ∃ x ∈ (edit_invoice 20 1 ⟨some 5, none, 7⟩).run.run (World.exec (.call 9)) [Sys.calm] σ.world,
    x.2.toOption.isNone ∧ x.1.db = σ.db := by
  obtain ⟨σ, hσ, htx, ⟨r, hr, hv⟩, ⟨w', answer⟩, hx, herr⟩ : ∃ σ ∈ Sys.initial.steps Sys.issued,
    (σ.world.tx (.call 9)).isNone ∧ (∃ r ∈ σ.db.invoice 20, r.versioning ≠ 7) ∧
    ∃ x ∈ (edit_invoice 20 1 ⟨some 5, none, 7⟩).run.run (World.exec (.call 9)) [Sys.calm] σ.world,
      x.2.toOption.isNone := by decide +kernel
  refine ⟨σ, hσ, _, hx, herr, ?_⟩
  cases answer with
  | ok res => cases herr
  | error e =>
    refine (edit_fails_cleanly_iff (Option.isNone_iff_eq_none.mp htx) hx).mpr ?_
    rintro ⟨-, ⟨r', hr'⟩, -⟩
    exact hv (Option.some.inj (hr.symm.trans hr'.row) ▸ hr'.version)

/-- Another business raises the version of a draft that it cannot even read. -/
theorem edit_fails_dirtily : ¬∀ σ : Sys, σ.Reachable → ∀ (p : Pid) (i b : Uuid)
    (req : EditInvoiceRequest) cs w' e, σ.world.tx p = none →
    (edit_invoice i b req).run.run (World.exec p) cs σ.world = some (w', .error e) →
      w'.db = σ.db := by
  obtain ⟨σ, hσ, htx, ⟨r, hr, hv⟩, ⟨w', answer⟩, hx, herr, r', hr', hv'⟩ :
    ∃ σ ∈ Sys.initial.steps Sys.issued, (σ.world.tx (.call 9)).isNone ∧
    (∃ r ∈ σ.db.invoice 20, r.versioning = 1) ∧
    ∃ x ∈ (edit_invoice 20 2 ⟨none, none, 1⟩).run.run (World.exec (.call 9))
      (List.replicate 4 Sys.calm) σ.world, x.2.toOption.isNone ∧
      ∃ r' ∈ x.1.db.invoice 20, r'.versioning = 2 := by decide +kernel
  intro h
  cases answer with
  | ok res => cases herr
  | error e =>
    have hsame := h σ (Sys.reachable_of_steps hσ) _ 20 2 _ _ w' e (Option.isNone_iff_eq_none.mp htx)
      hx
    have hr' : w'.db.invoice 20 = some r' := hr'
    rw [hsame] at hr'
    cases hr.symm.trans hr'
    exact absurd (hv.symm.trans hv') (by decide)

/-! ### Succeeding -/

/-- What a successful edit of invoice `i` by `b` has made of `db`. -/
structure EditedExactly (b i : Uuid) (req : EditInvoiceRequest) (db db' : Db) (res : InvoiceResult)
    (r : Invoice) : Prop where
  before : db.invoice i = some r
  after : db'.invoice i = some res.invoice
  versioning : res.invoice.versioning.toInt = r.versioning.toInt + 1
  /-- An omitted due date is kept. -/
  due_date : res.invoice.due_date = req.due_date.getD r.due_date
  /-- Without items the total is kept. -/
  total_cents : res.invoice.total_cents = (req.line_items.map total_of).getD r.total_cents
  kept : req.line_items = none → db'.items i = db.items i ∧ res.line_items.Perm (db.items i)
  replaced : ∀ items, req.line_items = some items →
    db'.items i = res.line_items ∧ List.Forall₂ (Itemized i) items res.line_items
  state : res.invoice.state = r.state
  owner : r.business_id = b
  business_id : res.invoice.business_id = r.business_id
  customer_id : res.invoice.customer_id = r.customer_id
  created_at : res.invoice.created_at = r.created_at
  other_invoices : ∀ j, j ≠ i → db'.invoice j = db.invoice j
  other_items : ∀ j, j ≠ i → db'.items j = db.items j
  rest : db' = { db with
    invoices := db'.invoices, invoice_line_items := db'.invoice_line_items }

theorem Edited.exactly {allow : Choice → World → Prop} {l : Durable} {since t : DateTime}
    {r : Invoice} {res : InvoiceResult} {w' : World} (hr : Claimable l.db i req.versioning r)
    (hb : r.business_id = b) (hitems : EditChecked req.line_items)
    (h : Edited p allow l since req (r.claimed t) res w') :
    EditedExactly b i req l.db w'.db res r := by
  obtain ⟨u, hu⟩ := h.row
  obtain rfl := Db.id_of_invoice hr.row
  have hid : res.invoice.id = r.id := by rw [hu]; rfl
  refine ⟨hr.row, hid ▸ h.stored, ?_, by rw [hu]; rfl, by rw [hu]; rfl, fun hnone => ?_,
    fun items hsome => ⟨h.items_eq hsome, ?_⟩, by rw [hu]; rfl, hb, by rw [hu]; rfl, by rw [hu]; rfl,
    by rw [hu]; rfl, fun j hj => ?_, fun j hj => ?_, by rw [h.db]⟩
  · rw [hu]
    exact toInt_versioning_succ hr.max
  · obtain ⟨hsame, hperm⟩ := h.items.kept hnone
    exact ⟨by rw [Db.items, hsame]; rfl, hperm⟩
  · obtain ⟨-, gone, hins⟩ := h.items.replaced items hsome
    exact hins.itemized (hitems items hsome).2
  · rw [h.db]
    exact Table.find_put_ne _ fun hk => hj (hk.symm.trans hid)
  · cases hreq : req.line_items with
    | none => rw [Db.items, (h.items.kept hreq).1]; rfl
    | some items =>
      obtain ⟨hrows, gone, hins⟩ := h.items.replaced items hreq
      have hnil : (res.line_items.filter fun x => decide (x.invoice_id = j)) = [] :=
        List.filter_eq_nil_iff.mpr fun x hx hxj =>
          hj ((of_decide_eq_true hxj).symm.trans (hins.invoice_id x hx))
      rw [Db.items, hrows, List.filter_append, hnil, List.append_nil, List.filter_filter, Db.items]
      refine List.filter_congr fun x _ => ?_
      by_cases hxj : x.invoice_id = j
      · have hne : j ≠ (r.claimed t).id := hj
        simp [hxj, hne]
      · simp [hxj]

/-- CORRECT (an exact edit): an edit on its own that succeeds has changed what it was asked to and
    nothing else, and reading the invoice gives the answer of the edit again. -/
theorem edit_changes_exactly (htx : w.tx p = none) {cs : List Choice} {w' : World}
    {res : InvoiceResult}
    (hrun : (edit_invoice i b req).run.run (World.exec p) cs w = some (w', .ok res)) :
    (∃ r, EditedExactly b i req w.db w'.db res r) ∧ ∀ q, w'.tx q = none →
      (w'.Quiet → ∀ f : ℕ → Choice, ∃ n w'' answer,
        (get_invoice i b).run.run (World.exec q) ((List.range n).map f) w' = some (w'', answer)) ∧
      ∀ cs' w'' answer, (∀ c ∈ cs', c.fail = false) →
        (get_invoice i b).run.run (World.exec q) cs' w' = some (w'', answer) →
        ∃ res', answer = .ok res' ∧ res'.invoice = res.invoice ∧
          res'.line_items.Perm res.line_items := by
  obtain ⟨r, t, hr, hb, hitems, hedited⟩ :=
    Leaves.of_run (edit_invoice_leaves (World.staged htx)) Prog.along_anyhow hrun
  have h := Edited.exactly hr hb hitems hedited
  refine ⟨⟨r, h⟩, fun q hq => ⟨fun hquiet f => hquiet.returns _ f, fun cs' w'' answer hcs' hget => ?_⟩⟩
  have hown : w'.db.own b i = some res.invoice :=
    Db.own_eq_some.mpr ⟨h.after, h.business_id.trans hb⟩
  have hends := Leaves.of_run (get_invoice_leaves (World.staged hq)) (.of_all hcs') hget
  cases answer with
  | error e =>
    obtain ⟨-, hnone⟩ := hends.1 fun _ _ hc => hc
    cases hnone.symm.trans hown
  | ok res' =>
    obtain ⟨hinv, hperm, -⟩ := hends
    refine ⟨res', rfl, Option.some.inj (hinv.symm.trans hown), hperm.trans ?_⟩
    show (w'.db.items i).Perm res.line_items
    cases hreq : req.line_items with
    | none =>
      obtain ⟨hsame, hkept⟩ := h.kept hreq
      exact hsame ▸ hkept.symm
    | some items => rw [(h.replaced items hreq).1]

/-- Another due date and two items. -/
def both_replaced : EditInvoiceRequest := ⟨some 5, some [⟨" hours ", 3, 9000⟩, ⟨"fee", 1, 500⟩], 1⟩

theorem edit_changes_exactly_both : ∃ σ ∈ Sys.initial.steps Sys.issued,
    ∃ x ∈ (edit_invoice 20 1 both_replaced).run.run (World.exec (.call 8))
      (List.replicate 8 { Sys.calm with uuid := 31 } ++
        List.replicate 4 { Sys.calm with uuid := 32 }) σ.world,
    ∃ y ∈ (get_invoice 20 1).run.run (World.exec (.call 9)) (List.replicate 2 Sys.calm) x.1,
    ∃ res ∈ x.2.toOption, ∃ res' ∈ y.2.toOption, res.line_items.length = 2 ∧
      (∃ r, EditedExactly 1 20 both_replaced σ.db x.1.db res r) ∧ res'.invoice = res.invoice ∧
      res'.line_items.Perm res.line_items := by
  obtain ⟨σ, hσ, htx, ⟨w', a⟩, hx, htx', ⟨w'', a'⟩, hy, res, hres, htwo⟩ :
    ∃ σ ∈ Sys.initial.steps Sys.issued, (σ.world.tx (.call 8)).isNone ∧
    ∃ x ∈ (edit_invoice 20 1 both_replaced).run.run (World.exec (.call 8))
      (List.replicate 8 { Sys.calm with uuid := 31 } ++
        List.replicate 4 { Sys.calm with uuid := 32 }) σ.world, (x.1.tx (.call 9)).isNone ∧
    ∃ y ∈ (get_invoice 20 1).run.run (World.exec (.call 9)) (List.replicate 2 Sys.calm) x.1,
    ∃ res ∈ x.2.toOption, res.line_items.length = 2 := by decide +kernel
  obtain rfl := ok_of_toOption hres
  obtain ⟨hexactly, hread⟩ := edit_changes_exactly (Option.isNone_iff_eq_none.mp htx) hx
  obtain ⟨res', rfl, hinv, hperm⟩ := (hread _ (Option.isNone_iff_eq_none.mp htx')).2 _ _ _
    (fun c hc => by
      rw [List.eq_of_mem_replicate hc]
      rfl) hy
  exact ⟨σ, hσ, _, hx, _, hy, res, hres, res', rfl, htwo, hexactly, hinv, hperm⟩

end Payman
