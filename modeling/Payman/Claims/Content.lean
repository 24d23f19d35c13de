import Mathlib.Algebra.Ring.Nat
import Mathlib.Algebra.Ring.Int.Defs
import Mathlib.Data.Multiset.Basic
import Payman.Safety.Turns

/-! What an invoice says: its total, its due date and its items.

    Total and items are written together, by the transaction that creates the invoice and by the
    second one of an edit. That one reads the state of the invoice before it locks the row and finds
    the rows to delete by a scan that locks nothing. Who leaves Draft in the first gap is edited
    afterwards, and whose items change in the second one keeps items that no total counts. -/

namespace Payman
open Schemes

variable {K : Setting} {T : Pid} {past : List Commit} {db : Db} {j : Job} {ws : List Write}

/-! ### The items after an effect -/

/-- What the writes `ws` of job `j` do to the items of invoice `i` and to its total. -/
inductive Items (K : Setting) (db : Db) (j : Job) (ws : List Write) (i : Uuid) : Prop where
  | same (hitems : (applyAll db ws).items i = db.items i)
      (htotal : ((applyAll db ws).invoice i).map (·.total_cents) =
        (db.invoice i).map (·.total_cents))
  | created {b : Uuid} {req : CreateInvoiceRequest} {lines : List LineItem} {r' : Invoice}
      (hj : j = .call (.create_invoice b req)) (hnone : db.invoice i = none)
      (hr' : (applyAll db ws).invoice i = some r')
      (htotal : r'.total_cents = total_of req.line_items)
      (hlines : Inserted db [] i req.line_items lines)
      (hitems : (applyAll db ws).items i = db.items i ++ lines)
  | replaced {b : Uuid} {req : EditInvoiceRequest} {items : List CreateLineItemRequest}
      {gone : List Uuid} {lines : List LineItem} {r r' : Invoice}
      (hj : j = .call (.edit_invoice i b req)) (hreq : req.line_items = some items)
      (hr : db.invoice i = some r) (hdraft : K.drafts → r.state = .Draft)
      (hscan : K.scans → ∀ x ∈ db.items i, x.id ∈ gone)
      (hr' : (applyAll db ws).invoice i = some r') (htotal : r'.total_cents = total_of items)
      (hlines : Inserted db gone i items lines)
      (hitems : (applyAll db ws).items i =
        ((db.items i).filter fun x => decide (x.id ∉ gone)) ++ lines)

/-- What a write does to the table of items. -/
@[simp] def Write.line_items (t : Table LineItem) : Write → Table LineItem
  | .put_line_item x => t.put x
  | .delete_line_item l => t.erase l
  | _ => t

theorem Db.line_items_applyAll : ∀ (ws : List Write) (db : Db),
    (applyAll db ws).invoice_line_items = ws.foldl Write.line_items db.invoice_line_items
  | [], _ => rfl
  | w :: ws, db => by
    rw [applyAll_cons, Db.line_items_applyAll ws, List.foldl_cons]
    cases w <;> rfl

/-- Writing an invoice with its total. -/
theorem Items.of_put {i k : Uuid} {r r' : Invoice} (hr : db.invoice k = some r)
    (hput : (applyAll db ws).invoice i = if r'.id = i then some r' else db.invoice i)
    (hid : r'.id = r.id) (ht : r'.total_cents = r.total_cents)
    (hitems : (applyAll db ws).invoice_line_items = db.invoice_line_items) :
    Items K db j ws i := by
  refine .same (items_of_eq hitems) ?_
  rw [hput]
  split
  · rename_i hi
    rw [← hi, hid, Db.id_of_invoice hr, hr, Option.map_some, Option.map_some, ht]
  · rfl

/-- Added items come after those that stay. -/
theorem Inserted.items_eq {db' : Db} {gone : List Uuid} {i : Uuid}
    {reqs : List CreateLineItemRequest} {lines : List LineItem} (h : Inserted db gone i reqs lines)
    (hdb' : db'.invoice_line_items =
      lines.foldl Table.put (gone.foldl Table.erase db.invoice_line_items)) :
    db'.items i = ((db.items i).filter fun x => decide (x.id ∉ gone)) ++ lines := by
  have hall : (lines.filter fun x => decide (x.invoice_id = i)) = lines :=
    List.filter_eq_self.mpr fun x hx => decide_eq_true (h.invoice_id x hx)
  rw [Db.items, hdb', h.rows_eq, List.filter_append, hall, Db.items, List.filter_comm]

/-- CORRECT: what an effect does to the items of an invoice and to its total. -/
theorem Effect.items (h : Effect K T past db j ws) (i : Uuid) : Items K db j ws i := by
  have hinv := Db.invoice_applyAll i ws db
  have hrows := Db.line_items_applyAll ws db
  cases h with
  | @create b k req lines t hfresh hlines =>
    simp only [List.foldl_cons, Write.row, Write.foldl_row_put_line_items] at hinv
    simp only [List.foldl_cons, List.foldl_map, Write.line_items] at hrows
    by_cases hik : k = i
    · subst hik
      rw [if_pos rfl] at hinv
      refine .created rfl hfresh hinv rfl hlines ?_
      simpa using hlines.items_eq hrows
    · rw [if_neg hik] at hinv
      exact .same (hlines.items_of_ne nofun (Ne.symm hik) hrows) (congrArg _ hinv)
  | @edit_items b k req r r' pre items gone lines t hr _ hdraft hpre hreq hgone hscan hlines =>
    have hid : r'.id = k := by
      rcases hpre with ⟨-, rfl⟩ | ⟨-, d, rfl⟩
      · exact Db.id_of_invoice hr
      · exact (Db.id_of_invoice hr : r.id = k)
    have hpre' : pre.foldl Write.line_items db.invoice_line_items = db.invoice_line_items := by
      rcases hpre with ⟨rfl, -⟩ | ⟨rfl, -⟩ <;> rfl
    simp only [List.foldl_append, List.foldl_cons, List.foldl_nil, List.foldl_map, hpre',
      Write.line_items] at hrows
    simp only [List.foldl_append, List.foldl_cons, List.foldl_nil, Write.foldl_row_put_line_items,
      Write.foldl_row_delete_line_items, Write.row] at hinv
    by_cases hik : k = i
    · subst hik
      rw [if_pos hid] at hinv
      exact .replaced rfl hreq hr hdraft hscan hinv rfl hlines (hlines.items_eq hrows)
    · have hne : r'.id ≠ i := fun h => hik (hid.symm.trans h)
      rw [if_neg hne] at hinv
      refine .same (hlines.items_of_ne hgone (Ne.symm hik) hrows) (congrArg _ (hinv.trans ?_))
      rcases hpre with ⟨rfl, -⟩ | ⟨rfl, -⟩
      · rfl
      · exact if_neg hne
  | claim_draft hr | edit_due_date hr | finalize hr | void hr => exact .of_put hr hinv rfl rfl rfl
  | pay_start hr => exact .of_put hr.1 hinv rfl rfl rfl
  | pay_record _ _ hr | settle _ hr => exact .of_put hr hinv rfl rfl rfl
  | _ => exact .same (items_of_eq rfl) rfl

/-! ### After finalization -/

/-- What invoice `i` says: its total, its due date and its items. -/
def Db.content (db : Db) (i : Uuid) : Option (Int64 × NaiveDate × Multiset LineItem) :=
  (db.invoice i).map fun r => (r.total_cents, r.due_date, (db.items i : Multiset LineItem))

/-- If only drafts are rewritten, an invoice that has left Draft says what it said. -/
theorem Effect.content (h : Effect K T past db j ws) (hK : K.drafts) {i : Uuid} {r : Invoice}
    (hr : db.invoice i = some r) (hs : r.state ≠ .Draft) :
    ∃ r', (applyAll db ws).invoice i = some r' ∧ r'.state ≠ .Draft ∧
      (applyAll db ws).content i = db.content i := by
  have hitems : (applyAll db ws).items i = db.items i := by
    cases h.items i with
    | same hitems _ => exact hitems
    | created _ hnone _ _ _ _ => cases hnone.symm.trans hr
    | replaced _ _ hr₀ hdraft _ _ _ _ _ =>
      exact absurd (Option.some.inj (hr₀.symm.trans hr) ▸ hdraft hK) hs
  obtain ⟨r', hr', hrow⟩ := h.row hr
  refine ⟨r', hr', ?_⟩
  rw [Db.content, Db.content, hr', hr, hitems]
  cases hrow with
  | same => exact ⟨hs, rfl⟩
  | checked _ _ _ hs' _ => exact ⟨fun h => hs (hs' h), rfl⟩
  | content hdraft => exact absurd (hdraft hK) hs
  | recorded _ _ _ hs' _ _ => exact ⟨hs', rfl⟩
  | settled _ _ hs' => exact ⟨hs', rfl⟩

variable {σ σ' : Sys} {l : Sys.Label} {q : Pid}

/-- The step takes no invoice out of Draft that process `q` is rewriting. -/
def DraftStays (σ : Sys) (l : Sys.Label) (q : Pid) : Prop :=
  ∀ c ∈ σ.commits l, q ≠ c.pid → ∀ i ∈ σ.rewriting q, ∀ r ∈ σ.db.invoice i, r.state = .Draft →
    ∃ r' ∈ (applyAll σ.db c.writes).invoice i, r'.state = .Draft

instance (σ : Sys) (l : Sys.Label) (q : Pid) : Decidable (DraftStays σ l q) :=
  inferInstanceAs (Decidable (∀ _ ∈ _, _))

theorem DraftStays.of_none (h : σ.procs q = none) : DraftStays σ l q := fun c _ _ i hi => by
  rw [Sys.rewriting, Sys.job, h] at hi
  cases hi

def Setting.drafts_any : Setting := { Setting.any with drafts := True }

theorem DraftStays.honours (h : ∀ q, DraftStays σ l q) : Honours .drafts_any σ l where
  answer := fun p c e _ _ => by cases e <;> trivial
  alone := nofun
  start := nofun
  drafts := fun _ c hc q hq i hi r hr hs => h q c hc hq i hi r hr hs
  scans := nofun

/-- CORRECT (what is finalized): in a run in which nobody takes an invoice out of Draft between the
    state check of an edit and its writes, an invoice that has left Draft keeps its total, its due
    date and its items. -/
theorem finalized_content_fixed (hrun : Sys.Run (fun σ l => ∀ q, DraftStays σ l q) .initial σ)
    (hrun' : Sys.Run (fun σ l => ∀ q, DraftStays σ l q) σ σ') {i : Uuid} {r : Invoice}
    (hr : σ.db.invoice i = some r) (hs : r.state ≠ .Draft) :
    σ'.db.content i = σ.db.content i := by
  have hinv := Inv.initial.run (fun _ _ => DraftStays.honours) hrun
  suffices h : ∃ r', σ'.db.invoice i = some r' ∧ r'.state ≠ .Draft ∧
      σ'.db.content i = σ.db.content i from h.choose_spec.2.2
  refine (hinv.induct (fun _ _ => DraftStays.honours) hrun' (motive := fun σ' =>
    ∃ r', σ'.db.invoice i = some r' ∧ r'.state ≠ .Draft ∧ σ'.db.content i = σ.db.content i)
    ⟨r, hr, hs, rfl⟩ ?_).2
  rintro σ₁ l σ₂ - - - hap ⟨r₁, hr₁, hs₁, hc⟩
  cases hap with
  | quiet hdb _ _ => exact ⟨r₁, hdb ▸ hr₁, hs₁, hdb ▸ hc⟩
  | send p j a card _ hdb _ _ _ => exact ⟨r₁, hdb ▸ hr₁, hs₁, hdb ▸ hc⟩
  | commit p j ws _ hdb _ _ he =>
    obtain ⟨r₂, hr₂, hs₂, hc'⟩ := he.content trivial hr₁ hs₁
    rw [hdb]
    exact ⟨r₂, hr₂, hs₂, hc'.trans hc⟩

/-- A finalization that has seen the draft waits for an edit of it. -/
def edited_open : List Sys.Label :=
  Sys.issued ++ [.arrive 2 (.edit_invoice 20 1 ⟨some 5, some [⟨"more", 3, 40⟩], 1⟩),
    .arrive 3 (.finalize_invoice 20 1 ⟨2⟩)] ++ Sys.go (.call 2) 3 ++ Sys.go (.call 3) 2 ++
  Sys.go (.call 2) 4 ++ Sys.fresh (.call 2) 31 ++ Sys.go (.call 2) 3 ++ Sys.go (.call 3) 3

/-- An edit of the finalized invoice. -/
def edited_late : List Sys.Label :=
  [.arrive 4 (.edit_invoice 20 1 ⟨some 9, none, 3⟩)] ++ Sys.go (.call 4) 1

theorem finalized_content_fixed_edited : ∃ σ ∈ Sys.initial.steps edited_open,
    ∃ σ' ∈ σ.steps edited_late,
    (∃ r ∈ σ.db.invoice 20, r.state = .Open ∧ r.total_cents = 120 ∧ r.due_date = 5) ∧
    σ'.db.content 20 = σ.db.content 20 := by
  obtain ⟨hok, σ, hσ, σ', hσ', r, hr, hs, ht, hd⟩ : Sys.initial.Allowed (fun σ l =>
      ∀ q ∈ [.call 0, .call 1, .call 2, .call 3, .call 4], DraftStays σ l q)
      (edited_open ++ edited_late) ∧
    ∃ σ ∈ Sys.initial.steps edited_open, ∃ σ' ∈ σ.steps edited_late,
    ∃ r ∈ σ.db.invoice 20, r.state = .Open ∧ r.total_cents = 120 ∧ r.due_date = 5 := by
      decide +kernel
  obtain ⟨hall, hall'⟩ := Sys.Allowed.append (Sys.Allowed.of_started
    (fun _ _ _ => DraftStays.of_none) _ _ (fun _ _ => rfl) (by decide) hok)
  refine ⟨σ, hσ, σ', hσ', ⟨r, hr, hs, ht, hd⟩, ?_⟩
  exact finalized_content_fixed (Sys.run_of_steps hσ hall) (Sys.run_of_steps hσ' (hall' σ hσ)) hr
    (by rw [hs]; nofun)

/-- The edit has seen the draft when the finalization commits. -/
def open_edited : List Sys.Label :=
  Sys.issued ++ [.arrive 2 (.edit_invoice 20 1 ⟨some 5, none, 1⟩),
    .arrive 3 (.finalize_invoice 20 1 ⟨2⟩)] ++ Sys.go (.call 2) 3 ++ Sys.go (.call 3) 5

theorem open_invoice_edited : ¬∀ σ σ' : Sys, σ.Reachable → Sys.Run (fun _ _ => True) σ σ' →
    ∀ i r, σ.db.invoice i = some r → r.state ≠ .Draft → σ'.db.content i = σ.db.content i := by
  obtain ⟨σ, hσ, σ', hσ', r, hr, hs, hne⟩ : ∃ σ ∈ Sys.initial.steps open_edited,
    ∃ σ' ∈ σ.steps (Sys.go (.call 2) 5), ∃ r ∈ σ.db.invoice 20, r.state = .Open ∧
      σ'.db.content 20 ≠ σ.db.content 20 := by decide +kernel
  intro h
  exact hne (h σ σ' (Sys.reachable_of_steps hσ)
    (Sys.run_of_steps hσ' (Sys.Allowed.always _ _)) 20 r hr (by rw [hs]; nofun))

/-! ### Totals -/

/-- The exact sum of what a request's items cost. -/
def exact_total (items : List CreateLineItemRequest) : ℤ :=
  (items.map fun item => item.quantity.toInt * item.unit_amount_cents.toInt).sum

theorem exact_total_cons (item : CreateLineItemRequest) (items : List CreateLineItemRequest) :
    exact_total (item :: items) =
      item.quantity.toInt * item.unit_amount_cents.toInt + exact_total items := rfl

/-- Whether it is an `i64`. -/
def FitsI64 (items : List CreateLineItemRequest) : Prop :=
  -2 ^ 63 ≤ exact_total items ∧ exact_total items < 2 ^ 63

instance (items : List CreateLineItemRequest) : Decidable (FitsI64 items) :=
  inferInstanceAs (Decidable (_ ∧ _))

theorem toInt_amount (item : CreateLineItemRequest) :
    item.amount.toInt = (item.quantity.toInt * item.unit_amount_cents.toInt).bmod (2 ^ 64) := by
  rw [CreateLineItemRequest.amount, Int64.toInt_mul, Int32.toInt_toInt64]

/-- Wrapping at every step is wrapping once. -/
theorem toInt_foldl_amount : ∀ (items : List CreateLineItemRequest) (acc : Int64),
    ((items.map (·.amount)).foldl (· + ·) acc).toInt =
      (acc.toInt + exact_total items).bmod (2 ^ 64)
  | [], acc => by simp [exact_total]
  | item :: items, acc => by
    rw [List.map_cons, List.foldl_cons, toInt_foldl_amount items, Int64.toInt_add, toInt_amount,
      Int.bmod_add_bmod, Int.add_right_comm, Int.add_bmod_bmod, exact_total_cons,
      Int.add_right_comm, Int.add_assoc]

theorem toInt_total_of {items : List CreateLineItemRequest} (h : FitsI64 items) :
    (total_of items).toInt = exact_total items := by
  rw [total_of, toInt_foldl_amount, Int64.toInt_zero, Int.zero_add]
  exact Int.bmod_eq_of_le h.1 h.2

/-- The exact sum of what the items of an invoice cost. -/
def Db.items_total (db : Db) (i : Uuid) : ℤ :=
  ((db.items i).map fun x => x.quantity.toInt * x.unit_amount_cents.toInt).sum

theorem Inserted.total {gone : List Uuid} {i : Uuid} {reqs : List CreateLineItemRequest}
    {lines : List LineItem} (h : Inserted db gone i reqs lines) :
    (lines.map fun x => x.quantity.toInt * x.unit_amount_cents.toInt).sum = exact_total reqs := by
  have hrows := h.rows
  clear h
  induction hrows with
  | nil => rfl
  | cons hx _ ih => rw [List.map_cons, List.sum_cons, ih, exact_total_cons, hx.2.2.1, hx.2.2.2]

/-- The total of invoice `i` is that of its items; without the invoice there are none. -/
structure Db.Adds (db : Db) (i : Uuid) : Prop where
  none : db.invoice i = none → db.items i = []
  some : ∀ r, db.invoice i = some r → r.total_cents.toInt = db.items_total i

/-- The items that a request brings. -/
def Request.line_items : Request → List CreateLineItemRequest
  | .create_invoice _ req => req.line_items
  | .edit_invoice _ _ req => req.line_items.getD []
  | _ => []

theorem Effect.adds (h : Effect K T past db j ws) (hK : K.scans)
    (hfits : ∀ q, j = .call q → FitsI64 q.line_items) {i : Uuid} (hi : db.Adds i) :
    (applyAll db ws).Adds i := by
  cases h.items i with
  | same hitems htotal =>
    refine ⟨fun hr' => ?_, fun r' hr' => ?_⟩
    · rw [hr', Option.map_none] at htotal
      exact hitems.trans (hi.none (Option.map_eq_none_iff.mp htotal.symm))
    · rw [hr', Option.map_some] at htotal
      obtain ⟨r, hr, ht⟩ := Option.map_eq_some_iff.mp htotal.symm
      rw [← ht, Db.items_total, hitems]
      exact hi.some r hr
  | @created b req lines r' hj hnone hr' htotal hlines hitems =>
    refine ⟨fun hn => ?_, fun r₁ hr₁ => ?_⟩
    · cases hr'.symm.trans hn
    · obtain rfl := Option.some.inj (hr'.symm.trans hr₁)
      have hfit : FitsI64 req.line_items := hfits _ hj
      rw [htotal, toInt_total_of hfit, Db.items_total, hitems, hi.none hnone,
        List.nil_append, hlines.total]
  | @replaced b req items gone lines r r' hj hreq hr _ hscan hr' htotal hlines hitems =>
    refine ⟨fun hn => ?_, fun r₁ hr₁ => ?_⟩
    · cases hr'.symm.trans hn
    · obtain rfl := Option.some.inj (hr'.symm.trans hr₁)
      have hfit := hfits _ hj
      rw [Request.line_items, hreq, Option.getD_some] at hfit
      have hgone : ((db.items i).filter fun x => decide (x.id ∉ gone)) = [] :=
        List.filter_eq_nil_iff.mpr fun x hx => by simpa using hscan hK x hx
      rw [htotal, toInt_total_of hfit, Db.items_total, hitems, hgone, List.nil_append, hlines.total]

/-- A call runs the request that it arrived with. -/
theorem Sys.job_of_step {p : Pid} {q : Request} (h : σ.step l = some σ')
    (hp : σ'.job p = some (.call q)) : σ.job p = some (.call q) ∨ ∃ n, l = .arrive n q := by
  cases Sys.moves h with
  | start p' j _ _ _ hj =>
    by_cases hpp : p = p'
    · subst hpp
      rw [Sys.start, Sys.job_of_procs Sys.set_procs_self] at hp
      exact .inr (hj q (Option.some.inj hp))
    · rw [Sys.start, Sys.job, Sys.set_procs_ne hpp] at hp
      exact .inl hp
  | exec p' c _ j e k w r hp' _ => exact .inl (Sys.set_job (Sys.job_of_procs hp') ▸ hp)
  | kill p' hl' j e k hp' => exact .inl (Sys.set_job (Sys.job_of_procs hp') ▸ hp)

/-- The items that arrive with a step. -/
def Sys.Label.line_items : Sys.Label → List CreateLineItemRequest
  | .arrive _ q => q.line_items
  | _ => []

/-- The step commits no items of an invoice whose items process `q` is replacing. -/
def ItemsStay (σ : Sys) (l : Sys.Label) (q : Pid) : Prop :=
  ∀ c ∈ σ.commits l, q ≠ c.pid → ∀ i ∈ σ.replacing q,
    (applyAll σ.db c.writes).items i = σ.db.items i

instance (σ : Sys) (l : Sys.Label) (q : Pid) : Decidable (ItemsStay σ l q) :=
  inferInstanceAs (Decidable (∀ _ ∈ _, _))

theorem ItemsStay.of_none (h : σ.procs q = none) : ItemsStay σ l q := fun c _ _ i hi => by
  rw [Sys.replacing, Sys.job, h] at hi
  cases hi

def Setting.scans_any : Setting := { Setting.any with scans := True }

theorem ItemsStay.honours (h : ∀ q, ItemsStay σ l q) : Honours .scans_any σ l where
  answer := fun p c e _ _ => by cases e <;> trivial
  alone := nofun
  start := nofun
  drafts := nofun
  scans := fun _ c hc q hq i hi => h q c hc hq i hi

/-- CORRECT (totals): in a run in which nobody commits items of an invoice between the scan of an
    edit that replaces them and its commit, and whose requests have exact sums in `i64`, the total
    of every invoice is what its items cost. -/
theorem total_matches_items (hrun : Sys.Run (fun σ l => FitsI64 l.line_items ∧
    ∀ q, ItemsStay σ l q) .initial σ) {i : Uuid} {r : Invoice} (hr : σ.db.invoice i = some r) :
    r.total_cents.toInt = σ.db.items_total i := by
  have h := (Inv.initial.induct (fun _ _ hok => ItemsStay.honours hok.2) hrun (motive := fun σ =>
    (∀ i, σ.db.Adds i) ∧ ∀ p q, σ.job p = some (.call q) → FitsI64 q.line_items)
    ⟨fun _ => ⟨fun _ => rfl, nofun⟩, nofun⟩ ?_).2
  · exact (h.1 i).some r hr
  · rintro σ₁ l σ₂ - ⟨hfit, -⟩ hstep hap ⟨hadds, hfits⟩
    refine ⟨fun i => ?_, fun p q hp => ?_⟩
    · cases hap with
      | quiet hdb _ _ => exact hdb ▸ hadds i
      | send p j a card _ hdb _ _ _ => exact hdb ▸ hadds i
      | commit p j ws hp hdb _ _ he =>
        rw [hdb]
        exact he.adds trivial (fun q hq => hfits p q (hq ▸ hp)) (hadds i)
    · rcases Sys.job_of_step hstep hp with hp | ⟨n, rfl⟩
      · exact hfits p q hp
      · exact hfit

/-- The second edit starts while the first one replaces the items, and scans after it is done. -/
def edits_apart : List Sys.Label :=
  Sys.issued ++ [.arrive 2 (.edit_invoice 20 1 ⟨none, some [⟨"a", 1, 10⟩], 1⟩),
    .arrive 3 (.edit_invoice 20 1 ⟨none, some [⟨"b", 1, 20⟩, ⟨"c", 2, 30⟩], 2⟩)] ++
  Sys.go (.call 2) 5 ++ Sys.go (.call 3) 3 ++ Sys.fresh (.call 2) 31 ++ Sys.go (.call 2) 3 ++
  Sys.go (.call 3) 2 ++ Sys.fresh (.call 3) 32 ++ Sys.fresh (.call 3) 33 ++ Sys.go (.call 3) 3

theorem total_matches_items_apart : ∃ σ ∈ Sys.initial.steps edits_apart,
    (∃ r ∈ σ.db.invoice 20, r.total_cents = 80) ∧ 80 = σ.db.items_total 20 := by
  obtain ⟨hfits, hok, σ, hσ, r, hr, ht⟩ : (∀ l ∈ edits_apart, FitsI64 l.line_items) ∧
    Sys.initial.Allowed (fun σ l => ∀ q ∈ [.call 0, .call 1, .call 2, .call 3],
      ItemsStay σ l q) edits_apart ∧
    ∃ σ ∈ Sys.initial.steps edits_apart, ∃ r ∈ σ.db.invoice 20, r.total_cents = 80 := by
      decide +kernel
  have hall : Sys.initial.Allowed (fun σ l => FitsI64 l.line_items ∧ ∀ q, ItemsStay σ l q)
      edits_apart := .of_labels hfits (.of_started (fun _ _ _ => ItemsStay.of_none) _ _
    (fun _ _ => rfl) (by decide) hok)
  have h := total_matches_items (Sys.run_of_steps hσ hall) hr
  rw [ht] at h
  exact ⟨σ, hσ, ⟨r, hr, ht⟩, h⟩

/-- The second edit has scanned the old item when the first one commits its new one. -/
def edits_overlap : List Sys.Label :=
  Sys.issued ++ [.arrive 2 (.edit_invoice 20 1 ⟨none, some [⟨"a", 1, 10⟩], 1⟩),
    .arrive 3 (.edit_invoice 20 1 ⟨none, some [⟨"b", 1, 20⟩], 2⟩)] ++
  Sys.go (.call 2) 4 ++ Sys.go (.call 3) 4 ++ Sys.go (.call 2) 1 ++ Sys.fresh (.call 2) 31 ++
  Sys.go (.call 2) 3 ++ Sys.go (.call 3) 1 ++ Sys.fresh (.call 3) 32 ++ Sys.go (.call 3) 3

theorem total_misses_items : ¬∀ σ : Sys,
    Sys.Run (fun _ l => FitsI64 l.line_items) .initial σ → ∀ i r, σ.db.invoice i = some r →
      r.total_cents.toInt = σ.db.items_total i := by
  obtain ⟨hfits, σ, hσ, r, hr, hne⟩ : (∀ l ∈ edits_overlap, FitsI64 l.line_items) ∧
    ∃ σ ∈ Sys.initial.steps edits_overlap, ∃ r ∈ σ.db.invoice 20,
      r.total_cents.toInt ≠ σ.db.items_total 20 := by decide +kernel
  intro h
  exact hne (h σ (Sys.run_of_steps hσ ((Sys.Allowed.of_labels hfits
    (Sys.Allowed.always _ _)).mono fun _ _ h => h.1)) 20 r hr)

end Payman
