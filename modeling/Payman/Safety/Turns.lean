import Payman.Ledger
import Payman.Safety.Runs

/-! Effects as changes of the ledger, and as changes of one invoice.

    Every effect is one `Turn` of the ledger. It is an `Entry`, the change that should have been
    made, when it is orderly: an invoice is finalized in Draft and an attempt is settled while it is
    pending, unless nothing changes. `Effect.Row` is what an effect does to the row of an invoice
    that exists. -/

namespace Payman
open Schemes

variable {K : Setting} {T : Pid} {past : List Commit} {db db' : Db} {j : Job} {ws : List Write}

def Db.ledger (db : Db) : Ledger Uuid Uuid where
  state := fun i => (db.invoice i).map (·.state)
  attempt := fun a => (db.attempt a).map fun row => (row.invoice_id, row.status)

def Outcome.verdict : Outcome → Verdict
  | .succeeded _ => .paid
  | .failed _ => .declined
  | .expired => .declined

@[simp] theorem Outcome.verdict_status (o : Outcome) : o.verdict.status = o.status := by
  cases o <;> rfl

@[simp] theorem Outcome.verdict_state (o : Outcome) : o.verdict.state = o.state := by
  cases o <;> rfl

namespace Db

theorem ledger_state {i : Uuid} {r : Invoice} (h : db.invoice i = some r) :
    db.ledger.state i = some r.state := congrArg (Option.map _) h

theorem ledger_state_none {i : Uuid} (h : db.invoice i = none) : db.ledger.state i = none :=
  congrArg (Option.map _) h

theorem ledger_attempt {a : Uuid} {row : AttemptRow} (h : db.attempt a = some row) :
    db.ledger.attempt a = some (row.invoice_id, row.status) := congrArg (Option.map _) h

theorem ledger_attempt_none {a : Uuid} (h : db.attempt a = none) : db.ledger.attempt a = none :=
  congrArg (Option.map _) h

end Db

/-! ### The ledger after an effect -/

/-- What a write does to the ledger. -/
@[simp] def Write.enter (g : Ledger Uuid Uuid) : Write → Ledger Uuid Uuid
  | .put_invoice r => g.move r.id r.state
  | .put_attempt row => g.mark row.id row.invoice_id row.status
  | _ => g

theorem Db.ledger_apply (db : Db) (w : Write) : (w.apply db).ledger = w.enter db.ledger := by
  cases w with
  | put_invoice r =>
    ext1
    · funext i
      show ((db.invoices.put r).find i).map Invoice.state = (db.ledger.move r.id r.state).state i
      rw [Ledger.move_state, Table.find_put]
      simp only [key_invoice, eq_comm (a := i)]
      split <;> rfl
    · rfl
  | put_attempt row =>
    ext1
    · rfl
    · funext a
      show ((db.payment_attempts.put row).find a).map (fun row => (row.invoice_id, row.status)) =
        (db.ledger.mark row.id row.invoice_id row.status).attempt a
      rw [Ledger.mark_attempt, Table.find_put]
      simp only [key_attempt, eq_comm (a := a)]
      split <;> rfl
  | _ => rfl

theorem Db.ledger_applyAll : ∀ (ws : List Write) (db : Db),
    (applyAll db ws).ledger = ws.foldl Write.enter db.ledger
  | [], _ => rfl
  | w :: ws, db => by
    rw [applyAll_cons, Write.rowWrite_apply, Db.ledger_applyAll ws, Db.ledger_apply]; rfl

/-- Items are not in the ledger. -/
@[simp] theorem Write.foldl_enter_put_line_items : ∀ (lines : List LineItem)
    (g : Ledger Uuid Uuid), (lines.map Write.put_line_item).foldl Write.enter g = g
  | [], _ => rfl
  | _ :: lines, g => Write.foldl_enter_put_line_items lines g

@[simp] theorem Write.foldl_enter_delete_line_items : ∀ (gone : List Uuid)
    (g : Ledger Uuid Uuid), (gone.map Write.delete_line_item).foldl Write.enter g = g
  | [], _ => rfl
  | _ :: gone, g => Write.foldl_enter_delete_line_items gone g

/-- Writing an invoice in the state it is in. -/
theorem Db.ledger_move_same {i : Uuid} {r : Invoice} (hr : db.invoice i = some r) :
    db.ledger.move r.id r.state = db.ledger :=
  Ledger.move_self (Db.id_of_invoice hr ▸ Db.ledger_state hr)

theorem Db.ledger_mark_same {a : Uuid} {row : AttemptRow} (hrow : db.attempt a = some row) :
    db.ledger.mark row.id row.invoice_id row.status = db.ledger :=
  Ledger.mark_self (Db.id_of_attempt hrow ▸ Db.ledger_attempt hrow)

/-- What the writes `ws` of job `j` do to the ledger of `db`: an entry, or a change that may come
    too late to be one, with what the job knew. -/
inductive Change (past : List Commit) (db : Db) (j : Job) (ws : List Write) :
    Ledger Uuid Uuid → Prop where
  | entry {g : Ledger Uuid Uuid} (he : Ledger.Entry db.ledger g) : Change past db j ws g
  | finalize {b i : Uuid} {req : FinalizeInvoiceRequest} {r : Invoice}
      (hj : j = .call (.finalize_invoice i b req)) (hr : db.invoice i = some r) :
      Change past db j ws (db.ledger.move i .Open)
  | void {i : Uuid} {r : Invoice} (hr : db.invoice i = some r)
      (hwas : Was past db fun d => ∃ r₀, d.invoice i = some r₀ ∧ r₀.state = .Draft ∧
        r₀.versioning = r.versioning) : Change past db j ws (db.ledger.move i .Void)
  | settle {i a : Uuid} {row row' : AttemptRow} {r r' : Invoice} {o : Outcome}
      (hrow : db.attempt a = some row) (hi : row.invoice_id = i) (hr : db.invoice i = some r)
      (hput : Write.put_attempt row' ∈ ws ∧ row'.id = a ∧ row'.status = o.status)
      (hput' : Write.put_invoice r' ∈ ws ∧ r'.id = i ∧ r'.state = o.state) :
      Change past db j ws ((db.ledger.move i o.state).mark a i o.status)
  | settle_only {row row' : AttemptRow} {o : Outcome} (hrow : db.attempt row.id = some row)
      (hput : Write.put_attempt row' ∈ ws ∧ row'.id = row.id ∧ row'.status = o.status)
      (hwas : Was past db fun d => d.attempt row.id = some row ∧
        ∀ r, d.invoice row.invoice_id = some r → r.state ≠ .Processing) :
      Change past db j ws (db.ledger.mark row.id row.invoice_id o.status)

theorem Change.of_eq {g g' : Ledger Uuid Uuid} (h : Change past db j ws g') (heq : g = g') :
    Change past db j ws g := heq ▸ h

/-- CORRECT: what an effect does to the ledger. -/
theorem Effect.change (h : Effect K T past db j ws) :
    Change past db j ws (applyAll db ws).ledger := by
  rw [Db.ledger_applyAll]
  cases h with
  | edit_nothing => exact .entry .stay
  | create hfresh _ =>
    simp only [List.foldl_cons, Write.enter, Write.foldl_enter_put_line_items]
    exact .entry (.issue _ (Db.ledger_state_none hfresh))
  | claim_draft hr => exact .entry (.of_eq .stay (Db.ledger_move_same hr :))
  | edit_due_date hr => exact .entry (.of_eq .stay (Db.ledger_move_same hr :))
  | edit_items hr _ _ hpre =>
    refine .entry (.of_eq .stay ?_)
    simp only [List.foldl_append, Write.foldl_enter_put_line_items,
      Write.foldl_enter_delete_line_items]
    rcases hpre with ⟨rfl, rfl⟩ | ⟨rfl, d, rfl⟩
    · exact (Db.ledger_move_same hr :)
    · simp only [List.foldl_cons, List.foldl_nil, Write.enter, Db.ledger_move_same hr]
  | @finalize b i req r t hr =>
    exact .of_eq (.finalize rfl hr) (by rw [← Db.id_of_invoice hr]; rfl)
  | @void b i req r t hr _ _ _ hwas =>
    exact .of_eq (.void hr hwas) (by rw [← Db.id_of_invoice hr]; rfl)
  | pay_start hr hrow hfresh hkr =>
    subst hrow
    simp only [List.foldl_cons, List.foldl_nil, Write.enter, Db.id_of_invoice hr.1]
    exact .entry (.start _ _ (by rw [Db.ledger_state hr.1, hr.2.1]) (Db.ledger_attempt_none hfresh))
  | @pay_record b i k req a row r kr o ans t hb hrow hr =>
    obtain ⟨row', hrow', hi, -⟩ := hb.attempt
    obtain rfl := Option.some.inj (hrow.symm.trans hrow')
    have hid := Db.id_of_attempt hrow
    refine .of_eq (.settle hrow hi hr
      ⟨List.mem_cons_self .., (Outcome.record_id ..).trans hid, Outcome.record_status ..⟩
      ⟨List.mem_cons_of_mem _ (List.mem_cons_self ..), (Db.id_of_invoice hr :), rfl⟩) ?_
    simp [Db.id_of_invoice hr, hid, hi]
    rfl
  | pay_leave => exact .entry .stay
  | retry hrow => exact .entry (.of_eq .stay (Db.ledger_mark_same hrow :))
  | @settle row r o t hrow hr =>
    refine .of_eq (.settle hrow rfl hr
      ⟨List.mem_cons_self .., Outcome.record_id .., Outcome.record_status ..⟩
      ⟨List.mem_cons_of_mem _ (List.mem_cons_self ..), (Db.id_of_invoice hr :), rfl⟩) ?_
    simp [Db.id_of_invoice hr]
    rfl
  | settle_only hrow _ hwas =>
    refine .of_eq (.settle_only hrow
      ⟨List.mem_cons_self .., Outcome.record_id .., Outcome.record_status ..⟩ hwas) ?_
    simp
  | customer => exact .entry .stay
  | endpoint => exact .entry .stay
  | deactivate => exact .entry .stay
  | delivery => exact .entry .stay
  | report => exact .entry .stay

theorem Change.turn {g : Ledger Uuid Uuid} (h : Change past db j ws g) :
    Ledger.Turn db.ledger g := by
  cases h with
  | entry he => exact he.turn
  | finalize _ hr => exact .finalize _ _ (Db.ledger_state hr)
  | void hr _ => exact .void _ _ (Db.ledger_state hr)
  | @settle i a row row' r r' o hrow hi =>
    rw [← o.verdict_state, ← o.verdict_status]
    exact .settle i a _ _ (hi ▸ Db.ledger_attempt hrow)
  | @settle_only row row' o hrow =>
    rw [← o.verdict_status]
    exact .settle_only _ _ _ _ (Db.ledger_attempt hrow)

/-- CORRECT: every effect is a turn of the ledger. -/
theorem Effect.turn (h : Effect K T past db j ws) :
    Ledger.Turn db.ledger (applyAll db ws).ledger := h.change.turn

/-! ### An invoice's row after an effect -/

/-- The invoice and the version that a request's version-checked UPDATE asks for. -/
def Request.gate : Request → Option (Uuid × Int32)
  | .edit_invoice i _ req => some (i, req.versioning)
  | .finalize_invoice i _ req => some (i, req.versioning)
  | .void_invoice i _ req => some (i, req.versioning)
  | .pay_invoice i _ _ req => some (i, req.versioning)
  | _ => none

/-- What the writes `ws` of job `j` do to the row `r` of an invoice in `db`. -/
inductive Row (K : Setting) (db : Db) (j : Job) (ws : List Write) (r : Invoice) :
    Invoice → Prop where
  | same : Row K db j ws r r
  /-- A version-checked UPDATE: no attempt is settled with it. -/
  | checked {q : Request} {s : InvoiceState} {t : DateTime} (hj : j = .call q)
      (hgate : q.gate = some (r.id, r.versioning)) (hmax : r.versioning ≠ Int32.maxValue)
      (hs : s = .Draft → r.state = .Draft)
      (hpending : ∀ row, Write.put_attempt row ∈ ws → row.status = .Pending) :
      Row K db j ws r { r with state := s, updated_at := t, versioning := r.versioning + 1 }
  /-- The second transaction of an edit. -/
  | content {d : NaiveDate} {total : Int64} {t : DateTime} (hdraft : K.drafts → r.state = .Draft) :
      Row K db j ws r { r with due_date := d, total_cents := total, updated_at := t }
  /-- The second transaction of a payment, which raises the version unchecked. -/
  | recorded {s : InvoiceState} {t : DateTime} {a : Uuid} {row row' : AttemptRow}
      (ha : db.attempt a = some row) (hi : row.invoice_id = r.id)
      (hmax : r.versioning ≠ Int32.maxValue) (hs : s ≠ .Draft)
      (hput : Write.put_attempt row' ∈ ws) (hst : row'.status ≠ .Pending) :
      Row K db j ws r { r with state := s, updated_at := t, versioning := r.versioning + 1 }
  /-- An outcome that the worker has found. -/
  | settled {s : InvoiceState} {t : DateTime} {a : Uuid} {row : AttemptRow}
      (ha : db.attempt a = some row) (hi : row.invoice_id = r.id) (hs : s ≠ .Draft) :
      Row K db j ws r { r with state := s, updated_at := t }

/-- What a write does to the row of an invoice. -/
@[simp] def Write.row (i : Uuid) (o : Option Invoice) : Write → Option Invoice
  | .put_invoice r => if r.id = i then some r else o
  | _ => o

theorem Db.invoice_applyAll (i : Uuid) : ∀ (ws : List Write) (db : Db),
    (applyAll db ws).invoice i = ws.foldl (Write.row i) (db.invoice i)
  | [], _ => rfl
  | w :: ws, db => by
    rw [applyAll_cons, Db.invoice_applyAll i ws, List.foldl_cons]
    cases w with
    | put_invoice r => exact congrArg (ws.foldl (Write.row i)) (Table.find_put ..)
    | _ => rfl

@[simp] theorem Write.foldl_row_put_line_items {i : Uuid} : ∀ (lines : List LineItem)
    (o : Option Invoice), (lines.map Write.put_line_item).foldl (Write.row i) o = o
  | [], _ => rfl
  | _ :: lines, o => Write.foldl_row_put_line_items lines o

@[simp] theorem Write.foldl_row_delete_line_items {i : Uuid} : ∀ (gone : List Uuid)
    (o : Option Invoice), (gone.map Write.delete_line_item).foldl (Write.row i) o = o
  | [], _ => rfl
  | _ :: gone, o => Write.foldl_row_delete_line_items gone o

/-- The last write of an invoice counts. -/
theorem Row.of_put {i k : Uuid} {r r₀ r' : Invoice} {o : Option Invoice}
    (hr : db.invoice i = some r) (h₀ : db.invoice k = some r₀) (hid : r'.id = r₀.id)
    (ho : r'.id ≠ i → o = db.invoice i) (hrow : r₀ = r → Row K db j ws r r') :
    ∃ r'', (if r'.id = i then some r' else o) = some r'' ∧ Row K db j ws r r'' := by
  split
  · rename_i hi
    refine ⟨r', rfl, hrow ?_⟩
    rw [← hi, hid, Db.id_of_invoice h₀, h₀, Option.some.injEq] at hr
    exact hr
  · rename_i hi
    exact ⟨r, (ho hi).trans hr, .same⟩

/-- CORRECT: what an effect does to an invoice that exists. -/
theorem Effect.row (h : Effect K T past db j ws) {i : Uuid} {r : Invoice}
    (hr : db.invoice i = some r) :
    ∃ r', (applyAll db ws).invoice i = some r' ∧ Row K db j ws r r' := by
  rw [Db.invoice_applyAll]
  cases h with
  | edit_nothing => exact ⟨r, hr, .same⟩
  | @create b k req lines t hfresh hlines =>
    refine ⟨r, ?_, .same⟩
    simp only [List.foldl_cons, Write.row, Write.foldl_row_put_line_items]
    rw [if_neg, hr]
    rintro rfl
    cases hfresh.symm.trans hr
  | claim_draft hr₀ _ hv hmax =>
    refine Row.of_put hr hr₀ rfl (fun _ => rfl) ?_
    rintro rfl
    exact .checked rfl (by rw [Request.gate, Db.id_of_invoice hr₀, hv]) hmax id (by simp)
  | edit_due_date hr₀ _ hdraft =>
    refine Row.of_put hr hr₀ rfl (fun _ => rfl) ?_
    rintro rfl
    exact .content hdraft
  | @edit_items b k req r₀ r' pre items gone lines t hr₀ _ hdraft hpre =>
    simp only [List.foldl_append, Write.foldl_row_put_line_items,
      Write.foldl_row_delete_line_items]
    rcases hpre with ⟨rfl, rfl⟩ | ⟨rfl, d, rfl⟩
    · refine Row.of_put hr hr₀ rfl (fun _ => rfl) ?_
      rintro rfl
      exact .content hdraft
    · refine Row.of_put hr hr₀ rfl (fun hne => if_neg hne) ?_
      rintro rfl
      exact .content hdraft
  | finalize hr₀ _ hv hmax =>
    refine Row.of_put hr hr₀ rfl (fun _ => rfl) ?_
    rintro rfl
    exact .checked rfl (by rw [Request.gate, Db.id_of_invoice hr₀, hv]) hmax nofun (by simp)
  | void hr₀ _ hv hmax =>
    refine Row.of_put hr hr₀ rfl (fun _ => rfl) ?_
    rintro rfl
    exact .checked rfl (by rw [Request.gate, Db.id_of_invoice hr₀, hv]) hmax nofun (by simp)
  | pay_start hr₀ hrow hfresh hkr =>
    refine Row.of_put hr hr₀.1 rfl (fun _ => rfl) ?_
    rintro rfl
    refine .checked rfl ?_ (hr₀.2.2.1 ▸ hr₀.2.2.2.1) nofun (by simp [hrow])
    rw [Request.gate, Db.id_of_invoice hr₀.1, hr₀.2.2.1]
  | pay_record hb hrow hr₀ hmax =>
    refine Row.of_put hr hr₀ rfl (fun _ => rfl) ?_
    rintro rfl
    obtain ⟨row', hrow', hi, -⟩ := hb.attempt
    refine .recorded hrow' (hi.trans (Db.id_of_invoice hr₀).symm) hmax (Outcome.state_ne_draft _)
      (List.mem_cons_self ..) ?_
    rw [Outcome.record_status]
    exact Outcome.status_ne_pending _
  | pay_leave => exact ⟨r, hr, .same⟩
  | retry hrow => exact ⟨r, hr, .same⟩
  | settle hrow hr₀ =>
    refine Row.of_put hr hr₀ rfl (fun _ => rfl) ?_
    rintro rfl
    exact .settled hrow (Db.id_of_invoice hr₀).symm (Outcome.state_ne_draft _)
  | settle_only hrow => exact ⟨r, hr, .same⟩
  | customer => exact ⟨r, hr, .same⟩
  | endpoint => exact ⟨r, hr, .same⟩
  | deactivate => exact ⟨r, hr, .same⟩
  | delivery => exact ⟨r, hr, .same⟩
  | report => exact ⟨r, hr, .same⟩

end Payman
