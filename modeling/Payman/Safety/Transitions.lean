import Payman.Safety.Leaves

/-! `finalize_invoice` and `void_invoice`, each on its own.

    Which of the checks refuses a request, and with what, is a function of the caller's invoice; a
    request that no check refuses writes the next version of the invoice, in its new state. -/

namespace Payman
open Schemes

variable {p : Pid} {allow : Choice → World → Prop} {w : World} {l : Durable} {since : DateTime}
  {b i : Uuid} {v : Int32} {db : Db}

/-- Invoice `i`, if it belongs to `b`. -/
def Db.own (db : Db) (b i : Uuid) : Option Invoice :=
  (db.invoice i).filter fun r => decide (r.business_id = b)

theorem Db.own_eq_some {r : Invoice} :
    db.own b i = some r ↔ db.invoice i = some r ∧ r.business_id = b := by
  rw [own, Option.filter_eq_some_iff, decide_eq_true_eq]

/-- The next version of an invoice, in another state. -/
def Invoice.moved (r : Invoice) (target : InvoiceState) (t : DateTime) : Invoice :=
  { r with state := target, updated_at := t, versioning := r.versioning + 1 }

/-- The last version has no successor. -/
def version_error (r : Invoice) : Option AppError :=
  if r.versioning = Int32.maxValue then some (.Database .NumericValueOutOfRange) else none

/-- The refusal of `check_transition`. -/
def transition_error (state target_state : InvoiceState) : AppError :=
  .InvalidStateTransition
    ("cannot transition invoice from " ++ state.debug ++ " to " ++ target_state.debug)

/-- How `finalize_invoice` is refused. -/
def finalize_error (db : Db) (b i : Uuid) (v : Int32) : Option AppError :=
  match db.own b i with
  | none => some (.Database .RowNotFound)
  | some r =>
    if r.state.can_transition_to .Open = false then some (transition_error r.state .Open)
    else if r.versioning ≠ v then some (.Conflict "stale invoice version")
    else version_error r

/-- How `void_invoice` is refused. -/
def void_error (db : Db) (b i : Uuid) (v : Int32) : Option AppError :=
  match (db.own b i).filter fun r => decide (r.versioning = v) with
  | none => some .NotFound
  | some r =>
    if r.state.can_transition_to .Open = false then some (transition_error r.state .Open)
    else version_error r

/-- The one row that the request has written: invoice `i` of `b`, moved on from version `v`. -/
structure Moved (p : Pid) (l : Durable) (since : DateTime) (b i : Uuid) (v : Int32)
    (target : InvoiceState) (r' : Invoice) (w' : World) : Prop where
  row : ∃ r t, l.db.own b i = some r ∧ r.versioning = v ∧ r.versioning ≠ Int32.maxValue ∧
    r.state.can_transition_to .Open = true ∧ r' = r.moved target t
  stage : Stage p (l.commit p [.put_invoice r']) none since w'

/-! ### Statements -/

theorem Db.lookup_own : Stmt.lookup db.invoices i (fun r => decide (r.business_id = b)) =
    db.own b i := rfl

theorem Db.lookup_version : Stmt.lookup db.invoices i
    (fun r => decide (r.business_id = b ∧ r.versioning = v)) =
      (db.own b i).filter fun r => decide (r.versioning = v) := by
  rw [Stmt.lookup, own, Option.filter_filter]
  refine congrArg (Option.filter · _) (funext fun r => ?_)
  rw [Bool.decide_and]

theorem run_update_state_stale {t : DateTime} {c : Choice} {target : InvoiceState}
    (h : (db.own b i).filter (fun r => decide (r.versioning = v)) = none) :
    Stmt.run t c db (.update_state target i b v) = .ok ([], none) := by
  rw [Stmt.run, Stmt.update_eq, Db.lookup_version, h]
  rfl

theorem run_update_state_current {t : DateTime} {c : Choice} {target : InvoiceState} {r : Invoice}
    (h : db.own b i = some r) (hv : r.versioning = v) :
    Stmt.run t c db (.update_state target i b v) =
      if r.versioning = Int32.maxValue then .error .NumericValueOutOfRange
      else .ok ([.put_invoice (r.moved target t)], some (r.moved target t)) := by
  rw [Stmt.run, Stmt.update_eq, Db.lookup_version, h, Option.filter_some,
    if_pos (decide_eq_true hv)]
  show ((Stmt.next_i32 r.versioning).map _).map _ = _
  rw [Stmt.next_i32]
  split <;> rfl

/-- The versioned update, in a transaction without writes. -/
theorem update_state_leaves {t : DateTime} {r : Invoice} {target : InvoiceState} {e : AppError}
    {ok : Invoice → World → Prop} {err : AppError → World → Prop}
    (h : Stage p l (some ⟨t, []⟩) since w) (hr : l.db.own b i = some r)
    (hok : ∀ w', r.versioning = v → r.versioning ≠ Int32.maxValue →
      Stage p l (some ⟨t, [.put_invoice (r.moved target t)]⟩) since w' → ok (r.moved target t) w')
    (hstale : ∀ w', r.versioning ≠ v → Stage p l (some ⟨t, []⟩) since w' → err e w')
    (hbad : ∀ e w', (Calm allow → r.versioning = v ∧ version_error r = some e) →
      Stage p l (some ⟨t, []⟩) since w' → err e w') :
    Leaves p allow ok err (do ok_or (← sql (.update_state target i b v)) e) w := by
  by_cases hv : r.versioning = v
  · have hrun : ∀ c, Stmt.run t c l.db (.update_state target i b v) = _ := fun _ =>
      run_update_state_current hr hv
    refine .seq (.sql_within h (fun c err w' hc href h' => hbad _ w' (fun hcalm => ?_) h')
      fun c ws o w' hc hrun' h' => ?_)
    · have herr := hcalm.refused hc href
      rw [applyAll_nil, hrun] at herr
      split at herr
      · rename_i hmax
        cases herr
        exact ⟨hv, if_pos hmax⟩
      · cases herr
    · rw [applyAll_nil, hrun] at hrun'
      split at hrun'
      · cases hrun'
      · rename_i hmax
        cases hrun'
        exact .ok_or nofun fun r' hr' => by cases hr'; exact hok w' hv hmax h'
  · have hstay : (l.db.own b i).filter (fun r => decide (r.versioning = v)) = none := by
      rw [hr, Option.filter_some, if_neg (by simpa using hv)]
    have hrun : ∀ c, Stmt.run t c l.db (.update_state target i b v) = _ := fun _ =>
      run_update_state_stale hstay
    refine .seq (.sql_within h (fun c err w' hc href h' => hbad _ w' (fun hcalm => ?_) h')
      fun c ws o w' hc hrun' h' => ?_)
    · have herr := hcalm.refused hc href
      rw [applyAll_nil, hrun] at herr
      cases herr
    · rw [applyAll_nil, hrun] at hrun'
      cases hrun'
      exact .ok_or (fun _ => hstale w' hv h') nofun

/-! ### The two requests -/

theorem finalize_invoice_leaves {req : FinalizeInvoiceRequest} (h : Stage p l none since w) :
    Leaves p allow (fun r w' => Moved p l since b i req.versioning .Open r w')
      (fun e w' => (Calm allow → finalize_error l.db b i req.versioning = some e) ∧
        Stage p l none since w') (finalize_invoice i b req) w := by
  have hspawn : ∀ r w₁, Moved p l since b i req.versioning .Open r w₁ →
      Leaves p allow (fun r w' => Moved p l since b i req.versioning .Open r w')
        (fun e w' => (Calm allow → finalize_error l.db b i req.versioning = some e) ∧
          Stage p l none since w') (do spawn_dispatch b i "invoice.finalized"; return r) w₁ :=
    fun r w₁ h₁ => .seq (.spawn_dispatch h₁.stage fun w₂ h₂ => ⟨h₁.row, h₂⟩)
  refine .bind (.transaction
    (fun e => Calm allow → finalize_error l.db b i req.versioning = some e) h
    (fun e w' hbad h' => ⟨hbad, h'⟩) (fun c e w' hc hf hcalm => hcalm.never hc hf)
    fun t w₁ ht h₁ => ?_) hspawn
  refine .seq (.query_within h₁ (fun _ => rfl) (fun e w₂ hno h₂ =>
    ⟨fun hcalm => absurd hcalm hno, _, h₂⟩) fun w₂ h₂ => ?_)
  rw [applyAll_nil]
  refine .seq (.ok_or (fun ho => ⟨fun _ => ?_, _, h₂⟩) fun r hr => ?_)
  · rw [finalize_error, show l.db.own b i = none from ho]
  have hr : l.db.own b i = some r := hr
  refine .seq (.reject_if (fun hcan => ⟨fun _ => ?_, _, h₂⟩) fun hcan => ?_)
  · rw [finalize_error, hr]
    exact if_pos hcan
  have herror : finalize_error l.db b i req.versioning =
      if r.versioning ≠ req.versioning then some (.Conflict "stale invoice version")
      else version_error r := by
    rw [finalize_error, hr]
    exact if_neg hcan
  refine update_state_leaves h₂ hr (fun w₃ hv hmax h₃ => ?_) (fun w₃ hv h₃ => ?_)
    fun e w₃ hbad h₃ => ⟨fun hcalm => ?_, _, h₃⟩
  · refine ⟨_, h₃, fun w₄ h₄ => ⟨⟨r, t, hr, hv, hmax, ?_, rfl⟩, h₄⟩⟩
    simpa using hcan
  · exact ⟨fun _ => by rw [herror, if_pos hv], _, h₃⟩
  · obtain ⟨hv, hbad⟩ := hbad hcalm
    rw [herror, if_neg (by simpa using hv), hbad]

theorem void_invoice_leaves {req : VoidInvoiceRequest} (h : Stage p l none since w) :
    Leaves p allow (fun r w' => Moved p l since b i req.versioning .Void r w')
      (fun e w' => (Calm allow → void_error l.db b i req.versioning = some e) ∧
        Stage p l none since w') (void_invoice i b req) w := by
  refine .transaction (fun e => Calm allow → void_error l.db b i req.versioning = some e) h
    (fun e w' hbad h' => ⟨hbad, h'⟩) (fun c e w' hc hf hcalm => hcalm.never hc hf)
    fun t w₁ ht h₁ => ?_
  refine .seq (.query_within h₁ (fun _ => rfl) (fun e w₂ hno h₂ =>
    ⟨fun hcalm => absurd hcalm hno, _, h₂⟩) fun w₂ h₂ => ?_)
  rw [applyAll_nil, Db.lookup_version]
  refine .seq (.ok_or (fun ho => ⟨fun _ => ?_, _, h₂⟩) fun s hs => ?_)
  · rw [void_error, Option.map_eq_none_iff.mp ho]
  obtain ⟨r, hr, rfl⟩ := Option.map_eq_some_iff.mp hs
  have hown := (Option.filter_eq_some_iff.mp hr).1
  have hv : r.versioning = req.versioning := of_decide_eq_true (Option.filter_eq_some_iff.mp hr).2
  refine .seq (.reject_if (fun hcan => ⟨fun _ => ?_, _, h₂⟩) fun hcan => ?_)
  · rw [void_error, hr]
    exact if_pos hcan
  refine update_state_leaves h₂ hown (fun w₃ _ hmax h₃ => ?_) (fun w₃ hne h₃ => absurd hv hne)
    fun e w₃ hbad h₃ => ⟨fun hcalm => ?_, _, h₃⟩
  · refine ⟨_, h₃, fun w₄ h₄ => ⟨⟨r, t, hown, hv, hmax, ?_, rfl⟩, h₄⟩⟩
    simpa using hcan
  · rw [void_error, hr]
    exact (if_neg hcan).trans (hbad hcalm).2

end Payman
