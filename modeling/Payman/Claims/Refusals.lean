import Payman.Claims.KeyWindow

/-! Why a request is refused, and what it is told.

    Each of the four requests folds the owner, the state and the version of the invoice into its
    statements in its own way. What an empty result stands for then depends on the request, and the
    error is the documented one only in the cases of `Clear`. -/

namespace Payman
open Schemes

variable {p : Pid} {w w' : World} {b i : Uuid} {db : Db} {e : AppError}

/-- A request to change an invoice. -/
inductive Ask where
  | edit (req : EditInvoiceRequest)
  | finalize (req : FinalizeInvoiceRequest)
  | void (req : VoidInvoiceRequest)
  | pay (idempotency_key : String) (req : PayInvoiceRequest)

namespace Ask

def versioning : Ask → Int32
  | edit req => req.versioning
  | finalize req => req.versioning
  | void req => req.versioning
  | pay _ req => req.versioning

/-- The states in which the request is documented to be possible. -/
def permits : Ask → InvoiceState → Bool
  | edit _, s => s = .Draft
  | finalize _, s => s = .Draft
  | void _, s => s = .Draft ∨ s = .Open
  | pay _ _, s => s = .Open

/-- The request, without its answer's body. -/
def program (b i : Uuid) : Ask → App Unit
  | edit req => (fun _ => ()) <$> edit_invoice i b req
  | finalize req => (fun _ => ()) <$> finalize_invoice i b req
  | void req => (fun _ => ()) <$> void_invoice i b req
  | pay k req => (fun _ => ()) <$> pay_invoice i b k req

/-- The key of a payment has never been used for the invoice. -/
def KeyFresh (db : Db) (b i : Uuid) : Ask → Prop
  | pay k _ => db.idempotency_key (k, b, i) = none
  | _ => True

/-- The error is the one that the documentation gives. -/
structure Documented (a : Ask) (db : Db) (b i : Uuid) (e : AppError) : Prop where
  not_found : e = .NotFound ↔ db.own b i = none
  invalid_state_transition : (∃ m, e = .InvalidStateTransition m) ↔
    ∃ r, db.own b i = some r ∧ a.permits r.state = false
  conflict : (∃ m, e = .Conflict m) →
    ∃ r, db.own b i = some r ∧ a.permits r.state = true ∧ r.versioning ≠ a.versioning

/-- The cases in which a refusal is told apart from the others. -/
def Clear (db : Db) (b i : Uuid) : Ask → Prop
  | edit req => (db.own b i = none ∧ ∃ r, Claimable db i req.versioning r) ∨
      ∃ r, db.own b i = some r ∧ r.state = .Draft ∧ r.versioning ≠ req.versioning
  | finalize _ => db.own b i ≠ none
  | void req => db.own b i = none ∨
      ∃ r, db.own b i = some r ∧ r.versioning = req.versioning ∧ r.state ≠ .Open
  | pay _ req => ∃ r, db.own b i = some r ∧ r.state = .Open ∧ r.versioning ≠ req.versioning

/-- No invoice has this state and version. -/
def Misses (db : Db) (i : Uuid) (s : InvoiceState) (v : Int32) : Prop :=
  ∀ r, db.invoice i = some r → ¬(r.state = s ∧ r.versioning = v)

/-- What the code answers, apart from bad input and the last version. -/
def Told (db : Db) (b i : Uuid) (e : AppError) : Ask → Prop
  | edit req => (Misses db i .Draft req.versioning ∧ ∃ m, e = .Conflict m) ∨
      (e = .NotFound ∧ db.own b i = none ∧ ∃ r, Claimable db i req.versioning r)
  | finalize req => finalize_error db b i req.versioning = some e
  | void req => void_error db b i req.versioning = some e
  | pay _ req => Misses db i .Open req.versioning ∧ ∃ m, e = .Conflict m

end Ask

/-- The error is about the invoice: not about the body of the request, and not about the limit of
    the version column. -/
def AppError.AboutInvoice (e : AppError) : Prop :=
  ¬e.IsBadRequest ∧ e ≠ .Database .NumericValueOutOfRange

namespace Ask
variable {a : Ask} {l : Durable} {since : DateTime}

/-- What a fair run on its own is told. -/
theorem told (h : Stage p l none since w) (hkey : a.KeyFresh l.db b i) :
    Leaves p (Fair p) (fun _ _ => True) (fun e _ => e.AboutInvoice → a.Told l.db b i e)
      (a.program b i) w := by
  cases a with
  | edit req =>
    refine .map (.imp (edit_invoice_leaves h) (fun _ _ _ => trivial) fun e w' hbad hab => ?_)
    rcases hbad with ⟨hbad, -⟩ | ⟨r, t, hr, -, hbad, -⟩
    · obtain ⟨-, hreq⟩ | ⟨hno, hm⟩ | ⟨-, hmax⟩ := hbad Fair.calm
      · exact absurd hreq hab.1
      · exact .inl ⟨fun r hr hc => hno r hr hc.symm, hm⟩
      · exact absurd hmax hab.2
    · obtain ⟨hnone, rfl⟩ | ⟨r', hr', ⟨hne, -⟩ | ⟨hreq, -⟩⟩ := hbad Fair.calm Fair.draws
      · refine .inr ⟨rfl, Option.eq_none_iff_forall_ne_some.mpr fun r' hr' => ?_, r, hr⟩
        obtain ⟨hrow, hb⟩ := Db.own_eq_some.mp hr'
        cases hr.row.symm.trans hrow
        cases hnone.symm.trans (hr.own.mpr ⟨hb, rfl⟩)
      · obtain ⟨-, rfl⟩ := hr.own.mp hr'
        exact absurd hr.draft hne
      · exact absurd hreq hab.1
  | finalize req =>
    exact .map (.imp (finalize_invoice_leaves h) (fun _ _ _ => trivial) fun e _ hbad _ =>
      hbad.1 Fair.calm)
  | void req =>
    exact .map (.imp (void_invoice_leaves h) (fun _ _ _ => trivial) fun e _ hbad _ =>
      hbad.1 Fair.calm)
  | pay k req =>
    have hkey : l.db.idempotency_key (k, b, i) = none := hkey
    refine .map (.imp (pay_invoice_leaves h fun kr hkr => by cases hkey.symm.trans hkr)
      (fun _ _ _ => trivial) fun e _ hbad hab => ?_)
    rcases hbad with ⟨hbad, -⟩ | ⟨hbad, -⟩
    · obtain ⟨hno, hm⟩ | ⟨-, hmax⟩ | hused := hbad Fair.calm Fair.draws_attempts
      · exact ⟨hno, hm⟩
      · exact absurd hmax hab.2
      · exact absurd hkey hused
    · exact absurd (hbad Fair.calm) hab.2

/-- A conflict is the documented error for a stale version only. -/
theorem conflict_documented {m : String} : a.Documented db b i (.Conflict m) ↔
    ∃ r, db.own b i = some r ∧ a.permits r.state = true ∧ r.versioning ≠ a.versioning := by
  refine ⟨fun h => h.conflict ⟨m, rfl⟩, fun ⟨r, hr, hs, hv⟩ => ⟨?_, ?_, fun _ => ⟨r, hr, hs, hv⟩⟩⟩
  · rw [hr]
    exact ⟨nofun, nofun⟩
  · refine ⟨nofun, fun ⟨r', hr', hs'⟩ => ?_⟩
    cases hr.symm.trans hr'
    cases hs.symm.trans hs'

theorem not_found_documented : a.Documented db b i .NotFound ↔ db.own b i = none := by
  refine ⟨fun h => h.not_found.mp rfl, fun h => ⟨⟨fun _ => h, fun _ => rfl⟩, ?_, nofun⟩⟩
  refine ⟨nofun, fun ⟨r, hr, _⟩ => ?_⟩
  cases h.symm.trans hr

theorem invalid_documented {m : String} : a.Documented db b i (.InvalidStateTransition m) ↔
    ∃ r, db.own b i = some r ∧ a.permits r.state = false := by
  refine ⟨fun h => h.invalid_state_transition.mp ⟨m, rfl⟩, fun h => ⟨⟨nofun, fun hnone => ?_⟩,
    ⟨fun _ => h, fun _ => ⟨m, rfl⟩⟩, nofun⟩⟩
  obtain ⟨r, hr, -⟩ := h
  cases hnone.symm.trans hr

theorem not_about_version_error {r : Invoice} (h : version_error r = some e) :
    ¬e.AboutInvoice := by
  rw [version_error] at h
  split at h
  · cases h
    exact fun hab => hab.2 rfl
  · cases h

theorem finalize_documented_iff {req : FinalizeInvoiceRequest}
    (h : finalize_error db b i req.versioning = some e) (hab : e.AboutInvoice) :
    (finalize req).Documented db b i e ↔ db.own b i ≠ none := by
  cases hown : db.own b i with
  | none =>
    rw [finalize_error, hown] at h
    cases h
    refine ⟨fun hdoc => ?_, fun hne => absurd rfl hne⟩
    cases hdoc.not_found.mpr hown
  | some r =>
    refine ⟨fun _ => Option.some_ne_none r, fun _ => ?_⟩
    rw [finalize_error, hown] at h
    dsimp only at h
    split at h
    · rename_i hcan
      cases h
      refine invalid_documented.mpr ⟨r, hown, decide_eq_false fun hs => ?_⟩
      rw [hs] at hcan
      cases hcan
    · rename_i hcan
      split at h
      · rename_i hv
        cases h
        exact conflict_documented.mpr ⟨r, hown, decide_eq_true (check_transition_open hcan), hv⟩
      · exact absurd hab (not_about_version_error h)

theorem void_documented_iff {req : VoidInvoiceRequest}
    (h : void_error db b i req.versioning = some e) (hab : e.AboutInvoice) :
    (void req).Documented db b i e ↔ (void req).Clear db b i := by
  cases hrow : (db.own b i).filter fun r => decide (r.versioning = req.versioning) with
  | none =>
    rw [void_error, hrow] at h
    cases h
    rw [not_found_documented]
    constructor
    · exact .inl
    · rintro (hnone | ⟨r, hr, hv, -⟩)
      · exact hnone
      · rw [hr, Option.filter_some, if_pos (decide_eq_true hv)] at hrow
        cases hrow
  | some r =>
    obtain ⟨hown, hv⟩ := Option.filter_eq_some_iff.mp hrow
    rw [void_error, hrow] at h
    dsimp only at h
    split at h
    · rename_i hcan
      cases h
      rw [transition_error, invalid_documented]
      constructor
      · rintro ⟨r', hr', hs⟩
        cases hown.symm.trans hr'
        exact .inr ⟨r, hown, of_decide_eq_true hv, fun hopen => of_decide_eq_false hs (.inr hopen)⟩
      · rintro (hnone | ⟨r', hr', -, hs⟩)
        · cases hnone.symm.trans hown
        · cases hown.symm.trans hr'
          refine ⟨r, hown, decide_eq_false fun hperm => ?_⟩
          rcases hperm with hdraft | hopen
          · rw [hdraft] at hcan
            cases hcan
          · exact hs hopen
    · exact absurd hab (not_about_version_error h)

theorem documented_iff_clear (h : a.Told db b i e) (hab : e.AboutInvoice) :
    a.Documented db b i e ↔ a.Clear db b i := by
  cases a with
  | edit req =>
    rcases h with ⟨hmiss, m, rfl⟩ | ⟨rfl, hnone, hr⟩
    · rw [conflict_documented]
      constructor
      · rintro ⟨r, hr, hs, hv⟩
        exact .inr ⟨r, hr, of_decide_eq_true hs, hv⟩
      · rintro (⟨-, r, hr⟩ | ⟨r, hr, hs, hv⟩)
        · exact absurd ⟨hr.draft, hr.version⟩ (hmiss r hr.row)
        · exact ⟨r, hr, decide_eq_true hs, hv⟩
    · rw [not_found_documented]
      exact ⟨fun _ => .inl ⟨hnone, hr⟩, fun _ => hnone⟩
  | finalize req => exact finalize_documented_iff h hab
  | void req => exact void_documented_iff h hab
  | pay k req =>
    obtain ⟨hmiss, m, rfl⟩ := h
    rw [conflict_documented]
    constructor
    · rintro ⟨r, hr, hs, hv⟩
      exact ⟨r, hr, of_decide_eq_true hs, hv⟩
    · rintro ⟨r, hr, hs, hv⟩
      exact ⟨r, hr, decide_eq_true hs, hv⟩

/-- CORRECT (documented refusals): a request to edit, finalize, void or pay, on its own and with a
    database that works, has an answer wherever nobody is in a transaction; and if it is refused for
    the invoice's sake, the error is the documented one exactly if the case is clear. -/
theorem refusal_documented_iff (a : Ask) (htx : w.tx p = none) (hkey : a.KeyFresh w.db b i) :
    (w.Quiet → ∀ f : ℕ → Choice, ∃ n w' answer,
      (a.program b i).run.run (World.exec p) ((List.range n).map f) w = some (w', answer)) ∧
    ∀ cs w' e, Fairly p (a.program b i) cs w →
      (a.program b i).run.run (World.exec p) cs w = some (w', .error e) → e.AboutInvoice →
      (a.Documented w.db b i e ↔ a.Clear w.db b i) := by
  refine ⟨fun h f => h.returns _ f, fun cs w' e hcs hrun hab => ?_⟩
  have htold : e.AboutInvoice → a.Told w.db b i e :=
    Leaves.of_run (told (World.staged htx) hkey) hcs hrun
  exact documented_iff_clear (htold hab) hab

/-- An open invoice is finalized again. -/
theorem refusal_documented_iff_finalize : ∃ σ ∈ Sys.initial.steps Sys.opened,
    ∃ x ∈ ((finalize ⟨2⟩).program 1 20).run.run (World.exec (.call 9)) (apart 5) σ.world,
    ∃ e, x.2 = .error e ∧ (finalize ⟨2⟩).Documented σ.db 1 20 e := by
  obtain ⟨σ, hσ, htx, ⟨r, hr, -⟩, ⟨⟨w', answer⟩, hx, herr⟩, hcs⟩ :
    ∃ σ ∈ Sys.initial.steps Sys.opened, (σ.world.tx (.call 9)).isNone ∧
    (∃ r ∈ σ.db.own 1 20, r.state = .Open) ∧
    (∃ x ∈ ((finalize ⟨2⟩).program 1 20).run.run (World.exec (.call 9)) (apart 5) σ.world,
      x.2 = .error (transition_error .Open .Open)) ∧
    Fairly (.call 9) ((finalize ⟨2⟩).program 1 20) (apart 5) σ.world := by decide +kernel
  obtain rfl : answer = _ := herr
  refine ⟨σ, hσ, _, hx, _, rfl, ((refusal_documented_iff (finalize ⟨2⟩)
    (Option.isNone_iff_eq_none.mp htx) trivial).2 _ _ _ hcs hx ⟨?_, nofun⟩).mpr ?_⟩
  · rintro ⟨m, hm⟩
    cases hm
  · exact fun hnone => by cases hnone.symm.trans hr

/-- An invoice that is not there cannot be finalized: the caller is told of a database error. -/
theorem missing_invoice_database_error : ¬∀ (a : Ask) (p : Pid) (w : World) (b i : Uuid),
    w.tx p = none → a.KeyFresh w.db b i → ∀ cs w' e, Fairly p (a.program b i) cs w →
      (a.program b i).run.run (World.exec p) cs w = some (w', .error e) → e.AboutInvoice →
      a.Documented w.db b i e := by
  obtain ⟨σ, -, htx, hown, ⟨⟨w', answer⟩, hx, herr⟩, hcs⟩ :
    ∃ σ ∈ Sys.initial.steps Sys.opened, (σ.world.tx (.call 9)).isNone ∧ (σ.db.own 1 99).isNone ∧
    (∃ x ∈ ((finalize ⟨1⟩).program 1 99).run.run (World.exec (.call 9)) (apart 5) σ.world,
      x.2 = .error (.Database .RowNotFound)) ∧
    Fairly (.call 9) ((finalize ⟨1⟩).program 1 99) (apart 5) σ.world := by decide +kernel
  obtain rfl : answer = _ := herr
  intro h
  have hdoc := h (finalize ⟨1⟩) _ _ 1 99 (Option.isNone_iff_eq_none.mp htx) trivial _ _ _ hcs hx
    ⟨fun ⟨m, hm⟩ => (by cases hm), nofun⟩
  cases hdoc.not_found.mpr (Option.isNone_iff_eq_none.mp hown)

end Ask

end Payman
