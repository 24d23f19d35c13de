import Payman.Safety.Transitions
import Payman.Safety.Runs

/-! Finalizing, voiding and the table of transitions.

    Each of the two requests names the state it goes to twice, in its check and in its update.
    `finalize_invoice` names the same state both times; `void_invoice` checks the way to Open and
    then writes Void, so it refuses the one state from which the two ways differ. -/

namespace Payman
open Schemes

variable {p : Pid} {w w' : World} {b i : Uuid} {v : Int32}

/-- The two requests. -/
inductive Advance where
  | finalize
  | void
  deriving DecidableEq

namespace Advance

def target : Advance → InvoiceState
  | finalize => .Open
  | void => .Void

def program (b i : Uuid) (v : Int32) : Advance → App Invoice
  | finalize => finalize_invoice i b ⟨v⟩
  | void => void_invoice i b ⟨v⟩

def error (db : Db) (b i : Uuid) (v : Int32) : Advance → Option AppError
  | finalize => finalize_error db b i v
  | void => void_error db b i v

/-- The caller has the invoice at this version, and the table lets it go to the target. -/
def Permitted (a : Advance) (db : Db) (b i : Uuid) (v : Int32) : Prop :=
  ∃ r, db.own b i = some r ∧ r.versioning = v ∧ r.state.can_transition_to a.target = true

/-- From `db` to `db'` the invoice `r` went to the target, and nothing else changed. -/
structure Advanced (a : Advance) (db db' : Db) (r r' : Invoice) : Prop where
  state : r'.state = a.target
  versioning : r'.versioning = r.versioning + 1
  total_cents : r'.total_cents = r.total_cents
  due_date : r'.due_date = r.due_date
  row : db'.invoice r.id = some r'
  others : ∀ j, j ≠ r.id → db'.invoice j = db.invoice j
  rest : db' = { db with invoices := db'.invoices }

/-- The answer to a request on its own is the one that the table asks for. -/
structure Obeys (a : Advance) (b i : Uuid) (v : Int32) (db db' : Db)
    (answer : Except AppError Invoice) : Prop where
  accepts : (∃ r, answer = .ok r) ↔ a.Permitted db b i v
  advanced : ∀ r', answer = .ok r' → ∃ r, db.own b i = some r ∧ a.Advanced db db' r r'
  unchanged : ∀ e, answer = .error e → db' = db

/-- The request is a void of an open invoice at its current version. -/
def VoidsOpen (a : Advance) (db : Db) (b i : Uuid) (v : Int32) : Prop :=
  a = .void ∧ ∃ r, db.own b i = some r ∧ r.versioning = v ∧ r.state = .Open

end Advance

variable {a : Advance} {db : Db} {r r' : Invoice}

theorem Moved.advanced {l : Durable} {since : DateTime}
    (h : Moved p l since b i v a.target r' w') :
    ∃ r, l.db.own b i = some r ∧ r.versioning = v ∧ r.state.can_transition_to .Open = true ∧
      a.Advanced l.db w'.db r r' := by
  obtain ⟨⟨r, t, hr, hv, -, hcan, rfl⟩, hstage⟩ := h
  have hdb : w'.db = { l.db with invoices := l.db.invoices.put (r.moved a.target t) } := by
    rw [hstage.db, Durable.commit_db]
    rfl
  refine ⟨r, hr, hv, hcan, rfl, rfl, rfl, rfl, ?_, fun j hj => ?_, ?_⟩
  · rw [hdb]
    exact (Table.find_put ..).trans (if_pos rfl)
  · rw [hdb]
    exact Table.find_put_ne _ (Ne.symm hj)
  · rw [hdb]

namespace Advance

theorem leaves {l : Durable} {since : DateTime} {allow : Choice → World → Prop}
    (h : Stage p l none since w) :
    Leaves p allow (fun r w' => Moved p l since b i v a.target r w')
      (fun e w' => (Calm allow → a.error l.db b i v = some e) ∧ Stage p l none since w')
      (a.program b i v) w := by
  cases a with
  | finalize => exact finalize_invoice_leaves h
  | void => exact void_invoice_leaves h

/-- The way to Open is the way to the target. -/
theorem permitted_of_open (hr : db.own b i = some r) (hv : r.versioning = v)
    (hcan : r.state.can_transition_to .Open = true) : a.Permitted db b i v := by
  refine ⟨r, hr, hv, ?_⟩
  cases a with
  | finalize => exact hcan
  | void =>
    cases hs : r.state with
    | Draft => rfl
    | _ => rw [hs] at hcan; cases hcan

/-- Only an open invoice can be voided and is refused. -/
theorem error_of_permitted (h : a.Permitted db b i v)
    (hmax : ∀ r, db.own b i = some r → r.versioning ≠ Int32.maxValue)
    (hopen : ¬a.VoidsOpen db b i v) : a.error db b i v = none := by
  obtain ⟨r, hr, hv, hcan⟩ := h
  have hway : r.state.can_transition_to .Open = true := by
    cases a with
    | finalize => exact hcan
    | void =>
      cases hs : r.state with
      | Draft => rfl
      | Open => exact absurd ⟨rfl, r, hr, hv, hs⟩ hopen
      | _ => rw [hs] at hcan; cases hcan
  have hlast : version_error r = none := if_neg (hmax r hr)
  cases a with
  | finalize =>
    show finalize_error db b i v = none
    rw [finalize_error, hr]
    simp [hway, hv, hlast]
  | void =>
    show void_error db b i v = none
    rw [void_error, hr, Option.filter_some, if_pos (decide_eq_true hv)]
    simp [hway, hlast]

/-- CORRECT (the table's transitions): a request to finalize or to void that runs on its own, with a
    database that does not fail and a version below the limit, has an answer wherever nobody is in a
    transaction; and it is accepted exactly as the table says, changing nothing but the state and
    the version of its invoice, exactly if it is not a void of an open invoice. -/
theorem table_obeyed_iff (htx : w.tx p = none)
    (hmax : ∀ r, w.db.own b i = some r → r.versioning ≠ Int32.maxValue) :
    (w.Quiet → ∀ f : ℕ → Choice, ∃ n w' answer,
      (a.program b i v).run.run (World.exec p) ((List.range n).map f) w = some (w', answer)) ∧
    ∀ cs w' answer, (∀ c ∈ cs, c.fail = false) →
      (a.program b i v).run.run (World.exec p) cs w = some (w', answer) →
      (a.Obeys b i v w.db w'.db answer ↔ ¬a.VoidsOpen w.db b i v) := by
  refine ⟨fun h f => h.returns _ f, fun cs w' answer hcs hrun => ?_⟩
  have hstage : Stage p w.durable none w.now w := ⟨rfl, htx, Int.le_refl _⟩
  have hends := Leaves.of_run (leaves hstage) (.of_all hcs) hrun
  have hcalm : Calm fun c _ => c.fail = false := fun _ _ h => h
  cases answer with
  | ok r' =>
    obtain ⟨r, hr, hv, hcan, hadv⟩ := Moved.advanced hends
    refine ⟨fun _ hopen => ?_, fun _ => ?_⟩
    · obtain ⟨-, r₁, hr₁, -, hs⟩ := hopen
      cases hr.symm.trans hr₁
      rw [hs] at hcan
      cases hcan
    · exact ⟨⟨fun _ => permitted_of_open hr hv hcan, fun _ => ⟨r', rfl⟩⟩,
        fun _ heq => by cases heq; exact ⟨r, hr, hadv⟩, nofun⟩
  | error e =>
    obtain ⟨herr, hstage'⟩ := hends
    have herr : a.error w.db b i v = some e := herr hcalm
    refine ⟨fun hobeys ⟨ha, r, hr, hv, hs⟩ => ?_, fun hopen => ?_⟩
    · have hcan : a.Permitted w.db b i v := ⟨r, hr, hv, by rw [ha, hs]; rfl⟩
      obtain ⟨r', hok⟩ := hobeys.accepts.mpr hcan
      cases hok
    · refine ⟨⟨nofun, fun hperm => ?_⟩, nofun, fun _ _ => hstage'.db⟩
      cases (error_of_permitted hperm hmax hopen).symm.trans herr

/-- A draft is voided. -/
theorem table_obeyed_iff_draft : ∃ σ ∈ Sys.initial.steps Sys.issued,
    ∃ x ∈ (program 1 20 1 .void).run.run (World.exec (.call 9)) (List.replicate 5 Sys.calm) σ.world,
    x.2.toOption.isSome ∧ Obeys .void 1 20 1 σ.db x.1.db x.2 := by
  obtain ⟨σ, hσ, htx, ⟨r, hr, hmax, hdraft⟩, x, hx, hok⟩ : ∃ σ ∈ Sys.initial.steps Sys.issued,
    (σ.world.tx (.call 9)).isNone ∧
    (∃ r ∈ σ.db.own 1 20, r.versioning ≠ Int32.maxValue ∧ r.state = .Draft) ∧
    ∃ x ∈ (program 1 20 1 .void).run.run (World.exec (.call 9)) (List.replicate 5 Sys.calm) σ.world,
      x.2.toOption.isSome := by decide +kernel
  have hown : ∀ r', σ.db.own 1 20 = some r' → r' = r := fun r' hr' =>
    Option.some.inj (hr'.symm.trans hr)
  refine ⟨σ, hσ, x, hx, hok, ?_⟩
  refine ((table_obeyed_iff (Option.isNone_iff_eq_none.mp htx) fun r' hr' => ?_).2 _ x.1 x.2 ?_
    hx).mpr ?_
  · exact hown r' hr' ▸ hmax
  · intro c hc
    rw [List.eq_of_mem_replicate hc]
    rfl
  · rintro ⟨-, r', hr', -, hs⟩
    cases (hown r' hr' ▸ hdraft).symm.trans hs

/-- An open invoice is not, although the table says that it can. -/
theorem void_of_open_refused : ¬∀ (a : Advance) (p : Pid) (w : World) (b i : Uuid) (v : Int32),
    w.tx p = none → (∀ r, w.db.own b i = some r → r.versioning ≠ Int32.maxValue) →
    ∀ cs w' answer, (∀ c ∈ cs, c.fail = false) →
      (a.program b i v).run.run (World.exec p) cs w = some (w', answer) →
      a.Obeys b i v w.db w'.db answer := by
  intro h
  obtain ⟨σ, -, htx, ⟨r, hr, hmax, hv, hopen⟩, x, hx, herr⟩ : ∃ σ ∈ Sys.initial.steps Sys.opened,
    (σ.world.tx (.call 9)).isNone ∧
    (∃ r ∈ σ.db.own 1 20, r.versioning ≠ Int32.maxValue ∧ r.versioning = 2 ∧ r.state = .Open) ∧
    ∃ x ∈ (program 1 20 2 .void).run.run (World.exec (.call 9)) (List.replicate 3 Sys.calm) σ.world,
      x.2.toOption.isNone := by decide +kernel
  have hcs : ∀ c ∈ List.replicate 3 Sys.calm, c.fail = false := fun c hc => by
    rw [List.eq_of_mem_replicate hc]
    rfl
  have hobeys := h .void (.call 9) σ.world 1 20 2 (Option.isNone_iff_eq_none.mp htx)
    (fun r' hr' => Option.some.inj (hr'.symm.trans hr) ▸ hmax) _ x.1 x.2 hcs hx
  obtain ⟨r', hr'⟩ := hobeys.accepts.mpr ⟨r, hr, hv, by rw [hopen]; rfl⟩
  rw [hr'] at herr
  cases herr

end Advance

end Payman
