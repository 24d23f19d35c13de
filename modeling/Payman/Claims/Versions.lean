import Payman.Safety.Turns

/-! Optimistic locking.

    The version of an invoice only grows, whatever runs, and a draft is only left together with its
    version. So a request that carries a version is alone in moving the invoice away from it. -/

namespace Payman
open Schemes

variable {K : Setting} {db db' : Db} {past : List Commit} {j : Job} {ws : List Write}

theorem toInt_versioning_succ {v : Int32} (h : v ≠ Int32.maxValue) :
    (v + 1).toInt = v.toInt + 1 := by
  have hlt := v.toInt_lt
  have hle := v.le_toInt
  have hne : v.toInt ≠ 2 ^ 31 - 1 := fun heq => h (Int32.toInt_inj.mp heq)
  rw [Int32.toInt_add, Int.bmod_eq_of_le] <;> simp <;> omega

theorem versioning_lt_succ {v : Int32} (h : v ≠ Int32.maxValue) : v < v + 1 := by
  have hsucc := toInt_versioning_succ h
  rw [Int32.lt_iff_toInt_lt]
  omega

/-! ### Versions along a history -/

/-- `r'` is a later version of the row `r`, or the same. -/
structure Invoice.Ages (r r' : Invoice) : Prop where
  le : r.versioning ≤ r'.versioning
  draft : r'.versioning = r.versioning → r.state = .Draft → r'.state = .Draft

namespace Invoice.Ages
variable {r r' r'' : Invoice}

theorem refl (r : Invoice) : r.Ages r := ⟨Int32.le_refl _, fun _ h => h⟩

theorem trans (h : r.Ages r') (h' : r'.Ages r'') : r.Ages r'' := by
  refine ⟨Int32.le_trans h.le h'.le, fun hv hd => ?_⟩
  have hv' : r'.versioning = r.versioning := Int32.le_antisymm (hv ▸ h'.le) h.le
  exact h'.draft (hv.trans hv'.symm) (h.draft hv' hd)

/-- A row with a higher version. -/
theorem of_lt (h : r.versioning < r'.versioning) : r.Ages r' :=
  ⟨Int32.le_of_lt h, fun hv => absurd (hv ▸ h) Int32.lt_irrefl⟩

end Invoice.Ages

theorem Row.ages {r r' : Invoice} (h : Row K db j ws r r') (hr : db.invoice r.id = some r)
    (hknown : db.ledger.Known) : r.Ages r' := by
  cases h with
  | same => exact .refl r
  | checked _ _ hmax _ _ => exact .of_lt (versioning_lt_succ hmax)
  | content _ => exact ⟨Int32.le_refl _, fun _ h => h⟩
  | recorded _ _ hmax _ _ _ => exact .of_lt (versioning_lt_succ hmax)
  | settled ha hi _ =>
    refine ⟨Int32.le_refl _, fun _ hd => ?_⟩
    obtain ⟨s, hs, hne⟩ := hknown _ _ _ (Db.ledger_attempt ha)
    rw [hi, Db.ledger_state hr, hd] at hs
    exact absurd (Option.some.inj hs).symm hne

/-- In every committed state, attempts belong to invoices that were opened. -/
theorem History.known {job : Pid → Option Job} (h : History K job past db) : db.ledger.Known := by
  induction h with
  | nil => exact nofun
  | cons _ _ he ih => exact ih.turn he.turn

theorem Effect.ages {T : Pid} (h : Effect K T past db j ws) (hknown : db.ledger.Known) {i : Uuid}
    {r : Invoice} (hr : db.invoice i = some r) :
    ∃ r', (applyAll db ws).invoice i = some r' ∧ r.Ages r' :=
  let ⟨r', hr', hrow⟩ := h.row hr
  ⟨r', hr', hrow.ages (Db.id_of_invoice hr ▸ hr) hknown⟩

/-- Rows of earlier commits only get older. -/
theorem History.ages {job : Pid → Option Job} (h : History K job past db) {c : Commit}
    (hc : c ∈ past) {i : Uuid} {r : Invoice} (hr : c.after.invoice i = some r) :
    ∃ r', db.invoice i = some r' ∧ r.Ages r' := by
  induction h with
  | nil => cases hc
  | cons h hp he ih =>
    rcases List.mem_cons.mp hc with rfl | hc
    · exact ⟨r, hr, .refl r⟩
    · obtain ⟨r₁, hr₁, hage⟩ := ih hc
      obtain ⟨r₂, hr₂, hage'⟩ := he.ages h.known hr₁
      exact ⟨r₂, hr₂, hage.trans hage'⟩

/-- The version check sees what is committed: a row that was read earlier is still there, or its
    version is gone. -/
theorem History.ages_before {job : Pid → Option Job} (h : History K job past db) {c : Commit}
    (hc : c ∈ past) {i : Uuid} {r : Invoice} (hr : c.before.invoice i = some r) :
    ∃ r', db.invoice i = some r' ∧ r.Ages r' := by
  obtain ⟨past', j, h', hj, he⟩ := h.of_mem hc
  obtain ⟨r₁, hr₁, hage⟩ := he.ages h'.known hr
  obtain ⟨r₂, hr₂, hage'⟩ := h.ages hc hr₁
  exact ⟨r₂, hr₂, hage.trans hage'⟩

theorem Sys.Run.ages {ok : Sys → Sys.Label → Prop} {σ σ' : Sys} (h : Inv K σ)
    (hok : ∀ σ l, ok σ l → Honours K σ l) (hrun : Sys.Run ok σ σ') {i : Uuid} {r : Invoice}
    (hr : σ.db.invoice i = some r) : ∃ r', σ'.db.invoice i = some r' ∧ r.Ages r' := by
  refine (h.induct hok hrun (motive := fun σ' => ∃ r', σ'.db.invoice i = some r' ∧ r.Ages r')
    ⟨r, hr, .refl r⟩ ?_).2
  rintro σ₁ l σ₂ hinv - - hstep ⟨r₁, hr₁, hage⟩
  cases hstep with
  | quiet hdb _ _ => exact ⟨r₁, hdb ▸ hr₁, hage⟩
  | send p j a card _ hdb _ _ _ => exact ⟨r₁, hdb ▸ hr₁, hage⟩
  | commit p j ws _ hdb _ _ he =>
    obtain ⟨r₂, hr₂, hage'⟩ := he.ages hinv.history.known hr₁
    exact ⟨r₂, hdb ▸ hr₂, hage.trans hage'⟩

/-! ### Exclusivity -/

/-- The commit moves the version of invoice `i`, and does not settle an attempt as the unchecked
    second transaction of a payment does. -/
structure Commit.Checked (c : Commit) (i : Uuid) : Prop where
  moved : ∃ r r', c.before.invoice i = some r ∧ c.after.invoice i = some r' ∧
    r'.versioning ≠ r.versioning
  pending : ∀ row, Write.put_attempt row ∈ c.writes → row.status = .Pending

/-- `c` commits the version-checked UPDATE of a request that carries version `v` for `i`. -/
def Sys.Gates (σ : Sys) (i : Uuid) (v : Int32) (c : Commit) : Prop :=
  (∃ q, σ.job c.pid = some (.call q) ∧ q.gate = some (i, v)) ∧ c.Checked i

/-- The UPDATE finds the version it asks for and leaves a higher one. -/
theorem Effect.gate {T : Pid} {q : Request} {i : Uuid} {v : Int32}
    (h : Effect K T past db (.call q) ws) (hq : q.gate = some (i, v))
    (hc : Commit.Checked ⟨T, db, ws⟩ i) :
    ∃ r r', db.invoice i = some r ∧ r.versioning = v ∧ (applyAll db ws).invoice i = some r' ∧
      v < r'.versioning := by
  obtain ⟨r, r', hr, hr', hne⟩ := hc.moved
  obtain ⟨r₁, hr₁, hrow⟩ := h.row hr
  obtain rfl := Option.some.inj (hr'.symm.trans hr₁)
  refine ⟨r, r', hr, ?_⟩
  cases hrow with
  | same => exact absurd rfl hne
  | content _ => exact absurd rfl hne
  | settled _ _ _ => exact absurd rfl hne
  | recorded _ _ _ _ hput hst => exact absurd (hc.pending _ hput) hst
  | checked hj hgate hmax _ _ =>
    cases hj
    rw [hq, Option.some.injEq, Prod.mk.injEq] at hgate
    obtain ⟨-, rfl⟩ := hgate
    exact ⟨rfl, hr', versioning_lt_succ hmax⟩

theorem History.gates_pairwise {σ : Sys} (h : History K σ.job past db) (i : Uuid) (v : Int32) :
    past.Pairwise fun c' c => ¬(σ.Gates i v c' ∧ σ.Gates i v c) := by
  induction h with
  | nil => exact .nil
  | @cons past db p j ws h hp he ih =>
    refine .cons (fun c hc => ?_) ih
    rintro ⟨⟨⟨q', hq', hg'⟩, hc'⟩, ⟨q, hq, hg⟩, hchk⟩
    obtain rfl := Option.some.inj (hp.symm.trans hq')
    obtain ⟨past', j, -, hj, he'⟩ := h.of_mem hc
    obtain rfl := Option.some.inj (hj.symm.trans hq)
    -- the older of the two has left a version above `v`, and the newer one still finds `v`
    obtain ⟨r, -, hr, hv, -⟩ := he.gate hg' hc'
    obtain ⟨-, r₁, -, -, hr₁, hlt⟩ := he'.gate hg hchk
    obtain ⟨r₂, hr₂, hage⟩ := h.ages hc hr₁
    obtain rfl := Option.some.inj (hr.symm.trans hr₂)
    exact absurd (Int32.lt_of_lt_of_le hlt (hv ▸ hage.le)) Int32.lt_irrefl

/-- CORRECT (optimistic locking): at most one request carrying version `v` ever commits its
    version-checked UPDATE on an invoice. The version never decreases, not even from the largest
    `i32`, and never returns to an earlier value. -/
theorem optimistic_lock_exclusive {σ σ' σ'' : Sys} (h : σ.Reachable)
    (h' : Sys.Run (fun _ _ => True) σ σ') (h'' : Sys.Run (fun _ _ => True) σ' σ'')
    (i : Uuid) (v : Int32) :
    (σ.world.history.Pairwise fun c' c => ¬(σ.Gates i v c' ∧ σ.Gates i v c)) ∧
    (∀ r, σ.db.invoice i = some r →
      ∃ r', σ'.db.invoice i = some r' ∧ r.versioning ≤ r'.versioning) ∧
    ∀ r r' r'', σ.db.invoice i = some r → σ'.db.invoice i = some r' →
      σ''.db.invoice i = some r'' → r''.versioning = r.versioning →
        r'.versioning = r.versioning := by
  have hinv := h.inv
  have hages := fun {σ₁ σ₂ : Sys} (hi : Inv .any σ₁) (hrun : Sys.Run (fun _ _ => True) σ₁ σ₂)
    {r : Invoice} (hr : σ₁.db.invoice i = some r) =>
    Sys.Run.ages hi (fun _ _ _ => .any) hrun hr
  refine ⟨hinv.history.gates_pairwise i v, fun r hr => ?_, fun r r' r'' hr hr' hr'' hv => ?_⟩
  · obtain ⟨r', hr', hage⟩ := hages hinv h' hr
    exact ⟨r', hr', hage.le⟩
  · obtain ⟨r₁, hr₁, hage⟩ := hages hinv h' hr
    obtain rfl := Option.some.inj (hr'.symm.trans hr₁)
    obtain ⟨r₂, hr₂, hage'⟩ := hages (hinv.run (fun _ _ _ => .any) h') h'' hr'
    obtain rfl := Option.some.inj (hr''.symm.trans hr₂)
    exact Int32.le_antisymm (hv ▸ hage'.le) hage.le

/-- Two edits carry version 1; the second one is refused, and a finalization follows. -/
def lock_race : List Sys.Label :=
  Sys.issued ++ [.arrive 2 (.edit_invoice 20 1 ⟨some 5, none, 1⟩),
    .arrive 3 (.edit_invoice 20 1 ⟨some 7, none, 1⟩)] ++ Sys.go (.call 2) 1 ++
  Sys.go (.call 3) 1 ++ Sys.go (.call 2) 7 ++ [.arrive 4 (.finalize_invoice 20 1 ⟨2⟩)] ++
  Sys.go (.call 4) 5

theorem optimistic_lock_race : ∃ σ ∈ Sys.initial.steps lock_race,
    (∃ r ∈ σ.db.invoice 20, r.versioning = 3 ∧ r.due_date = 5) ∧
    σ.world.history.Pairwise fun c' c => ¬(σ.Gates 20 1 c' ∧ σ.Gates 20 1 c) := by
  obtain ⟨σ, hσ, hr⟩ : ∃ σ ∈ Sys.initial.steps lock_race,
    ∃ r ∈ σ.db.invoice 20, r.versioning = 3 ∧ r.due_date = 5 := by decide +kernel
  exact ⟨σ, hσ, hr,
    (optimistic_lock_exclusive (Sys.reachable_of_steps hσ) .refl .refl 20 1).1⟩

end Payman
