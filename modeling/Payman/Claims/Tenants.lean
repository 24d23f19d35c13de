import Mathlib.Data.Fintype.EquivFin
import Payman.Claims.Versions
import Payman.Safety.Owners

/-! Tenants.

    A request of a business, running alone from any reachable state, leaves the rows of all other
    businesses as they are and charges for none of their invoices, unless it takes one of them: the
    first statement of an edit and that of a payment ask for the state and the version of the
    invoice and not for its owner. -/

namespace Payman
open Schemes

variable {K : Setting} {σ σ' : Sys} {p : Pid} {q : Request}

/-- Only process `p` takes a step. -/
def Alone (p : Pid) (_ : Sys) (l : Sys.Label) : Prop := ∃ c, l = .exec p c

/-- From `σ` to `σ'` the rows of other businesses than `b` have stayed as they are, and process `p`
    has charged for invoices of `b` only. -/
structure Sys.Isolates (σ σ' : Sys) (p : Pid) (b : Uuid) : Prop where
  rows : σ'.db.others b = σ.db.others b
  charges : ∀ ch ∈ σ'.world.charges, ch.pid = p → ∃ row r,
    σ'.db.attempt ch.attempt_id = some row ∧ σ'.db.invoice row.invoice_id = some r ∧
      r.business_id = b

/-- The request takes an invoice of another business: an edit any draft at the version it asks for,
    a payment any open invoice at that version. `Unlocked` is there because the request runs alone: it
    waits forever for a row that another process holds, and then it takes nothing. -/
def World.Crosses (w : World) (p : Pid) : Request → Prop
  | .edit_invoice i b req => ∃ r, w.db.invoice i = some r ∧ r.business_id ≠ b ∧ r.state = .Draft ∧
    r.versioning = req.versioning ∧ r.versioning ≠ Int32.maxValue ∧
    EditChecked req.line_items ∧ w.Unlocked p (.invoice i)
  | .pay_invoice i b (some k) req => ∃ r, Payable (k, b, i) req.versioning w.db r ∧
    r.business_id ≠ b ∧ w.Unlocked p (.invoice i) ∧ w.Unlocked p (.key (k, b, i))
  | _ => False

/-! ### No crossing, no change -/

theorem Started.wrote {past : List Commit} {t : KeyIndex} {a : PaymentAttempt}
    (h : Started past p t a) : ¬∀ c ∈ past, c.pid = p → c.writes = [] := by
  obtain ⟨c, hc, hcp, hs⟩ := h
  obtain ⟨r, row, kr, hws, -⟩ := hs.writes
  intro hpast
  cases hws.symm.trans (hpast c hc hcp)

/-- What a process commits first on an invoice of another business. -/
theorem Effect.crosses {past : List Commit} {w : World} {ws : List Write}
    (h : Effect K p past w.db (.call q) ws) (hpast : ∀ c ∈ past, c.pid = p → c.writes = [])
    (hfree : w.sessions.Free p ws) {i : Uuid} (hi : i ∈ q.taken)
    (hb : w.db.foreign q.business i = true) : ws = [] ∨ w.Crosses p q := by
  obtain ⟨r, hr, hb⟩ := Db.foreign_eq_true.mp hb
  have hsame : ∀ {r' : Invoice}, w.db.invoice i = some r' → r' = r := fun hr' =>
    Option.some.inj (hr'.symm.trans hr)
  cases h with
  | edit_nothing => exact .inl rfl
  | claim_draft hr' hd hv hmax hitems =>
    cases hi
    cases hsame hr'
    refine .inr ⟨r, hr, hb, hd, hv, hmax, hitems, hfree _ ?_⟩
    simp [Db.id_of_invoice hr]
  | edit_due_date hr' hb' =>
    cases hi
    exact absurd (hsame hr' ▸ hb') hb
  | edit_items hr' hb' =>
    cases hi
    exact absurd (hsame hr' ▸ hb') hb
  | pay_start hpay hrow hfresh hkr =>
    cases hi
    cases hsame hpay.1
    refine .inr ⟨r, hpay, hb, hfree _ ?_, hfree _ ?_⟩
    · simp [Db.id_of_invoice hr]
    · simp [hkr, IdempotencyKey.index]
  | pay_record hbegun => exact absurd hpast hbegun.started.wrote
  | pay_leave hbegun => exact absurd hpast hbegun.started.wrote
  | _ => cases hi

theorem World.Crosses.mono {w w' : World} (hdb : w'.db = w.db)
    (hl : ∀ k, w'.Unlocked p k → w.Unlocked p k) (h : w'.Crosses p q) : w.Crosses p q := by
  unfold World.Crosses at h ⊢
  rw [hdb] at h
  split at h
  · obtain ⟨r, hr, hb, hd, hv, hmax, hitems, hi⟩ := h
    exact ⟨r, hr, hb, hd, hv, hmax, hitems, hl _ hi⟩
  · obtain ⟨r, hr, hb, hi, hk⟩ := h
    exact ⟨r, hr, hb, hl _ hi, hl _ hk⟩
  · exact h.elim

/-- What request `q` of process `p` has done since `σ` if it does not cross: it has written nothing
    yet, or it takes no invoice of another business. -/
structure Sys.Minds (σ σ' : Sys) (p : Pid) (q : Request) : Prop extends
    Sys.Isolates σ σ' p q.business where
  job : σ'.job p = some (.call q)
  unlocked : ∀ k, σ'.world.Unlocked p k ↔ σ.world.Unlocked p k
  taken : (σ'.db = σ.db ∧ ∀ c ∈ σ'.world.history, c.pid = p → c.writes = []) ∨
    ∀ i ∈ q.taken, σ'.db.foreign q.business i = false

/-- The step lemma. -/
theorem Sys.Minds.step {σ₁ σ₂ : Sys} {c : Choice} (h : σ.Minds σ₁ p q)
    (hno : ¬σ.world.Crosses p q) (hstep : σ₁.step (.exec p c) = some σ₂)
    (hap : Happens K σ₁ (.exec p c) σ₂) : σ.Minds σ₂ p q := by
  obtain ⟨e, r, hx, hjob⟩ := Sys.exec_of_step hstep
  have hunlocked := fun k => (World.exec_unlocked hx (k := k)).trans (h.unlocked k)
  cases hap with
  | quiet hdb hh hc =>
    refine ⟨⟨hdb ▸ h.rows, ?_⟩, (hjob p).trans h.job, hunlocked, ?_⟩
    · rw [hdb, hc]; exact h.charges
    · rw [hdb, hh]; exact h.taken
  | commit p' j ws hp hdb hh hc he =>
    obtain ⟨rfl, hfree⟩ := Sys.commit_of_exec hstep hh
    obtain rfl := Option.some.inj (hp.symm.trans h.job)
    have htaken : ws = [] ∨ ∀ i ∈ q.taken, σ₁.db.foreign q.business i = false := by
      rcases h.taken with ⟨hdb₁, hpast⟩ | htaken
      · refine or_iff_not_imp_left.mpr fun hws i hi => Bool.eq_false_iff.mpr fun hb => ?_
        rcases he.crosses hpast hfree hi hb with hnil | hcross
        · exact hws hnil
        · exact hno (hcross.mono hdb₁ fun k => (h.unlocked k).mp)
      · exact .inr htaken
    refine ⟨⟨?_, fun ch hch hcp => ?_⟩, (hjob p').trans h.job, hunlocked, ?_⟩
    · rw [hdb]
      rcases htaken with rfl | htaken
      · exact h.rows
      · exact (Write.Own.all (he.own htaken)).1.trans h.rows
    · obtain ⟨row, r₁, hrow, hr₁, hb⟩ := h.charges ch (hc ▸ hch) hcp
      obtain ⟨row', hrow', hi, -⟩ := he.grows.attempt _ row hrow
      obtain ⟨r₂, hr₂, hb'⟩ := he.grows.invoice _ r₁ hr₁
      rw [hdb]
      exact ⟨row', r₂, hrow', hi ▸ hr₂, hb'.trans hb⟩
    · rw [hdb, hh]
      rcases htaken with rfl | htaken
      · refine h.taken.imp_left fun ⟨hdb₁, hpast⟩ => ⟨hdb₁, ?_⟩
        exact List.forall_mem_cons.mpr ⟨fun _ => rfl, hpast⟩
      · exact .inr fun i hi => ((Write.Own.all (he.own htaken)).2 i).trans (htaken i hi)
  | send p' j a card hp hdb hh hc hs =>
    refine ⟨⟨hdb ▸ h.rows, ?_⟩, (hjob p).trans h.job, hunlocked, ?_⟩
    · rw [hdb, hc, List.forall_mem_cons]
      refine ⟨fun hcp => ?_, h.charges⟩
      obtain rfl : p' = p := hcp
      obtain rfl := Option.some.inj (hp.symm.trans h.job)
      cases hs with
      | @charge b i k req a hb hfirst =>
        obtain ⟨row, hrow, hi, -⟩ := hb.attempt
        obtain ⟨r₁, hr₁, -⟩ := hb.invoice
        refine ⟨row, r₁, hrow, hi ▸ hr₁, ?_⟩
        rcases h.taken with ⟨-, hpast⟩ | htaken
        · exact absurd hpast hb.started.wrote
        · exact Db.foreign_eq_false.mp (htaken i rfl) r₁ hr₁
    · rw [hdb, hh]; exact h.taken

/-- A call that has just arrived. -/
theorem Sys.Minds.start {n : ℕ} (h : Inv K σ) (hn : σ.procs (.call n) = none) :
    σ.Minds (σ.start (.call n) (.call q)) (.call n) q where
  rows := rfl
  charges := fun ch hch hp => absurd hp ((h.fresh hn).charges ch hch)
  job := Sys.job_of_procs Sys.set_procs_self
  unlocked := fun _ => .rfl
  taken := .inl ⟨rfl, fun c hc hp => absurd hp ((h.fresh hn).history c hc)⟩

theorem Sys.Reachable.start (h : σ.Reachable) {n : ℕ} (hn : σ.procs (.call n) = none) :
    (σ.start (.call n) (.call q)).Reachable := by
  refine .tail h ⟨.arrive n q, trivial, ?_⟩
  rw [Sys.step, hn]
  rfl

/-- A request that does not cross minds its own business. -/
theorem Sys.Reachable.isolates (h : σ.Reachable) {n : ℕ} (hn : σ.procs (.call n) = none)
    (hno : ¬σ.world.Crosses (.call n) q)
    (hrun : Sys.Run (Alone (.call n)) (σ.start (.call n) (.call q)) σ') :
    σ.Isolates σ' (.call n) q.business := by
  refine ((h.start hn).inv.induct (fun _ _ _ => .any) hrun
    (motive := fun σ' => σ.Minds σ' (.call n) q) (.start h.inv hn) ?_).2.toIsolates
  rintro σ₁ l σ₂ - ⟨c, rfl⟩ hstep hap hm
  exact hm.step hno hstep hap

/-! ### Crossing changes a row -/

/-- Only finitely many locks are held. -/
theorem Sys.Reachable.locks (h : σ.Reachable) :
    ∃ L : List LockKey, ∀ k, σ.world.sessions.owner k ≠ none → k ∈ L := by
  induction h with
  | refl => exact ⟨[], fun k hk => absurd rfl hk⟩
  | tail _ hs ih =>
    obtain ⟨L, hL⟩ := ih
    obtain ⟨l, -, hstep⟩ := hs
    cases Sys.moves hstep with
    | start p j _ _ _ => exact ⟨L, hL⟩
    | exec p c hl j e k w r hp hx =>
      obtain ⟨L', hL'⟩ := World.exec_owner hx
      refine ⟨L ++ L', fun k hk => List.mem_append.mpr ?_⟩
      rcases hL' k with heq | ⟨-, hnone | ⟨-, hmem⟩⟩
      · exact .inl (hL k (heq ▸ hk))
      · exact absurd hnone hk
      · exact .inr hmem
    | kill p hl j e k hp =>
      refine ⟨L, fun k hk => hL k fun hnone => ?_⟩
      rcases World.released_cases _ p k with heq | ⟨-, heq⟩
      · exact hk (heq.trans hnone)
      · exact hk heq

/-- There is always an id that no attempt has and nobody is about to insert. -/
theorem Sys.Reachable.unused_attempt (h : σ.Reachable) :
    ∃ a, σ.db.attempt a = none ∧ σ.world.sessions.owner (.attempt a) = none := by
  obtain ⟨L, hL⟩ := h.locks
  obtain ⟨a, ha⟩ := Infinite.exists_notMem_finset ((σ.db.payment_attempts.rows.map (·.id) ++
    L.filterMap fun k => match k with | .attempt a => some a | _ => none).toFinset)
  rw [List.mem_toFinset, List.mem_append, not_or] at ha
  refine ⟨a, Table.find_eq_none.mpr fun row hrow hk => ha.1 (hk ▸ List.mem_map_of_mem hrow), ?_⟩
  by_contra hne
  exact ha.2 (List.mem_filterMap.mpr ⟨_, hL _ hne, rfl⟩)

/-- From world `w`, process `p` with `x` left of its program can get to a state where `φ` holds. -/
def Sys.Reaches (σ : Sys) (p : Pid) (j : Job) (φ : Db → Prop)
    (x : Prog payman (Except AppError Response)) (w : World) : Prop :=
  ∃ σ', Sys.Run (Alone p) (σ.set p ⟨j, some x⟩ w) σ' ∧ φ σ'.db

section
variable {j : Job} {φ : Db → Prop} {w w' : World}

theorem Sys.Reaches.done {x : Prog payman (Except AppError Response)} (h : φ w.db) :
    σ.Reaches p j φ x w := ⟨_, .refl, h⟩

theorem Sys.Reaches.op {e : Eff} {k : e.Reply → Prog payman (Except AppError Response)}
    {c : Choice} {r : e.Reply} (hx : w.exec p e c = some (w', r))
    (h : σ.Reaches p j φ (k r) w') : σ.Reaches p j φ (.op e k) w := by
  obtain ⟨σ', hrun, hφ⟩ := h
  refine ⟨σ', .head ⟨.exec p c, ⟨c, rfl⟩, ?_⟩ hrun, hφ⟩
  simp only [Sys.step, Sys.set_procs_self, Sys.set_world, hx, Option.map_some, Option.some.injEq]
  rw [Sys.set, Sys.set, Sys.set, Function.update_idem]

end

theorem check_line_items_pass : ∀ {items : List CreateLineItemRequest},
    (∀ item ∈ items, 0 < item.quantity ∧ 0 < item.unit_amount_cents) →
    check_line_items items = pure ()
  | [], _ => rfl
  | item :: items, h => by
    rw [List.forall_mem_cons] at h
    have hq : ¬item.quantity ≤ 0 := Int32.not_le.mpr h.1.1
    have hu : ¬item.unit_amount_cents ≤ 0 := Int64.not_le.mpr h.1.2
    rw [check_line_items, check_line_item, reject_if, reject_if, if_neg hq, if_neg hu,
      check_line_items_pass h.2]
    rfl

theorem check_edit_items_pass {items : Option (List CreateLineItemRequest)}
    (h : EditChecked items) : check_edit_items items = pure () := by
  cases items with
  | none => rfl
  | some l =>
    obtain ⟨hne, hall⟩ := h l rfl
    rw [check_edit_items, reject_if, if_neg hne, check_line_items_pass hall]
    rfl

/-- The first operation of an edit that passes its own checks. -/
theorem edit_invoice_program (i b : Uuid) {req : EditInvoiceRequest}
    (h : EditChecked req.line_items) :
    ∃ next, (Job.call (.edit_invoice i b req)).program.run =
      .op (.sql (.claim_draft i req.versioning)) next := by
  unfold Job.program Request.program Payman.edit_invoice
  simp only [check_edit_items_pass h]
  exact ⟨_, rfl⟩

/-- A changed invoice of another business. -/
theorem Db.others_ne {db db' : Db} {i b : Uuid} {r r' : Invoice} (hr : db.invoice i = some r)
    (hb : r.business_id ≠ b) (hr' : db'.invoice i = some r')
    (hb' : r'.business_id = r.business_id) (hv : r.versioning < r'.versioning) :
    db'.others b ≠ db.others b := by
  intro heq
  have hmem : r' ∈ db'.invoices.rows.filter fun r => decide (r.business_id ≠ b) :=
    List.mem_filter.mpr ⟨Table.mem_of_find hr', by simpa [hb'] using hb⟩
  rw [show db'.invoices.rows.filter _ = _ from congrArg Rows.invoices heq] at hmem
  have hfind := Table.find_of_mem (List.mem_of_mem_filter hmem)
  rw [key_invoice, Db.id_of_invoice hr'] at hfind
  obtain rfl := Option.some.inj (hr.symm.trans hfind)
  exact absurd hv Int32.lt_irrefl

/-- An edit of another business's draft commits with its first statement. -/
theorem Sys.reaches_edit {i b : Uuid} {req : EditInvoiceRequest} (hidle : Idle p σ.world)
    (h : σ.world.Crosses p (.edit_invoice i b req)) :
    σ.Reaches p (.call (.edit_invoice i b req)) (fun db => db.others b ≠ σ.db.others b)
      (Job.call (.edit_invoice i b req)).program.run σ.world := by
  obtain ⟨r, hr, hb, hd, hv, hmax, hitems, hlock⟩ := h
  obtain ⟨next, hprog⟩ := edit_invoice_program i b hitems
  have hid := Db.id_of_invoice hr
  rw [hprog, ← hv]
  obtain ⟨w, hx, hdb⟩ := World.exec_autocommit (c := Sys.calm) hidle rfl (by simp)
    (fun k hk => by simp [hid] at hk; exact hk ▸ hlock) (Stmt.run_claim_draft_of hr hd hmax)
  refine .op hx (.done ?_)
  rw [hdb]
  exact Db.others_ne hr hb ((Table.find_put ..).trans (if_pos hid)) rfl (versioning_lt_succ hmax)

/-- A payment of another business's open invoice commits its first transaction. -/
theorem Sys.reaches_pay {i b : Uuid} {k : String} {req : PayInvoiceRequest}
    (hidle : Idle p σ.world) (h : σ.world.Crosses p (.pay_invoice i b (some k) req))
    (hfresh : ∃ a, σ.db.attempt a = none ∧ σ.world.sessions.owner (.attempt a) = none) :
    σ.Reaches p (.call (.pay_invoice i b (some k) req)) (fun db => db.others b ≠ σ.db.others b)
      (Job.call (.pay_invoice i b (some k) req)).program.run σ.world := by
  obtain ⟨r, hpay, hb, hlock, hkey⟩ := h
  obtain ⟨a, ha, halock⟩ := hfresh
  have hr := hpay.1
  have hid : r.id = i := Db.id_of_invoice hr
  -- the lookup of the key, and the transaction with the UPDATE of the invoice
  have hx₁ := World.exec_query (s := .select_response (k, b, i)) (c := Sys.calm) hidle rfl
    (Stmt.run_select_response_of hpay.2.2.2.2)
  obtain ⟨w₂, t, hx₂, htx₂, hdb₂⟩ := World.exec_begin (w := σ.world.elapse 0) (p := p)
    (c := Sys.calm) rfl
  have hfree₂ : ∀ k, w₂.Unlocked p k ↔ σ.world.Unlocked p k := fun _ => World.exec_unlocked hx₂
  obtain ⟨r₁, hrun₃, hid₁, hb₁, hv₁⟩ : ∃ r₁ : Invoice, Stmt.run t Sys.calm w₂.db
      (.claim_open i req.versioning) = .ok ([.put_invoice r₁], (1 : ℕ)) ∧ r₁.id = i ∧
      r₁.business_id = r.business_id ∧ r.versioning < r₁.versioning :=
    ⟨_, Stmt.run_claim_open_of (t := (k, b, i)) (hdb₂ ▸ hpay), hid, rfl,
      versioning_lt_succ (hpay.2.2.1 ▸ hpay.2.2.2.1)⟩
  obtain ⟨w₃, hx₃, htx₃, hdb₃⟩ := World.exec_stage (c := Sys.calm) htx₂ rfl
    (fun k hk => by simp [hid₁] at hk; exact hk ▸ (hfree₂ _).mpr hlock) hrun₃
  have hfree₃ := fun k => (World.exec_unlocked hx₃ (k := k)).trans (hfree₂ k)
  have hdb₃ : w₃.db = σ.db := hdb₃.trans hdb₂
  -- the attempt and the record of the key
  have hx₄ : w₃.exec p .new_v4 { Sys.calm with uuid := a } = some (w₃.elapse 0, a) := rfl
  obtain ⟨row, hrun₅, hrow⟩ : ∃ row : AttemptRow, Stmt.run t Sys.calm
      (applyAll w₃.db [Write.put_invoice r₁]) (.insert_attempt a i req.card_token) =
        .ok ([.put_attempt row], row.toPaymentAttempt) ∧ row.id = a :=
    Stmt.run_insert_attempt_of (hdb₃ ▸ ha) ((Table.find_put ..).trans (if_pos hid₁))
  obtain ⟨w₅, hx₅, htx₅, hdb₅⟩ := World.exec_stage (w := w₃.elapse 0) htx₃ rfl
    (fun k hk => by simp [hrow] at hk; exact hk ▸ (hfree₃ _).mpr (.inl halock)) hrun₅
  have hfree₅ := fun k => (World.exec_unlocked hx₅ (k := k)).trans (hfree₃ k)
  have hdb₅ : w₅.db = σ.db := hdb₅.trans hdb₃
  obtain ⟨kr, hrun₆, hkr⟩ : ∃ kr : IdempotencyKey, Stmt.run t Sys.calm
      (applyAll w₅.db [Write.put_invoice r₁, .put_attempt row])
      (.insert_key (k, b, i) 0 row.to_value) = .ok ([.put_key kr], (1 : ℕ)) ∧
        kr.index = (k, b, i) :=
    Stmt.run_insert_key_of (hdb₅ ▸ hpay.2.2.2.2) ((Table.find_put ..).trans (if_pos hid₁))
  obtain ⟨w₆, hx₆, htx₆, hdb₆⟩ := World.exec_stage htx₅ rfl
    (fun k hk => by simp [hkr] at hk; exact hk ▸ (hfree₅ _).mpr hkey) hrun₆
  obtain ⟨w₇, hx₇, -, hdb₇⟩ := World.exec_commit (c := Sys.calm) htx₆ rfl
  refine .op hx₁ (.op hx₂ (.op hx₃ (.op hx₄ (.op hx₅ (.op hx₆ (.op hx₇ (.done ?_)))))))
  rw [hdb₇]
  have hr₁ : (applyAll w₆.db [Write.put_invoice r₁, .put_attempt row, .put_key kr]).invoice i =
      some r₁ := (Table.find_put ..).trans (if_pos hid₁)
  exact Db.others_ne hr hb hr₁ hb₁ hv₁

/-- A request that crosses can change rows of another business. -/
theorem Sys.Reachable.crosses (h : σ.Reachable) {n : ℕ} (hn : σ.procs (.call n) = none)
    (hc : σ.world.Crosses (.call n) q) :
    ∃ σ', Sys.Run (Alone (.call n)) (σ.start (.call n) (.call q)) σ' ∧
      σ'.db.others q.business ≠ σ.db.others q.business := by
  have hidle := h.inv.idle _ (Sys.head_of_none hn)
  cases q with
  | edit_invoice i b req => exact Sys.reaches_edit hidle hc
  | pay_invoice i b k req =>
    cases k with
    | none => exact hc.elim
    | some k => exact Sys.reaches_pay hidle hc h.unused_attempt
  | _ => exact hc.elim

/-- CORRECT (tenant isolation): whatever a request of a business does when it runs alone from a
    reachable state, it leaves the rows of all other businesses as they are and charges for none of
    their invoices, if and only if it is not an edit that takes another business's draft, nor a
    payment that takes another business's open invoice. -/
theorem tenants_isolated (h : σ.Reachable) {n : ℕ} (hn : σ.procs (.call n) = none) (q : Request) :
    (∀ σ', Sys.Run (Alone (.call n)) (σ.start (.call n) (.call q)) σ' →
      σ.Isolates σ' (.call n) q.business) ↔ ¬σ.world.Crosses (.call n) q := by
  refine ⟨fun hall hc => ?_, fun hno σ' => h.isolates hn hno⟩
  obtain ⟨σ', hrun, hne⟩ := h.crosses hn hc
  exact hne (hall σ' hrun).rows

/-- Business 2 asks for an edit of a draft of business 1 at a version that the draft is not at. -/
theorem tenants_isolated_stale : ∃ σ ∈ Sys.initial.steps Sys.issued,
    ∀ σ', Sys.Run (Alone (.call 2))
      (σ.start (.call 2) (.call (.edit_invoice 20 2 ⟨some 5, none, 9⟩))) σ' →
        σ.Isolates σ' (.call 2) 2 := by
  obtain ⟨σ, hσ, hn, r, hr, hv⟩ : ∃ σ ∈ Sys.initial.steps Sys.issued,
    (σ.procs (.call 2)).isNone ∧ ∃ r ∈ σ.db.invoice 20, r.versioning = 1 := by decide +kernel
  refine ⟨σ, hσ, (tenants_isolated (Sys.reachable_of_steps hσ) (Option.isNone_iff_eq_none.mp hn)
    (.edit_invoice 20 2 ⟨some 5, none, 9⟩)).mpr ?_⟩
  rintro ⟨r', hr', -, -, hv', -⟩
  obtain rfl := Option.some.inj (hr'.symm.trans hr)
  exact absurd (hv'.symm.trans hv) (by decide)

theorem allowed_go (n : ℕ) : ∀ σ : Sys, σ.Allowed (Alone p) (Sys.go p n) := by
  induction n with
  | zero => exact fun _ => trivial
  | succ n ih => exact fun _ => ⟨⟨_, rfl⟩, fun σ' _ => ih σ'⟩

/-- Business 2 edits a draft of business 1: the call ends with `NotFound`, and the draft has a new
    version. -/
theorem draft_of_other_taken : ¬∀ (σ σ' : Sys) (n : ℕ) (q : Request), σ.Reachable →
    σ.procs (.call n) = none →
    Sys.Run (Alone (.call n)) (σ.start (.call n) (.call q)) σ' →
      σ.Isolates σ' (.call n) q.business := by
  obtain ⟨σ, hσ, hn, σ', hσ', hend, hne⟩ : ∃ σ ∈ Sys.initial.steps Sys.issued,
    (σ.procs (.call 2)).isNone ∧
    ∃ σ' ∈ (σ.start (.call 2) (.call (.edit_invoice 20 2 ⟨some 5, none, 1⟩))).steps
      (Sys.go (.call 2) 4), σ'.head (.call 2) = none ∧ σ'.db.others 2 ≠ σ.db.others 2 := by
    decide +kernel
  intro h
  exact hne (h σ σ' 2 _ (Sys.reachable_of_steps hσ) (Option.isNone_iff_eq_none.mp hn)
    (Sys.run_of_steps hσ' (allowed_go 4 _))).rows

/-- Business 2 pays an open invoice of business 1, and the charge is sent. -/
example : ∃ σ ∈ Sys.initial.steps (Sys.opened ++
    [.arrive 3 (.pay_invoice 20 2 (some "k") ⟨"card", 2⟩)] ++ Sys.go (.call 3) 3 ++
    Sys.fresh (.call 3) 40 ++ Sys.go (.call 3) 4),
    ∃ ch ∈ σ.world.charges, ∃ row ∈ σ.db.attempt ch.attempt_id, ∃ r ∈ σ.db.invoice row.invoice_id,
      r.business_id = 1 := by decide +kernel

end Payman
