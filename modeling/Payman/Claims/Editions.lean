import Payman.Claims.Content
import Payman.Claims.InStep

/-! What a version of an invoice stands for.

    A client sends back the version it has seen, so a version should stand for one state, total, due
    date and list of items. Every version-checked UPDATE raises the version with what it changes,
    and so does the second transaction of a payment. The second transaction of an edit does not, nor
    does the worker: where these change something, the version that was there goes on standing for
    something else. -/

namespace Payman
open Schemes

variable {K : Setting} {T : Pid} {past : List Commit} {db db' db'' : Db} {j : Job}
  {ws : List Write} {i : Uuid}

/-- What an invoice shows: its state, total, due date and items. -/
def Db.shows (db : Db) (i : Uuid) :
    Option (InvoiceState × Int64 × NaiveDate × Multiset LineItem) :=
  (db.invoice i).map fun r =>
    (r.state, r.total_cents, r.due_date, (db.items i : Multiset LineItem))

/-- The commit raises the version of every invoice that it makes show something else. -/
def Commit.Raises (c : Commit) : Prop :=
  ∀ i, ∀ r ∈ c.before.invoice i, c.after.shows i ≠ c.before.shows i →
    ∃ r' ∈ c.after.invoice i, r.versioning < r'.versioning

/-- A job that writes invoices without their version changes nothing that they show: an edit that has
    claimed its draft asks for no items and for the due date that is there, and the worker finds its
    invoice open. The claim is what an edit commits first, and it raises the version. -/
def Commit.Restates (c : Commit) (past : List Commit) : Option Job → Prop
  | some (.call (.edit_invoice i _ req)) => (∃ c' ∈ past, c'.pid = c.pid) →
    ∀ r ∈ c.before.invoice i, req.line_items = none ∧ ∀ d ∈ req.due_date, d = r.due_date
  | some .tick => ∀ r' ∈ c.invoices, ∀ r ∈ c.before.invoice r'.id, r.state = .Open
  | _ => True

instance (c : Commit) (past : List Commit) : ∀ j, Decidable (c.Restates past j)
  | some (.call (.edit_invoice ..)) => inferInstanceAs (Decidable (_ → _))
  | some .tick => inferInstanceAs (Decidable (∀ _ ∈ _, _))
  | some (.call (.create_invoice ..)) | some (.call (.get_invoice ..))
  | some (.call (.list_invoices ..)) | some (.call (.finalize_invoice ..))
  | some (.call (.void_invoice ..)) | some (.call (.pay_invoice ..))
  | some (.call (.create_customer ..)) | some (.call (.get_customer ..))
  | some (.call (.list_customers ..)) | some (.call (.create_endpoint ..))
  | some (.call (.get_endpoint ..)) | some (.call (.list_endpoints ..))
  | some (.call (.delete_endpoint ..)) | some (.dispatch _) | some .deliveries
  | none => isTrue trivial

/-! ### One commit -/

/-- From `db` to `db'` the version of invoice `i` rises, or stays and stands for the same. -/
def Db.Renews (db db' : Db) (i : Uuid) : Prop :=
  ∀ r, db.invoice i = some r → ∃ r', db'.invoice i = some r' ∧
    (r.versioning < r'.versioning ∨
      (r'.versioning = r.versioning ∧ db'.shows i = db.shows i))

theorem Db.Renews.refl : db.Renews db i := fun r hr => ⟨r, hr, .inr ⟨rfl, rfl⟩⟩

theorem Db.Renews.trans (h : db.Renews db' i) (h' : db'.Renews db'' i) : db.Renews db'' i := by
  intro r hr
  obtain ⟨r', hr', hlt | ⟨hv, hs⟩⟩ := h r hr
  · obtain ⟨r'', hr'', hlt' | ⟨hv', -⟩⟩ := h' r' hr'
    · exact ⟨r'', hr'', .inl (Int32.lt_trans hlt hlt')⟩
    · exact ⟨r'', hr'', .inl (hv' ▸ hlt)⟩
  · obtain ⟨r'', hr'', hlt' | ⟨hv', hs'⟩⟩ := h' r' hr'
    · exact ⟨r'', hr'', .inl (hv ▸ hlt')⟩
    · exact ⟨r'', hr'', .inr ⟨hv'.trans hv, hs'.trans hs⟩⟩

/-- Neither the invoice nor any item is written. -/
theorem Db.Renews.of_eq (hr : db'.invoice i = db.invoice i) (hitems : db'.items i = db.items i) :
    db.Renews db' i := by
  intro r h
  refine ⟨r, hr.trans h, .inr ⟨rfl, ?_⟩⟩
  rw [Db.shows, Db.shows, hr, hitems]

/-- One invoice is written, and no item. -/
theorem Db.Renews.of_put {k : Uuid} {r r' : Invoice} (hr : db.invoice k = some r)
    (hput : db'.invoice i = if r'.id = i then some r' else db.invoice i) (hid : r'.id = r.id)
    (hlines : db'.invoice_line_items = db.invoice_line_items)
    (h : r.versioning < r'.versioning ∨ (r'.versioning = r.versioning ∧ r'.state = r.state ∧
      r'.total_cents = r.total_cents ∧ r'.due_date = r.due_date)) : db.Renews db' i := by
  have hitems : db'.items i = db.items i := items_of_eq hlines
  by_cases hi : r'.id = i
  · rw [if_pos hi] at hput
    have hr₀ : db.invoice i = some r := by rw [← hi, hid, Db.id_of_invoice hr]; exact hr
    intro r₁ hr₁
    obtain rfl := Option.some.inj (hr₁.symm.trans hr₀)
    refine ⟨r', hput, ?_⟩
    rcases h with hlt | ⟨hv, hs, ht, hd⟩
    · exact .inl hlt
    · exact .inr ⟨hv, by simp [Db.shows, hput, hr₀, hs, ht, hd, hitems]⟩
  · rw [if_neg hi] at hput
    exact .of_eq hput hitems

/-- CORRECT: an effect of a job that restates renews the version of every invoice. -/
theorem Effect.renews (h : Effect K T past db j ws)
    (hc : Commit.Restates ⟨T, db, ws⟩ past (some j)) (i : Uuid) : db.Renews (applyAll db ws) i := by
  have hinv := Db.invoice_applyAll i ws db
  have hlines := Db.line_items_applyAll ws db
  cases h with
  | @create b k req lines t hfresh hnew =>
    intro r hr
    have hik : k ≠ i := by
      rintro rfl
      cases hfresh.symm.trans hr
    simp only [List.foldl_cons, List.foldl_map, Write.line_items] at hlines
    simp only [List.foldl_cons, Write.row, Write.foldl_row_put_line_items, if_neg hik] at hinv
    exact Db.Renews.of_eq hinv (hnew.items_of_ne nofun (Ne.symm hik) hlines) r hr
  | claim_draft hr _ _ hmax =>
    exact .of_put hr hinv rfl hlines (.inl (versioning_lt_succ hmax))
  | @edit_due_date b k req r d t hr _ _ hd _ hclaimed =>
    obtain ⟨-, hdue⟩ := hc hclaimed r hr
    exact .of_put hr hinv rfl hlines (.inr ⟨rfl, rfl, rfl, hdue d hd⟩)
  | edit_items hr _ _ _ hitems _ _ _ hclaimed =>
    obtain ⟨hnone, -⟩ := hc hclaimed _ hr
    cases hnone.symm.trans hitems
  | finalize hr _ _ hmax => exact .of_put hr hinv rfl hlines (.inl (versioning_lt_succ hmax))
  | void hr _ _ hmax => exact .of_put hr hinv rfl hlines (.inl (versioning_lt_succ hmax))
  | pay_start hr =>
    have hmax := hr.2.2.1 ▸ hr.2.2.2.1
    exact .of_put hr.1 hinv rfl hlines (.inl (versioning_lt_succ hmax))
  | pay_record _ _ hr hmax => exact .of_put hr hinv rfl hlines (.inl (versioning_lt_succ hmax))
  | @settle row r o t hrow hr ho hproc =>
    have hid : db.invoice r.id = some r := Db.id_of_invoice hr ▸ hr
    have hmem : ({ r with state := o.state, updated_at := t } : Invoice) ∈
        Commit.invoices ⟨T, db, [.put_attempt (o.record t row),
          .put_invoice { r with state := o.state, updated_at := t }]⟩ :=
      Commit.mem_invoices.mpr (by simp)
    have hopen : r.state = .Open := hc _ hmem r hid
    cases o with
    | expired => exact .of_put hr hinv rfl hlines (.inr ⟨rfl, hopen.symm, rfl, rfl⟩)
    | succeeded _ | failed _ => cases hopen.symm.trans (hproc nofun)
  | _ => exact .of_eq rfl (items_of_eq rfl)

/-- A commit that renews every version raises those of the invoices that it changes. -/
theorem Commit.raises_of_renews {c : Commit} (h : ∀ i, c.before.Renews c.after i) : c.Raises := by
  intro i r hr hne
  obtain ⟨r', hr', hlt | ⟨-, hs⟩⟩ := h i r hr
  · exact ⟨r', hr', hlt⟩
  · exact absurd hs hne

/-! ### Runs -/

variable {σ σ' : Sys}

/-- What the step commits leaves alone what versions stand for, or raises them. -/
def Sys.Restates (σ : Sys) (l : Sys.Label) : Prop :=
  ∀ c ∈ σ.commits l, c.Restates σ.world.history (σ.job c.pid)

instance (σ : Sys) (l : Sys.Label) : Decidable (σ.Restates l) :=
  inferInstanceAs (Decidable (∀ _ ∈ _, _))

/-- Versions are renewed all along a run. -/
theorem Inv.renews {ok : Sys → Sys.Label → Prop} (h : Inv .any σ)
    (hok : ∀ σ l, ok σ l → σ.Restates l) (hrun : Sys.Run ok σ σ') (i : Uuid) :
    σ.db.Renews σ'.db i := by
  refine (h.induct (fun _ _ _ => .any) hrun (motive := fun σ' => σ.db.Renews σ'.db i)
    .refl ?_).2
  intro σ₁ l σ₂ _ hl hstep hap ih
  cases hap with
  | quiet hdb _ _ => exact hdb ▸ ih
  | send p j a card _ hdb _ _ _ => exact hdb ▸ ih
  | commit p j ws hp hdb hh _ he =>
    have hc := hok σ₁ l hl _ (Sys.commits_of_step hstep hh)
    rw [hp] at hc
    exact hdb ▸ ih.trans (he.renews hc i)

/-- Every commit of such a run raises the versions that it has to raise. -/
theorem Sys.Run.raises (hrun : Sys.Run Sys.Restates .initial σ) :
    ∀ c ∈ σ.world.history, c.Raises := by
  refine (Inv.initial.induct (K := .any) (fun _ _ _ => .any) hrun
    (motive := fun σ => ∀ c ∈ σ.world.history, c.Raises) nofun ?_).2
  intro σ₁ l σ₂ _ hl hstep hap ih c hc
  cases hap with
  | quiet _ hh _ => exact ih c (hh ▸ hc)
  | send p j a card _ _ hh _ _ => exact ih c (hh ▸ hc)
  | commit p j ws hp _ hh _ he =>
    rw [hh] at hc
    rcases List.mem_cons.mp hc with rfl | hc
    · have hre := hl _ (Sys.commits_of_step hstep hh)
      rw [hp] at hre
      exact Commit.raises_of_renews (he.renews hre)
    · exact ih c hc

/-- CORRECT (a version stands for one content): in a run in which edits and the worker change
    nothing that an invoice shows without its version, every commit raises the version of each
    invoice that it makes show something else, and two committed states with the same version of an
    invoice show the same of it. -/
theorem version_shows_one_content (hrun : Sys.Run Sys.Restates .initial σ)
    (hrun' : Sys.Run Sys.Restates σ σ') :
    (∀ c ∈ σ'.world.history, c.Raises) ∧
    ∀ i, ∀ r ∈ σ.db.invoice i, ∀ r' ∈ σ'.db.invoice i, r'.versioning = r.versioning →
      σ'.db.shows i = σ.db.shows i := by
  refine ⟨Sys.Run.raises (hrun.trans hrun'), fun i r hr r' hr' hv => ?_⟩
  have hinv : Inv .any σ := Inv.initial.run (fun _ _ _ => .any) hrun
  obtain ⟨r'', hr'', hlt | ⟨-, hs⟩⟩ := hinv.renews (fun _ _ h => h) hrun' i r hr
  · obtain rfl := Option.some.inj (hr''.symm.trans hr')
    rw [hv] at hlt
    exact absurd hlt Int32.lt_irrefl
  · exact hs

/-- An edit that asks for the due date that is there, then a finalization and a payment that goes
    through. -/
def restated : List Sys.Label :=
  Sys.issued ++ [.arrive 2 (.edit_invoice 20 1 ⟨some 0, none, 1⟩)] ++ Sys.go (.call 2) 1

def restated_paid : List Sys.Label :=
  Sys.go (.call 2) 7 ++ [.arrive 3 (.finalize_invoice 20 1 ⟨2⟩)] ++ Sys.go (.call 3) 5 ++
  Sys.pays 4 "k" 3 40 ++
  Sys.answered (.call 4) (.response 200 (some ⟨"succeeded", some "ref", none⟩)) ++
  Sys.go (.call 4) 6

theorem version_shows_one_content_paid : ∃ σ ∈ Sys.initial.steps restated,
    ∃ σ' ∈ σ.steps restated_paid,
    (∃ r ∈ σ'.db.invoice 20, r.state = .Paid ∧ r.versioning = 5) ∧
    (∀ c ∈ σ'.world.history, c.Raises) ∧
    ∀ i, ∀ r ∈ σ.db.invoice i, ∀ r' ∈ σ'.db.invoice i, r'.versioning = r.versioning →
      σ'.db.shows i = σ.db.shows i := by
  obtain ⟨hok, σ, hσ, σ', hσ', hr⟩ : Sys.initial.Allowed Sys.Restates (restated ++ restated_paid) ∧
    ∃ σ ∈ Sys.initial.steps restated, ∃ σ' ∈ σ.steps restated_paid,
    ∃ r ∈ σ'.db.invoice 20, r.state = .Paid ∧ r.versioning = 5 := by decide +kernel
  obtain ⟨hall, hall'⟩ := hok.append
  exact ⟨σ, hσ, σ', hσ', hr,
    version_shows_one_content (Sys.run_of_steps hσ hall) (Sys.run_of_steps hσ' (hall' σ hσ))⟩

/-- An edit has taken version 2 when it moves the due date. -/
def edit_claimed : List Sys.Label :=
  Sys.issued ++ [.arrive 2 (.edit_invoice 20 1 ⟨some 5, none, 1⟩)] ++ Sys.go (.call 2) 1

theorem version_shows_two_contents : ¬∀ σ σ' : Sys, σ.Reachable →
    Sys.Run (fun _ _ => True) σ σ' →
    (∀ c ∈ σ'.world.history, c.Raises) ∧
    ∀ i, ∀ r ∈ σ.db.invoice i, ∀ r' ∈ σ'.db.invoice i, r'.versioning = r.versioning →
      σ'.db.shows i = σ.db.shows i := by
  obtain ⟨σ, hσ, σ', hσ', r, hr, r', hr', hv, hne⟩ : ∃ σ ∈ Sys.initial.steps edit_claimed,
    ∃ σ' ∈ σ.steps (Sys.go (.call 2) 7), ∃ r ∈ σ.db.invoice 20, ∃ r' ∈ σ'.db.invoice 20,
      r'.versioning = r.versioning ∧ r'.due_date ≠ r.due_date := by decide +kernel
  intro h
  obtain ⟨-, hsame⟩ := h σ σ' (Sys.reachable_of_steps hσ)
    (Sys.run_of_steps hσ' (Sys.Allowed.always _ _))
  have hshow := hsame 20 r hr r' hr' hv
  rw [Db.shows, Db.shows, Option.mem_def.mp hr, Option.mem_def.mp hr'] at hshow
  simp only [Option.map_some, Option.some.injEq, Prod.mk.injEq] at hshow
  exact hne hshow.2.2.1

end Payman
