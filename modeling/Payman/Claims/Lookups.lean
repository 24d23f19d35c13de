import Mathlib.Algebra.BigOperators.Group.List.Basic
import Payman.Claims.Content
import Payman.Schemes.Protocol

/-! What a lookup of an invoice returns.

    The row and the items are read by two statements outside a transaction, so each sees what has
    been committed when it runs. They belong together unless items of the invoice are committed
    between the two. `Lookup` says where a lookup is in this. -/

namespace Payman
open Schemes

/-- The total of the items that are returned. -/
def InvoiceResult.items_total (res : InvoiceResult) : ℤ :=
  (res.line_items.map fun x => x.quantity.toInt * x.unit_amount_cents.toInt).sum

/-- Row and items are those of invoice `i` in `db`. -/
structure InvoiceResult.Of (res : InvoiceResult) (i : Uuid) (db : Db) : Prop where
  invoice : db.invoice i = some res.invoice
  line_items : res.line_items.Perm (db.items i)

instance (res : InvoiceResult) (i : Uuid) (db : Db) : Decidable (res.Of i db) :=
  decidable_of_iff (db.invoice i = some res.invoice ∧ res.line_items.Perm (db.items i))
    ⟨fun h => ⟨h.1, h.2⟩, fun h => ⟨h.1, h.2⟩⟩

instance (past : List Commit) (db : Db) (φ : Db → Prop) [DecidablePred φ] :
    Decidable (Was past db φ) := inferInstanceAs (Decidable (φ db ∨ ∃ c ∈ past, φ c.before))

namespace Sys

/-- The invoice that process `q` looks up when it has read the row and not yet the items. -/
def looking_up (σ : Sys) (q : Pid) : Option Uuid :=
  match σ.job q, σ.head q with
  | some (.call (.get_invoice i _)), some (.sql (.select_line_items _)) => some i
  | _, _ => none

/-- What the step commits leaves the items of the invoice that `q` is looking up as they are. -/
def LeavesItems (σ : Sys) (l : Label) (q : Pid) : Prop :=
  ∀ i ∈ σ.looking_up q, ∀ c ∈ σ.commits l, (c.after.items i).Perm (c.before.items i)

instance (σ : Sys) (l : Label) (q : Pid) : Decidable (σ.LeavesItems l q) :=
  inferInstanceAs (Decidable (∀ _ ∈ _, ∀ _ ∈ _, _))

theorem LeavesItems.of_none {σ : Sys} {l : Label} {q : Pid} (h : σ.procs q = none) :
    σ.LeavesItems l q := fun i hi => by
  rw [looking_up, job, h] at hi
  cases hi

/-- What the call `n` has returned. -/
def returned (σ : Sys) (n : ℕ) : Option InvoiceResult :=
  match σ.procs (.call n) with
  | some ⟨_, some (.ret (.ok (.invoice_result res)))⟩ => some res
  | _ => none

end Sys

/-! ### The protocol -/

/-- Where a lookup is: before it has read the row, with the row, with both, or given up. -/
inductive Lookup where
  | asking
  | holding (r : Invoice)
  | done (res : InvoiceResult)
  | lost

/-- The protocol of a lookup. -/
inductive Lookup.Step (i b : Uuid) : Lookup → (e : Eff) → e.Reply → Lookup → Prop
  | row {r : Invoice} : Step i b .asking (.sql (.select_invoice i b)) (.ok (some r)) (.holding r)
  | no_row : Step i b .asking (.sql (.select_invoice i b)) (.ok none) .lost
  | row_failed {err : DbError} : Step i b .asking (.sql (.select_invoice i b)) (.error err) .lost
  | items {r : Invoice} {rows : List LineItem} :
      Step i b (.holding r) (.sql (.select_line_items i)) (.ok rows) (.done ⟨r, rows⟩)
  | items_failed {r : Invoice} {err : DbError} :
      Step i b (.holding r) (.sql (.select_line_items i)) (.error err) .lost

/-- A lookup returns what it has read. -/
def Lookup.Ends : Except AppError Response → Lookup → Prop
  | .ok a, x => ∃ res, a = .invoice_result res ∧ x = .done res
  | .error _, x => x = .lost

/-- CORRECT: a lookup follows the protocol. -/
theorem get_invoice_follows (i b : Uuid) : Follows (Lookup.Step i b) Lookup.Ends
    (Job.call (.get_invoice i b)).program.run .asking := by
  have hmain : Follows (Lookup.Step i b)
      (Safe.Either (fun res x => x = .done res) fun x => x = .lost)
      (get_invoice i b).run .asking := by
    refine .seqE fun o => ?_
    cases o with
    | error err => exact ⟨_, .row_failed, rfl⟩
    | ok o =>
      cases o with
      | none => exact ⟨_, .no_row, rfl⟩
      | some r =>
        refine ⟨_, .row, .seqE fun rows => ?_⟩
        cases rows with
        | error err => exact ⟨_, .items_failed, rfl⟩
        | ok rows => exact ⟨_, .items, rfl⟩
  have hjob : Follows (Lookup.Step i b)
      (Safe.Either (fun a x => ∃ res, a = .invoice_result res ∧ x = .done res) fun x => x = .lost)
      (Job.call (.get_invoice i b)).program.run .asking :=
    .mapE (hmain.imp fun r x hx => by
      cases r with
      | ok res => exact ⟨res, rfl, hx⟩
      | error err => exact hx)
  refine hjob.imp fun r x hx => ?_
  cases r <;> exact hx

/-! ### A lookup at work -/

/-- What has been read was there in one committed state. While only the row has been read, the items
    are still those of that state. -/
def Lookup.Knows (i : Uuid) (past : List Commit) (db : Db) : Lookup → Prop
  | .holding r => Was past db fun d => d.invoice i = some r ∧ (db.items i).Perm (d.items i)
  | .done res => Was past db (res.Of i)
  | .asking | .lost => True

/-- What is left of the program when it is in phase `x`. -/
def Lookup.At (i b : Uuid) (x : Lookup) : Option (Prog payman (Except AppError Response)) → Prop
  | none => x = .lost
  | some prog => Follows (Lookup.Step i b) Lookup.Ends prog x

/-- The call `n`, which looks up invoice `i` for the business `b`, is in phase `x` of it. -/
structure Sys.Looks (σ : Sys) (n : ℕ) (i b : Uuid) (x : Lookup) : Prop where
  phase : x.At i b ((σ.procs (.call n)).bind (·.prog))
  tx : σ.world.tx (.call n) = none
  knows : x.Knows i σ.world.history σ.db

section
variable {σ σ' : Sys} {n : ℕ} {i b : Uuid} {x : Lookup} {l : Sys.Label} {p : Pid}
  {past : List Commit} {db : Db}

/-- A committed state stays one. -/
theorem Was.later {ws : List Write} {φ : Db → Prop} {db' : Db} (h : Was past db φ) :
    Was (⟨p, db, ws⟩ :: past) db' φ := by
  obtain h | ⟨c, hc, h⟩ := h
  · exact .inr ⟨_, List.mem_cons_self .., h⟩
  · exact .inr ⟨c, List.mem_cons_of_mem _ hc, h⟩

theorem Was.imp {φ ψ : Db → Prop} (h : Was past db φ) (himp : ∀ d, φ d → ψ d) : Was past db ψ := by
  obtain h | ⟨c, hc, h⟩ := h
  · exact .inl (himp _ h)
  · exact .inr ⟨c, hc, himp _ h⟩

/-- A commit that leaves the items alone, or comes when not only the row has been read. -/
theorem Lookup.Knows.later {ws : List Write} (h : x.Knows i past db)
    (hitems : ∀ r, x = .holding r → ((applyAll db ws).items i).Perm (db.items i)) :
    x.Knows i (⟨p, db, ws⟩ :: past) (applyAll db ws) := by
  cases x with
  | asking | lost => trivial
  | holding r =>
    have hread : Was past db fun d => d.invoice i = some r ∧ (db.items i).Perm (d.items i) := h
    have hread' : Was past db fun d =>
        d.invoice i = some r ∧ ((applyAll db ws).items i).Perm (d.items i) :=
      hread.imp fun d hd => ⟨hd.1, (hitems r rfl).trans hd.2⟩
    exact hread'.later
  | done res => exact Was.later h

/-- Who has read only the row is about to read the items. -/
theorem Sys.Looks.looking_up {r : Invoice} (h : σ.Looks n i b (.holding r))
    (hjob : σ.job (.call n) = some (.call (.get_invoice i b))) :
    σ.looking_up (.call n) = some i := by
  have hphase := h.phase
  cases hp : σ.procs (.call n) with
  | none =>
    rw [hp] at hphase
    cases hphase
  | some pr =>
    rw [hp] at hphase
    obtain ⟨j, _ | _ | ⟨e, k⟩⟩ := pr
    · cases hphase
    · rename_i a
      cases a with
      | error err => cases hphase
      | ok a =>
        obtain ⟨_, -, hno⟩ := hphase
        cases hno
    · obtain ⟨reply⟩ := e.reply_nonempty
      obtain ⟨x', hstep, -⟩ := hphase reply
      have hhead : e = .sql (.select_line_items i) := by
        cases hstep <;> rfl
      rw [Sys.looking_up, hjob, Sys.head_of_op hp, hhead]

/-- The step of a lookup. -/
theorem Sys.Looks.exec (h : σ.Looks n i b x) {c : Choice} {e : Eff} {j : Job}
    {k : e.Reply → Prog payman (Except AppError Response)} {w : World} {r : e.Reply}
    (hp : σ.procs (.call n) = some ⟨j, some (.op e k)⟩)
    (hx : σ.world.exec (.call n) e c = some (w, r)) :
    ∃ x', (σ.set (.call n) ⟨j, some (k r)⟩ w).Looks n i b x' := by
  have hphase := h.phase
  rw [hp] at hphase
  obtain ⟨x', hstep, hk⟩ := hphase r
  have hlooks : w.tx (.call n) = none → x'.Knows i w.history w.db →
      ∃ x', (σ.set (.call n) ⟨j, some (k r)⟩ w).Looks n i b x' := fun htx hknows =>
    ⟨x', by rw [Sys.set_procs_self]; exact hk, htx, hknows⟩
  have hknows := h.knows
  cases hstep with
  | no_row | row_failed | items_failed => exact hlooks (World.sql_idle hx h.tx).1 trivial
  | row =>
    obtain ⟨htx, ⟨err, hr, -⟩ | ⟨ws, o, now, hr, hrun, hdb, -⟩⟩ := World.sql_idle hx h.tx
    · cases hr
    · cases hr
      obtain ⟨rfl, hrow⟩ := Stmt.run_select_invoice hrun
      have hdb' : w.db = σ.db := hdb
      exact hlooks htx (.inl ⟨hdb' ▸ (hrow _ rfl).1, .refl _⟩)
  | @items inv =>
    obtain ⟨htx, ⟨err, hr, -⟩ | ⟨ws, rows, now, hr, hrun, hdb, hh, -⟩⟩ := World.sql_idle hx h.tx
    · cases hr
    · cases hr
      cases hrun
      have hread : Was σ.world.history σ.db fun d =>
        d.invoice i = some inv ∧ (σ.db.items i).Perm (d.items i) := hknows
      refine hlooks htx ?_
      rw [show w.db = σ.db from hdb, hh rfl]
      exact hread.imp fun d hd => ⟨hd.1, (arrange_perm ..).trans hd.2⟩

/-- A step of others. -/
theorem Sys.Looks.other (h : σ.Looks n i b x) (hprocs : σ'.procs (.call n) = σ.procs (.call n))
    (htx : σ'.world.tx (.call n) = σ.world.tx (.call n))
    (hknows : x.Knows i σ'.world.history σ'.db) : σ'.Looks n i b x where
  phase := by
    rw [hprocs]
    exact h.phase
  tx := htx.trans h.tx
  knows := hknows

/-- Every lookup knows what it has read. -/
def Sys.LooksUp (σ : Sys) : Prop :=
  ∀ n i b, σ.job (.call n) = some (.call (.get_invoice i b)) → ∃ x, σ.Looks n i b x

/-- The step lemma. -/
theorem Sys.LooksUp.step (h : σ.LooksUp) (hinv : Inv .any σ) (hl : ∀ q, σ.LeavesItems l q)
    (hstep : σ.step l = some σ') : σ'.LooksUp := by
  intro n i b hjob
  cases Sys.moves hstep with
  | start p j hhead hp hfit hj =>
    by_cases hpn : .call n = p
    · subst hpn
      rw [Sys.start, Sys.job_of_procs Sys.set_procs_self] at hjob
      obtain rfl : j = .call (.get_invoice i b) := Option.some.inj hjob
      refine ⟨.asking, ?_, hinv.idle _ hhead, trivial⟩
      rw [Sys.start, Sys.set_procs_self]
      exact get_invoice_follows i b
    · rw [Sys.start, Sys.job, Sys.set_procs_ne hpn] at hjob
      obtain ⟨x, hx⟩ := h n i b hjob
      exact ⟨x, hx.other (Sys.set_procs_ne hpn) rfl hx.knows⟩
  | exec p c hl' j e k w r hp hx =>
    rw [Sys.set_job (Sys.job_of_procs hp)] at hjob
    obtain ⟨x, hlook⟩ := h n i b hjob
    by_cases hpn : .call n = p
    · subst hpn
      exact hlook.exec hp hx
    · refine ⟨x, hlook.other (Sys.set_procs_ne hpn) (World.exec_frame hx hpn).tx ?_⟩
      show x.Knows i w.history w.db
      cases World.exec_change hx with
      | quiet hdb hh _ =>
        rw [hdb, hh]
        exact hlook.knows
      | send _ _ hdb hh _ =>
        rw [hdb, hh]
        exact hlook.knows
      | commit ws _ hdb hh _ =>
        rw [hdb, hh]
        refine hlook.knows.later fun row hrow => ?_
        subst hrow
        exact hl _ i (hlook.looking_up hjob) _ (Sys.commits_of_step hstep hh)
  | kill p hl' j e k hp =>
    rw [Sys.set_job (Sys.job_of_procs hp)] at hjob
    obtain ⟨x, hlook⟩ := h n i b hjob
    by_cases hpn : .call n = p
    · subst hpn
      refine ⟨.lost, ?_, ?_, trivial⟩
      · rw [Sys.set_procs_self]
        rfl
      · exact Sessions.txs_close ..
    · have htx : (σ.world.sessions.rollback p).txs (.call n) = σ.world.tx (.call n) :=
        (Sessions.frame_rollback hpn).tx
      exact ⟨x, hlook.other (Sys.set_procs_ne hpn) htx hlook.knows⟩

end

/-! ### Runs -/

theorem Sys.procs_of_returned {σ : Sys} {n : ℕ} {res : InvoiceResult}
    (h : σ.returned n = some res) :
    (σ.procs (.call n)).bind (·.prog) = some (.ret (.ok (.invoice_result res))) := by
  unfold returned at h
  split at h
  · rename_i hp
    cases h
    rw [hp]
    rfl
  · cases h

/-- A lookup that has returned was done. -/
theorem Sys.Looks.returned {σ : Sys} {n : ℕ} {i b : Uuid} {x : Lookup} {res : InvoiceResult}
    (h : σ.Looks n i b x) (hret : σ.returned n = some res) :
    Was σ.world.history σ.db (res.Of i) := by
  obtain ⟨hphase, -, hknows⟩ := h
  rw [Sys.procs_of_returned hret] at hphase
  obtain ⟨_, heq, rfl⟩ := hphase
  cases heq
  exact hknows

theorem InvoiceResult.Of.total {res : InvoiceResult} {i : Uuid} {d : Db} (h : res.Of i d) :
    res.items_total = d.items_total i := (h.line_items.map _).sum_eq

/-- CORRECT (what a lookup returns existed): in a run in which nobody commits other items of an
    invoice while a lookup of it is between its two reads, row and items that a lookup has returned
    are those of one committed state. If its total was that of its items, so is the returned one. -/
theorem lookup_existed {σ : Sys} {n : ℕ} {i b : Uuid} {res : InvoiceResult}
    (hrun : Sys.Run (fun σ l => ∀ q, σ.LeavesItems l q) .initial σ)
    (hjob : σ.job (.call n) = some (.call (.get_invoice i b))) (hret : σ.returned n = some res) :
    Was σ.world.history σ.db fun d => res.Of i d ∧
      ∀ r, d.invoice i = some r → r.total_cents.toInt = d.items_total i →
        res.invoice.total_cents.toInt = res.items_total := by
  have hlooks : σ.LooksUp := (Inv.initial.induct (K := .any) (fun _ _ _ => .any) hrun
    (motive := Sys.LooksUp) nofun fun _ _ _ hinv hl hstep _ h => h.step hinv hl hstep).2
  obtain ⟨x, hx⟩ := hlooks n i b hjob
  refine (hx.returned hret).imp fun d hd => ⟨hd, fun r hr ht => ?_⟩
  obtain rfl := Option.some.inj (hr.symm.trans hd.invoice)
  rw [hd.total, ht]

/-- Call 2 has read the row of invoice 20. -/
def half_read : List Sys.Label :=
  Sys.issued ++ [.arrive 2 (.get_invoice 20 1)] ++ Sys.go (.call 2) 1

/-- The invoice is finalized before call 2 reads the items. -/
def finalized_meanwhile : List Sys.Label :=
  half_read ++ [.arrive 3 (.finalize_invoice 20 1 ⟨1⟩)] ++ Sys.go (.call 3) 5 ++
  Sys.go (.call 2) 1

theorem lookup_existed_finalized : ∃ σ ∈ Sys.initial.steps finalized_meanwhile,
    ∃ res ∈ σ.returned 2, res.invoice.state = .Draft ∧
      (σ.db.invoice 20).map (·.state) = some .Open ∧
      Was σ.world.history σ.db fun d => res.Of 20 d ∧
        ∀ r, d.invoice 20 = some r → r.total_cents.toInt = d.items_total 20 →
          res.invoice.total_cents.toInt = res.items_total := by
  obtain ⟨hok, σ, hσ, hjob, res, hres, hdraft, hopen⟩ :
    Sys.initial.Allowed (fun σ l => ∀ q ∈ [.call 0, .call 1, .call 2, .call 3], σ.LeavesItems l q)
      finalized_meanwhile ∧
    ∃ σ ∈ Sys.initial.steps finalized_meanwhile,
      σ.job (.call 2) = some (.call (.get_invoice 20 1)) ∧
      ∃ res ∈ σ.returned 2, res.invoice.state = .Draft ∧
        (σ.db.invoice 20).map (·.state) = some .Open := by decide +kernel
  have hall : Sys.initial.Allowed (fun σ l => ∀ q, σ.LeavesItems l q) finalized_meanwhile :=
    .of_started (fun _ _ _ => Sys.LeavesItems.of_none) _ _ (fun _ _ => rfl) (by decide) hok
  exact ⟨σ, hσ, res, hres, hdraft, hopen,
    lookup_existed (Sys.run_of_steps hσ hall) hjob hres⟩

/-- An edit replaces the items before call 2 reads them. -/
def edited_meanwhile : List Sys.Label :=
  half_read ++ [.arrive 3 (.edit_invoice 20 1 ⟨none, some [⟨"work", 1, 70⟩], 1⟩)] ++
  Sys.go (.call 3) 5 ++ Sys.fresh (.call 3) 31 ++ Sys.go (.call 3) 3 ++ Sys.go (.call 2) 1

/-- The old total of 100 is returned with the new item for 70. -/
theorem lookup_mixes_states : ¬∀ (σ : Sys) (n : ℕ) (i b : Uuid) (res : InvoiceResult),
    σ.Reachable → σ.job (.call n) = some (.call (.get_invoice i b)) →
    σ.returned n = some res → Was σ.world.history σ.db fun d => res.Of i d ∧
      ∀ r, d.invoice i = some r → r.total_cents.toInt = d.items_total i →
        res.invoice.total_cents.toInt = res.items_total := by
  obtain ⟨σ, hσ, hjob, res, hres, hnone⟩ : ∃ σ ∈ Sys.initial.steps edited_meanwhile,
    σ.job (.call 2) = some (.call (.get_invoice 20 1)) ∧ ∃ res ∈ σ.returned 2,
      ¬Was σ.world.history σ.db (res.Of 20) := by decide +kernel
  intro h
  exact hnone ((h σ 2 20 1 res (Sys.reachable_of_steps hσ) hjob hres).imp fun _ hd => hd.1)

end Payman
