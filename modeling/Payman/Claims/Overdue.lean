import Payman.Claims.Heralds
import Payman.Claims.Pending
import Payman.Safety.Watches

/-! What a tick of the reconciliation worker leaves behind.

    The worker expires what was pending for 24 hours one attempt after the other, in transactions of
    their own, while requests go on. A tick that ends without an error has left none: what is still
    overdue is in the rest of its list, and no other commit makes a settled attempt pending again. -/

namespace Payman
open Schemes

/-- Where the worker is in its tick: before its list of expired attempts, with the rest of that list,
    in the transaction for the next of them before and after its update, or cut short. -/
inductive Sweep where
  | before
  | left (rows : List AttemptRow)
  | expiring (row : AttemptRow) (rows : List AttemptRow)
  | marked (row : AttemptRow) (rows : List AttemptRow)
  | cut

/-- The protocol of a tick. -/
inductive Sweep.Step : Sweep → (e : Eff) → e.Reply → Sweep → Prop
  | earlier {e : Eff} {r : e.Reply} : Step .before e r .before
  | select {rows : List AttemptRow} : Step .before (.sql .select_expired) (.ok rows) (.left rows)
  | begin {row : AttemptRow} {rows : List AttemptRow} :
      Step (.left (row :: rows)) .begin (.ok ()) (.expiring row rows)
  | mark {row : AttemptRow} {rows : List AttemptRow} {n : ℕ} :
      Step (.expiring row rows) (.sql (.expire_attempt row.id)) (.ok n) (.marked row rows)
  | reopen {row : AttemptRow} {rows : List AttemptRow} {i : Uuid} {n : ℕ} :
      Step (.marked row rows) (.sql (.reopen_invoice i)) (.ok n) (.marked row rows)
  | commit {row : AttemptRow} {rows : List AttemptRow} :
      Step (.marked row rows) .commit (.ok ()) (.left rows)
  | cut {x : Sweep} {e : Eff} {r : e.Reply} : Step x e r .cut

/-- Without an error there is nothing left. -/
abbrev Sweep.Fin {α : Type} : Except AppError α → Sweep → Prop :=
  Safe.Either (fun _ x => x = .left []) fun _ => True

/-! ### A tick follows the protocol -/

theorem expire_sweeps {row : AttemptRow} {rows : List AttemptRow} :
    Follows Sweep.Step (Safe.Either (fun _ x => x = .left rows) fun _ => True)
      (expire row.id row.invoice_id).run (.left (row :: rows)) := by
  have hcut : ∃ x, Sweep.Step .cut .drop () x ∧ True := ⟨_, .cut, trivial⟩
  intro r
  cases r with
  | error err => exact ⟨_, .cut, trivial⟩
  | ok u =>
    refine ⟨_, .begin, or_drop_follows (.seqE (.seqE fun r => ?_))⟩
    cases r with
    | error err => exact ⟨_, .cut, hcut⟩
    | ok n =>
      refine ⟨_, .mark, .seqE fun r => ?_⟩
      cases r with
      | error err => exact ⟨_, .cut, hcut⟩
      | ok m =>
        refine ⟨_, .reopen, fun r => ?_⟩
        cases r with
        | error err => exact ⟨_, .cut, hcut⟩
        | ok u => exact ⟨_, .commit, rfl⟩

theorem expire_all_sweeps : ∀ rows : List AttemptRow,
    Follows Sweep.Step Sweep.Fin (expire_all rows).run (.left rows)
  | [] => rfl
  | _ :: rows => .bindE expire_sweeps fun _ _ hx => hx ▸ expire_all_sweeps rows

theorem tick_sweeps : Follows Sweep.Step Sweep.Fin tick.run .before := by
  have hearlier : ∀ {α : Type} (m : App α),
      Follows Sweep.Step (fun _ x => x = .before) m.run .before :=
    fun m => .stays (fun _ _ => .earlier) m.run
  refine .thenE (hearlier _) trivial fun attempts => ?_
  refine .thenE (hearlier _) trivial fun _ => .seqE fun r => ?_
  cases r with
  | error err => exact ⟨_, .earlier, trivial⟩
  | ok expired => exact ⟨_, .select, expire_all_sweeps expired⟩

/-! ### What the phases assert -/

/-- The attempt existed in `w₀`, where it was 24 hours old. -/
def World.Overdue (w₀ : World) (a : Uuid) : Prop :=
  ∃ row, w₀.db.attempt a = some row ∧ row.created_at + hours24 ≤ w₀.now

/-- What was overdue in `w₀` and still is pending is in the list, and what is in the list exists. -/
structure Sweep.Covers (w₀ : World) (rows : List AttemptRow) (db : Db) : Prop where
  there : ∀ row ∈ rows, ∃ row', db.attempt row.id = some row'
  pending : ∀ a row, w₀.Overdue a → db.attempt a = some row → row.status = .Pending →
    ∃ row' ∈ rows, row'.id = a

/-- The transaction is about the attempt `row`, and fails it. -/
def Sweep.Fails (row : AttemptRow) (ws : List Write) : Prop :=
  (∃ row', Write.put_attempt row' ∈ ws) ∧
    ∀ row', Write.put_attempt row' ∈ ws → row'.id = row.id ∧ row'.status = .Failed

def Sweep.Asserts (w₀ : World) : Sweep → World → Prop
  | .before, _ | .cut, _ => True
  | .left rows, w => w.tx .worker = none ∧ Covers w₀ rows w.db
  | .expiring row rows, w =>
    (∃ t, w.tx .worker = some t ∧ t.writes = []) ∧ Covers w₀ (row :: rows) w.db
  | .marked row rows, w =>
    (∃ t, w.tx .worker = some t ∧ Fails row t.writes) ∧ Covers w₀ (row :: rows) w.db

/-- The worker's watch, and nothing for the others. -/
def Sweep.watches (w₀ : World) : Watches Sweep
  | .worker, _ => ⟨Sweep.Step, Sweep.Fin, fun x w =>
      (w₀.now ≤ w.now ∧ Lasts w₀.db w.db) ∧ x.Asserts w₀ w⟩
  | _, _ => .any

namespace Sweep
variable {w₀ w w' : World} {db db' : Db} {row : AttemptRow} {rows : List AttemptRow}
  {ws : List Write}

/-- What becomes of the database later. -/
theorem Covers.lasts (h : Covers w₀ rows db) (h₀ : Lasts w₀.db db) (hl : Lasts db db') :
    Covers w₀ rows db' where
  there := fun row hrow => by
    obtain ⟨row', hrow'⟩ := h.there row hrow
    obtain ⟨row'', hrow'', -⟩ := hl.attempt _ row' hrow'
    exact ⟨row'', hrow''⟩
  pending := fun a row' ha hrow' hs => by
    have ⟨row₀, hrow₀, _⟩ := ha
    obtain ⟨row, hrow, -⟩ := h₀.attempt a row₀ hrow₀
    refine h.pending a row ha hrow ?_
    by_contra hne
    obtain ⟨row'', hrow'', hne'⟩ := hl.final a row hrow hne
    cases hrow'.symm.trans hrow''
    exact hne' hs

/-- Once its transaction is committed the attempt is off the list. -/
theorem Covers.tail (h : Covers w₀ (row :: rows) db) (h₀ : Lasts w₀.db db)
    (hl : Lasts db (applyAll db ws)) (hws : Fails row ws) :
    Covers w₀ rows (applyAll db ws) where
  there := fun row' hrow' => (h.lasts h₀ hl).there row' (List.mem_cons_of_mem _ hrow')
  pending := fun a row' ha hrow' hs => by
    obtain ⟨row'', hmem, rfl⟩ := (h.lasts h₀ hl).pending a row' ha hrow' hs
    rcases List.mem_cons.mp hmem with rfl | hmem
    · obtain ⟨⟨row₁, hrow₁⟩, hall⟩ := hws
      rcases Db.attempt_applyAll_cases row''.id ws db with ⟨-, hno⟩ | ⟨row₂, hmem₂, -, h₂⟩
      · exact absurd (hall row₁ hrow₁).1 (hno row₁ hrow₁)
      · cases hrow'.symm.trans h₂
        cases hs.symm.trans (hall row' hmem₂).2
    · exact ⟨row'', hmem, rfl⟩

/-- The list that the query returns. -/
theorem Covers.of_select {now : DateTime} {c : Choice} (h₀ : Lasts w₀.db db)
    (hnow : w₀.now ≤ now) (hrun : Stmt.run now c db .select_expired = .ok (ws, rows)) :
    Covers w₀ rows db where
  there := fun row hrow => ⟨row, ((Stmt.run_select_expired hrun).2 row hrow).1⟩
  pending := fun a row ⟨row₀, hrow₀, hold⟩ hrow hs => by
    obtain ⟨row', hrow', -, -, htime⟩ := h₀.attempt a row₀ hrow₀
    cases hrow.symm.trans hrow'
    have hle : row.created_at ≤ now - hours24 :=
      Int.le_sub_right_of_add_le (htime ▸ Int.le_trans hold hnow)
    cases hrun
    exact ⟨row, Stmt.mem_select.mpr ⟨Table.mem_of_find hrow, decide_eq_true ⟨hs, hle⟩⟩,
      Db.id_of_attempt hrow⟩

end Sweep

/-! ### The watch of a tick -/

variable {σ₀ σ₁ σ σ' : Sys} {c : Choice} {w : World}

/-- Whoever takes the step, what lasts lasts. -/
theorem Inv.lasts {K : Setting} (h : Inv K σ) {p : Pid} (hk : Honours K σ (.exec p c)) {j : Job}
    {e : Eff} {k : e.Reply → Prog payman (Except AppError Response)} {r : e.Reply}
    (hp : σ.procs p = some ⟨j, some (.op e k)⟩) (hx : σ.world.exec p e c = some (w, r)) :
    σ.world.now ≤ w.now ∧ Lasts σ.db w.db :=
  ⟨World.exec_clock hx, (h.exec_keeps hk hp hx).1.1.lasts⟩

/-- The worker asks for the expired attempts outside a transaction. -/
theorem Sys.Polls.idle {x : Poll} (h : σ.Polls x)
    (he : σ.head .worker = some (.sql .select_expired)) : σ.world.tx .worker = none := by
  obtain ⟨x', hstep⟩ := h.next he (.error .Connection)
  cases hstep with
  | settle hs => cases hs
  | select_expired => exact h.tx
  | expire he => cases he

theorem Sys.Reachable.polls (h : σ.Reachable) : ∃ x, σ.Polls x := by
  induction h with
  | refl => exact ⟨_, .initial⟩
  | @tail τ τ' hτ hs ih =>
    obtain ⟨l, -, hstep⟩ := hs
    obtain ⟨x, hx⟩ := ih
    obtain ⟨x', hx', -⟩ := hx.step (Sys.Reachable.inv hτ) .any hstep
    exact ⟨x', hx'⟩

/-- The phases of the worker's own operations. -/
theorem Sweep.Step.own {w₀ : World} {x x' : Sweep} {e : Eff} {r : e.Reply}
    (hstep : Sweep.Step x e r x') (hx : σ.world.exec .worker e c = some (w, r))
    (hnow : w₀.now ≤ σ.world.now) (h₀ : Lasts w₀.db σ.db) (hl : Lasts σ.db w.db)
    (hidle : e = .sql .select_expired → σ.world.tx .worker = none) (h : x.Asserts w₀ σ.world) :
    x'.Asserts w₀ w := by
  cases hstep with
  | earlier | cut => trivial
  | select =>
    have htx : (σ.world.elapse c.elapsed).tx .worker = none := hidle rfl
    obtain ⟨_, hr, -⟩ | ⟨ws, r', hrun, hrec, hr⟩ := World.act_sql_cases hx
    · cases hr
    · cases hr
      rw [World.view_idle htx, World.sql_now_idle htx] at hrun
      obtain ⟨htx', hdb⟩ := World.record_idle hrec htx
      refine ⟨htx', ?_⟩
      exact (Sweep.Covers.of_select h₀ (Int.le_trans hnow (World.le_elapse ..)) hrun).lasts h₀ hl
  | begin =>
    obtain ⟨⟨t, ht⟩, hdb, -⟩ := World.begin_ok hx
    exact ⟨⟨_, ht, rfl⟩, h.2.lasts h₀ hl⟩
  | @mark row rows n =>
    obtain ⟨⟨t, ht, hws⟩, hcovers⟩ := h
    refine ⟨?_, hcovers.lasts h₀ hl⟩
    obtain ⟨-, -, ⟨err, hr, -⟩ | ⟨ws, a, -, hrun, htx'⟩⟩ := World.sql_inside hx ht
    · cases hr
    · refine ⟨_, htx', ?_⟩
      rw [hws, List.nil_append]
      rw [hws] at hrun
      obtain ⟨row', hrow'⟩ := hcovers.there row (List.mem_cons_self ..)
      rcases Stmt.rows_affected_ok hrun with ⟨-, -, hno⟩ | ⟨row₁, row₂, hf, -, hset, rfl, -⟩
      · exact absurd (hno row' hrow') nofun
      · cases hset
        have hid : row₁.id = row.id := Db.id_of_attempt hf
        exact ⟨⟨_, List.mem_singleton_self _⟩, by simp [hid]⟩
  | reopen =>
    obtain ⟨⟨t, ht, ⟨row₁, hrow₁⟩, hall⟩, hcovers⟩ := h
    refine ⟨?_, hcovers.lasts h₀ hl⟩
    obtain ⟨-, -, ⟨err, hr, -⟩ | ⟨ws, a, -, hrun, htx'⟩⟩ := World.sql_inside hx ht
    · cases hr
    · refine ⟨_, htx', ⟨row₁, List.mem_append_left _ hrow₁⟩, fun row' hrow' => ?_⟩
      rcases List.mem_append.mp hrow' with hrow' | hrow'
      · exact hall row' hrow'
      · rcases Stmt.run_reopen_invoice hrun with ⟨rfl, -⟩ | ⟨r, -, rfl⟩ <;> simp at hrow'
  | commit =>
    obtain ⟨⟨t, ht, hws⟩, hcovers⟩ := h
    obtain ⟨t', ht', htx', hdb, -⟩ := World.commit_ok hx
    cases ht.symm.trans ht'
    exact ⟨htx', hdb ▸ hcovers.tail h₀ (hdb ▸ hl) hws⟩

/-- The steps of others. -/
theorem Sweep.Asserts.passed {w₀ w w' : World} {x : Sweep} (h : x.Asserts w₀ w)
    (h₀ : Lasts w₀.db w.db) (hp : Passed .worker w w') : x.Asserts w₀ w' := by
  cases x with
  | before | cut => trivial
  | left rows => exact ⟨hp.tx.trans h.1, h.2.lasts h₀ hp.lasts⟩
  | expiring row rows =>
    obtain ⟨⟨t, ht, hws⟩, hcovers⟩ := h
    exact ⟨⟨t, hp.tx.trans ht, hws⟩, hcovers.lasts h₀ hp.lasts⟩
  | marked row rows =>
    obtain ⟨⟨t, ht, hws⟩, hcovers⟩ := h
    exact ⟨⟨t, hp.tx.trans ht, hws⟩, hcovers.lasts h₀ hp.lasts⟩

/-- No other tick is started. -/
def Sys.NoTick (_ : Sys) (l : Sys.Label) : Prop := l ≠ .tick

/-- CORRECT (step): nobody disturbs the watch. -/
theorem Sweep.upholds {w₀ : World} {l : Sys.Label} (h : σ.Reachable) (hl : σ.NoTick l) :
    σ.Upholds (Sweep.watches w₀) l where
  start := fun p j hp hfit _ _ => by
    cases p with
    | worker =>
      cases l with
      | tick => exact absurd rfl hl
      | _ => cases hp
    | _ => exact Watch.any_sees .before _ _
  own := fun p j e k c w r x x' hlabel hp hx hholds hnext => by
    subst hlabel
    cases p with
    | worker =>
      obtain ⟨⟨hnow, h₀⟩, hasserts⟩ := hholds
      obtain ⟨hclock, hlasts⟩ := h.inv.lasts .any hp hx
      obtain ⟨y, hy⟩ := h.polls
      refine ⟨⟨Int.le_trans hnow hclock, h₀.trans hlasts⟩, ?_⟩
      exact Sweep.Step.own hnext hx hnow h₀ hlasts (fun he => hy.idle (he ▸ Sys.head_of_op hp))
        hasserts
    | _ => trivial
  other := fun q j w x hpassed hholds => by
    cases q with
    | worker =>
      obtain ⟨⟨hnow, h₀⟩, hasserts⟩ := hholds
      exact ⟨⟨Int.le_trans hnow hpassed.clock, h₀.trans hpassed.lasts⟩,
        hasserts.passed h₀ hpassed⟩
    | _ => trivial

/-- CORRECT (run): between the start of a tick and the next one the worker is watched. -/
theorem Sweep.watched (h₀ : σ₀.Reachable) (hstart : σ₀.step .tick = some σ₁)
    (hrun : Sys.Run Sys.NoTick σ₁ σ) : (Sweep.watches σ₀.world .worker .tick).Sees
      ((σ.procs .worker).bind (·.prog)) σ.world := by
  have h₁ : σ₁.Reachable := h₀.tail ⟨_, trivial, hstart⟩
  obtain ⟨p, j, hp, rfl, hfit, -, -⟩ := Sys.start_of_step hstart nofun
  cases hp
  obtain rfl := hfit.duty rfl
  have hbegin : (σ₀.start .worker .tick).Watched (Sweep.watches σ₀.world) := by
    intro q j' o hq
    cases q with
    | worker =>
      rw [Sys.start, Sys.set_procs_self] at hq
      cases hq
      refine ⟨.before, .bind (fun r x hx => ?_) tick_sweeps, ⟨Int.le_refl _, .refl _⟩, trivial⟩
      cases r <;> exact hx
    | _ => exact Watch.any_sees .before o _
  have hwatched := hbegin.run h₁.inv (fun _ _ _ => .any) hrun fun τ l _ hτ hl =>
    Sweep.upholds (h₁.trans (Relation.ReflTransGen.mono
      (fun _ _ hs => hs.imp fun _ hl => ⟨trivial, hl.2⟩) _ _ hτ)) hl
  cases hproc : σ.procs .worker with
  | none => trivial
  | some pr => exact hwatched _ pr.job pr.prog hproc

/-- What process `p` has returned. -/
def Sys.replied (σ : Sys) (p : Pid) : Option (Except AppError Response) :=
  match σ.procs p with
  | some ⟨_, some (.ret r)⟩ => some r
  | _ => none

theorem Sys.procs_of_replied {p : Pid} {r : Except AppError Response}
    (h : σ.replied p = some r) : ∃ j, σ.procs p = some ⟨j, some (.ret r)⟩ := by
  unfold replied at h
  split at h
  · rename_i j r' hp
    cases h
    exact ⟨j, hp⟩
  · cases h

/-- CORRECT (nothing stays overdue): a tick that ends without an error has settled, or seen settled,
    every attempt that was overdue when it began, whatever requests did meanwhile; and an invoice
    that is in Processing then has a pending attempt that was not overdue. -/
theorem tick_leaves_none_overdue (h₀ : σ₀.Reachable) (hstart : σ₀.step .tick = some σ₁)
    (hrun : Sys.Run Sys.NoTick σ₁ σ) {ans : Response} (hret : σ.replied .worker = some (.ok ans)) :
    (∀ a, σ₀.world.Overdue a → ∃ row, σ.db.attempt a = some row ∧ row.status ≠ .Pending) ∧
    ∀ i r, σ.db.invoice i = some r → r.state = .Processing → ∃ a row,
      σ.db.attempt a = some row ∧ row.invoice_id = i ∧ row.status = .Pending ∧
        ¬σ₀.world.Overdue a := by
  have hsees := Sweep.watched h₀ hstart hrun
  obtain ⟨j, hproc⟩ := Sys.procs_of_replied hret
  rw [hproc] at hsees
  obtain ⟨x, hx, ⟨-, hlasts⟩, hasserts⟩ := hsees.returned
  obtain rfl : x = .left [] := hx
  have hsettled : ∀ a, σ₀.world.Overdue a → ∃ row, σ.db.attempt a = some row ∧
      row.status ≠ .Pending := fun a ha => by
    have ⟨row₀, hrow₀, _⟩ := ha
    obtain ⟨row, hrow, -⟩ := hlasts.attempt a row₀ hrow₀
    refine ⟨row, hrow, fun hs => ?_⟩
    obtain ⟨row', hrow', -⟩ := hasserts.2.pending a row ha hrow hs
    cases hrow'
  refine ⟨hsettled, fun i r hr hs => ?_⟩
  have hreach : σ.Reachable := (h₀.tail ⟨_, trivial, hstart⟩).trans (Relation.ReflTransGen.mono
    (fun _ _ ⟨l, _, hstep⟩ => ⟨l, trivial, hstep⟩) _ _ hrun)
  obtain ⟨a, ha, -⟩ := hreach.inv.history.anchored (hs ▸ Db.ledger_state hr)
  obtain ⟨row, hrow, heq⟩ := Option.map_eq_some_iff.mp ha
  rw [Prod.mk.injEq] at heq
  refine ⟨a, row, hrow, heq.1, heq.2, fun hold => ?_⟩
  obtain ⟨row', hrow', hne⟩ := hsettled a hold
  cases hrow.symm.trans hrow'
  exact hne heq.2

/-- A payment waits for the PSP for a day. -/
def Sys.day_old : List Sys.Label :=
  opened ++ pays 3 "k" 2 40 ++
  [.arrive 4 (.list_customers 1), .exec (.call 4) { calm with elapsed := 86400000000 }]

/-- The payment is killed while the worker expires its attempt. -/
def Sys.day_after : List Sys.Label := go .worker 3 ++ [.kill (.call 3)] ++ go .worker 3

instance : ∀ (σ : Sys) (l : Sys.Label), Decidable (σ.NoTick l)
  | _, .tick => isFalse fun h => h rfl
  | _, .arrive .. | _, .background _ | _, .webhook_tick | _, .exec .. | _, .kill _ => isTrue nofun

theorem tick_leaves_none_overdue_day_old : ∃ σ₀ ∈ Sys.initial.steps Sys.day_old,
    ∃ σ₁ ∈ σ₀.step .tick, ∃ σ ∈ σ₁.steps Sys.day_after, σ₀.world.Overdue 40 ∧
      ∀ a, σ₀.world.Overdue a → ∃ row, σ.db.attempt a = some row ∧ row.status ≠ .Pending := by
  obtain ⟨σ₀, h₀, σ₁, h₁, σ, hσ, hok, ⟨row, hrow, hold⟩, hret⟩ :
    ∃ σ₀ ∈ Sys.initial.steps Sys.day_old, ∃ σ₁ ∈ σ₀.step .tick, ∃ σ ∈ σ₁.steps Sys.day_after,
    σ₁.Allowed Sys.NoTick Sys.day_after ∧
    (∃ row ∈ σ₀.db.attempt 40, row.created_at + hours24 ≤ σ₀.world.now) ∧
    σ.replied .worker = some (.ok .done) := by decide +kernel
  exact ⟨σ₀, h₀, σ₁, h₁, σ, hσ, ⟨row, hrow, hold⟩, (tick_leaves_none_overdue
    (Sys.reachable_of_steps h₀) h₁ (Sys.run_of_steps hσ hok) hret).1⟩

end Payman
