import Payman.Safety.Frames
import Payman.Safety.Jobs

/-! Whole runs of the system.

    `Inv` puts the contracts together: in every reachable state every running process is safe, and
    every commit in the history is an effect of its process's job. `Happens` is the resulting
    inversion of a step, from which the invariants of the claims are proved. -/

namespace Payman
open Schemes

/-- What a worker runs at each of its ticks. -/
def Pid.duty : Pid → Option Job
  | .worker => some .tick
  | .webhook_worker => some .deliveries
  | _ => none

/-- The job is one of those that the process may run. -/
def Job.Fits : Job → Pid → Prop
  | .call _, .call _ => True
  | .dispatch _, .task _ => True
  | .tick, .worker => True
  | .deliveries, .webhook_worker => True
  | _, _ => False

theorem Job.Fits.duty {p : Pid} {j j' : Job} (h : j'.Fits p) (hp : p.duty = some j) : j' = j := by
  cases p <;> cases hp <;> cases j' <;> first | rfl | exact h.elim

namespace Sys

/-- The committed database. -/
abbrev db (σ : Sys) : Db := σ.world.db

/-- What process `p` was started for. -/
def job (σ : Sys) (p : Pid) : Option Job := (σ.procs p).map (·.job)

/-- The transaction that a step commits. -/
def commits (σ : Sys) (l : Label) : Option Commit :=
  (σ.step l).bind fun σ' =>
    if σ.world.history.length < σ'.world.history.length then σ'.world.history.head? else none

/-- The invoice that process `p` is rewriting, if it is an edit past its state check. -/
def rewriting (σ : Sys) (p : Pid) : Option Uuid :=
  (σ.job p).bind fun j => Payman.rewriting j (σ.head p)

/-- The invoice whose items process `p` is replacing, if it is an edit past its scan. -/
def replacing (σ : Sys) (p : Pid) : Option Uuid :=
  (σ.job p).bind fun j => Payman.replacing j (σ.head p)

/-- The three kinds of steps. -/
inductive Moves (σ : Sys) (l : Label) : Sys → Prop where
  | start (p : Pid) (j : Job) (hhead : σ.head p = none)
      (hp : (p.duty = none ∧ σ.procs p = none) ∨ p.duty = some j) (hfit : j.Fits p)
      (hj : ∀ q, j = .call q → ∃ n, l = .arrive n q) :
      Moves σ l (σ.start p j)
  | exec (p : Pid) (c : Choice) (hl : l = .exec p c) (j : Job) (e : Eff)
      (k : e.Reply → Prog payman (Except AppError Response)) (w : World) (r : e.Reply)
      (hp : σ.procs p = some ⟨j, some (.op e k)⟩) (hx : σ.world.exec p e c = some (w, r)) :
      Moves σ l (σ.set p ⟨j, some (k r)⟩ w)
  | kill (p : Pid) (hl : l = .kill p) (j : Job) (e : Eff)
      (k : e.Reply → Prog payman (Except AppError Response))
      (hp : σ.procs p = some ⟨j, some (.op e k)⟩) :
      Moves σ l (σ.set p ⟨j, none⟩ { σ.world with sessions := σ.world.sessions.rollback p })

variable {σ σ' : Sys} {l : Label} {p q : Pid}

theorem head_of_none (h : σ.procs p = none) : σ.head p = none := by rw [head, h]; rfl

theorem head_of_op {j : Job} {e : Eff} {k : e.Reply → Prog payman (Except AppError Response)}
    (h : σ.procs p = some ⟨j, some (.op e k)⟩) : σ.head p = some e := by rw [head, h]; rfl

/-- A process that issues an operation has it in front of the rest of its program. -/
theorem op_of_head {e : Eff} (h : σ.head p = some e) :
    ∃ j k, σ.procs p = some ⟨j, some (.op e k)⟩ := by
  obtain ⟨⟨j, prog⟩, hp, hhead⟩ := Option.bind_eq_some_iff.mp h
  obtain ⟨x, rfl, hx⟩ := Option.bind_eq_some_iff.mp hhead
  cases x with
  | ret a => cases hx
  | op e' k => cases hx; exact ⟨j, k, hp⟩

/-- A process that issues none is not there, was killed or has returned. -/
theorem rest_of_head (h : σ.head p = none) : (σ.procs p).bind (·.prog) = none ∨
    ∃ a, (σ.procs p).bind (·.prog) = some (.ret a) := by
  cases hp : σ.procs p with
  | none => exact .inl rfl
  | some pr =>
    obtain ⟨j, _ | _ | ⟨e, k⟩⟩ := pr
    · exact .inl rfl
    · exact .inr ⟨_, rfl⟩
    · rw [head_of_op hp] at h
      cases h

theorem job_of_procs {pr : Proc} (h : σ.procs p = some pr) : σ.job p = some pr.job := by
  rw [job, h]; rfl

@[simp] theorem set_world {pr : Proc} {w : World} : (σ.set p pr w).world = w := rfl

@[simp] theorem set_procs_self {pr : Proc} {w : World} : (σ.set p pr w).procs p = some pr :=
  Function.update_self ..

theorem set_procs_ne {pr : Proc} {w : World} (h : q ≠ p) : (σ.set p pr w).procs q = σ.procs q :=
  Function.update_of_ne h ..

theorem set_head_ne {pr : Proc} {w : World} (h : q ≠ p) : (σ.set p pr w).head q = σ.head q := by
  rw [head, head, set_procs_ne h]

/-- Going on with its program does not change what a process was started for. -/
theorem set_job {j : Job} {x : Option (Prog payman (Except AppError Response))} {w : World}
    (h : σ.job p = some j) : (σ.set p ⟨j, x⟩ w).job q = σ.job q := by
  by_cases hqp : q = p
  · subst hqp
    rw [h, job_of_procs set_procs_self]
  · rw [job, job, set_procs_ne hqp]

theorem moves (h : σ.step l = some σ') : σ.Moves l σ' := by
  cases l with
  | arrive n q =>
    simp only [step, Option.isNone_iff_eq_none] at h
    split at h <;> cases h
    rename_i hp
    refine .start _ _ (head_of_none hp) (.inl ⟨rfl, hp⟩) trivial fun q hq => ?_
    cases hq
    exact ⟨n, rfl⟩
  | background n =>
    simp only [step, Option.isNone_iff_eq_none] at h
    split at h
    · cases h
    · split at h <;> cases h
      rename_i hp
      exact .start _ _ (head_of_none hp) (.inl ⟨rfl, hp⟩) trivial nofun
  | tick =>
    simp only [step, Option.isNone_iff_eq_none] at h
    split at h <;> cases h
    rename_i hp
    exact .start _ _ hp (.inr rfl) trivial nofun
  | webhook_tick =>
    simp only [step, Option.isNone_iff_eq_none] at h
    split at h <;> cases h
    rename_i hp
    exact .start _ _ hp (.inr rfl) trivial nofun
  | exec p c =>
    simp only [step] at h
    split at h
    · rename_i j e k hp
      obtain ⟨⟨w, r⟩, hx, rfl⟩ := Option.map_eq_some_iff.mp h
      exact .exec p c rfl j e k w r hp hx
    · cases h
  | kill p =>
    simp only [step] at h
    split at h <;> cases h
    rename_i j e k hp
    exact .kill p rfl j e k hp

/-- The clock does not go back. -/
theorem clock_of_step (h : σ.step l = some σ') : σ.world.now ≤ σ'.world.now := by
  cases moves h with
  | start | kill => exact Int.le_refl _
  | exec p c hl j e k w r hp hx => exact World.exec_clock hx

/-- What a step of `p` is. -/
theorem set_of_exec {c : Choice} (h : σ.step (.exec p c) = some σ') :
    ∃ j e k w r, σ.procs p = some ⟨j, some (.op e k)⟩ ∧ σ.world.exec p e c = some (w, r) ∧
      σ' = σ.set p ⟨j, some (k r)⟩ w := by
  simp only [step] at h
  split at h
  · rename_i j e k hp
    obtain ⟨⟨w, r⟩, hx, rfl⟩ := Option.map_eq_some_iff.mp h
    exact ⟨j, e, k, w, r, hp, hx, rfl⟩
  · cases h

/-- An operation changes the world and nobody's job. -/
theorem exec_of_step {c : Choice} (h : σ.step (.exec p c) = some σ') :
    ∃ (e : Eff) (r : e.Reply), σ.world.exec p e c = some (σ'.world, r) ∧
      ∀ q, σ'.job q = σ.job q := by
  obtain ⟨j, e, k, w, r, hp, hx, rfl⟩ := set_of_exec h
  exact ⟨e, r, hx, fun q => set_job (job_of_procs hp)⟩

/-- A task was there before the step, or is started with the dispatch of its number. -/
theorem task_of_step {n : ℕ} {t : DispatchTask} (h : σ.step l = some σ')
    (hjob : σ'.job (.task n) = some (.dispatch t)) :
    σ.job (.task n) = some (.dispatch t) ∨ σ.world.spawned.reverse[n]? = some t := by
  have hset : ∀ {p : Pid} {pr : Proc} {w : World}, p ≠ .task n →
      (σ.set p pr w).job (.task n) = some (.dispatch t) →
        σ.job (.task n) = some (.dispatch t) := fun {p pr w} hp h => by
    rw [job, set_procs_ne hp.symm] at h
    exact h
  cases l with
  | arrive m q =>
    simp only [step] at h
    split at h <;> cases h
    exact .inl (hset (p := .call m) nofun hjob)
  | background m =>
    simp only [step] at h
    split at h
    · cases h
    · rename_i t' ht'
      split at h <;> cases h
      by_cases hm : m = n
      · subst hm
        rw [start, job_of_procs set_procs_self] at hjob
        cases hjob
        exact .inr ht'
      · exact .inl (hset (fun h => hm (Pid.task.inj h)) hjob)
  | tick =>
    simp only [step] at h
    split at h <;> cases h
    exact .inl (hset (p := .worker) nofun hjob)
  | webhook_tick =>
    simp only [step] at h
    split at h <;> cases h
    exact .inl (hset (p := .webhook_worker) nofun hjob)
  | exec p c =>
    obtain ⟨e, r, -, hall⟩ := exec_of_step h
    exact .inl ((hall _).symm.trans hjob)
  | kill p =>
    simp only [step] at h
    split at h <;> cases h
    rename_i hp
    rw [set_job (job_of_procs hp)] at hjob
    exact .inl hjob

/-- Who takes the step commits, and holds the locks of what it commits. -/
theorem commit_of_exec {c : Choice} {d : Commit} (h : σ.step (.exec p c) = some σ')
    (hh : σ'.world.history = d :: σ.world.history) :
    d.pid = p ∧ σ.world.sessions.Free p d.writes := by
  obtain ⟨e, r, hx, -⟩ := exec_of_step h
  cases World.exec_change hx with
  | quiet _ hh' _ => simp [hh] at hh'
  | send _ _ _ hh' _ => simp [hh] at hh'
  | commit ws hfree _ hh' _ =>
    cases List.cons.inj (hh.symm.trans hh') with
    | intro hd _ => exact hd ▸ ⟨rfl, hfree⟩

/-- A step that lengthens the history commits its latest entry. -/
theorem commits_of_step {c : Commit} (h : σ.step l = some σ')
    (hh : σ'.world.history = c :: σ.world.history) : σ.commits l = some c := by
  rw [commits, h, Option.bind_some, hh, if_pos (by simp)]; rfl

end Sys

/-! ### The invariant -/

variable {K : Setting} {σ σ' : Sys} {l : Sys.Label}

/-- The step keeps the promises of the setting. -/
structure Honours (K : Setting) (σ : Sys) (l : Sys.Label) : Prop where
  answer : ∀ p c e, l = .exec p c → σ.head p = some e → Admits K e c
  alone : K.alone → ∀ p c, l = .exec p c → ∀ q, q ≠ p → σ.head q = none
  start : K.alone → K.start σ.db
  drafts : K.drafts → ∀ c ∈ σ.commits l, ∀ q, q ≠ c.pid → ∀ i, σ.rewriting q = some i →
    ∀ r, σ.db.invoice i = some r → r.state = .Draft →
      ∃ r', (applyAll σ.db c.writes).invoice i = some r' ∧ r'.state = .Draft
  scans : K.scans → ∀ c ∈ σ.commits l, ∀ q, q ≠ c.pid → ∀ i, σ.replacing q = some i →
    (applyAll σ.db c.writes).items i = σ.db.items i

theorem Honours.any : Honours .any σ l :=
  ⟨fun p c e _ _ => by cases e <;> trivial, nofun, nofun, nofun, nofun⟩

/-- A history of commits that ends in `db`, each an effect of its process's job. -/
inductive History (K : Setting) (job : Pid → Option Job) : List Commit → Db → Prop where
  | nil : History K job [] .empty
  | cons {past : List Commit} {db : Db} {p : Pid} {j : Job} {ws : List Write}
      (h : History K job past db) (hp : job p = some j) (he : Effect K p past db j ws) :
      History K job (⟨p, db, ws⟩ :: past) (applyAll db ws)

namespace History
variable {job job' : Pid → Option Job} {past : List Commit} {db : Db} {c : Commit}

theorem chain (h : History K job past db) : Chain past db := by
  induction h with
  | nil => rfl
  | cons _ _ _ ih => exact ⟨rfl, ih⟩

theorem mono (h : History K job past db) (hj : ∀ p j, job p = some j → job' p = some j) :
    History K job' past db := by
  induction h with
  | nil => exact .nil
  | cons _ hp he ih => exact .cons ih (hj _ _ hp) he

/-- The history up to one of its commits. -/
theorem of_mem (h : History K job past db) (hc : c ∈ past) :
    ∃ past' j, History K job past' c.before ∧ job c.pid = some j ∧
      Effect K c.pid past' c.before j c.writes := by
  induction h with
  | nil => cases hc
  | cons h hp he ih =>
    rcases List.mem_cons.mp hc with rfl | hc
    · exact ⟨_, _, h, hp, he⟩
    · exact ih hc

/-- What was there at an earlier commit is there still. -/
theorem grows (h : History K job past db) (hc : c ∈ past) : Grows c.before db := by
  induction h with
  | nil => cases hc
  | cons _ _ he ih =>
    rcases List.mem_cons.mp hc with rfl | hc
    · exact he.grows
    · exact (ih hc).trans he.grows

end History

structure Inv (K : Setting) (σ : Sys) : Prop where
  history : History K σ.job σ.world.history σ.db
  fits : ∀ p j, σ.job p = some j → j.Fits p
  idle : ∀ p, σ.head p = none → Idle p σ.world
  safe : ∀ p j x, σ.procs p = some ⟨j, some x⟩ →
    Safe (contract K p j) (Returned p j) x σ.world
  sent : ∀ ch ∈ σ.world.charges, ∃ b i k req a,
    σ.job ch.pid = some (.call (.pay_invoice i b (some k) req)) ∧ a.id = ch.attempt_id ∧
      req.card_token = ch.card_token ∧ Started σ.world.history ch.pid (k, b, i) a
  once : (σ.world.charges.map (·.pid)).Nodup

/-- What a step does to what has been committed and sent. -/
inductive Happens (K : Setting) (σ : Sys) (l : Sys.Label) (σ' : Sys) : Prop where
  | quiet (hdb : σ'.db = σ.db) (hh : σ'.world.history = σ.world.history)
      (hc : σ'.world.charges = σ.world.charges)
  | commit (p : Pid) (j : Job) (ws : List Write) (hp : σ.job p = some j)
      (hdb : σ'.db = applyAll σ.db ws) (hh : σ'.world.history = ⟨p, σ.db, ws⟩ :: σ.world.history)
      (hc : σ'.world.charges = σ.world.charges)
      (he : Effect K p σ.world.history σ.db j ws)
  | send (p : Pid) (j : Job) (attempt_id : Uuid) (card_token : String) (hp : σ.job p = some j)
      (hdb : σ'.db = σ.db) (hh : σ'.world.history = σ.world.history)
      (hc : σ'.world.charges = ⟨p, attempt_id, card_token⟩ :: σ.world.charges)
      (hs : Sends K p σ.world j attempt_id card_token)

/-- What a step does, it does on top of what is there. -/
theorem Happens.grows (h : Happens K σ l σ') : Grows σ.db σ'.db := by
  cases h with
  | quiet hdb => exact hdb ▸ Grows.refl _
  | send p j a card hp hdb => exact hdb ▸ Grows.refl _
  | commit p j ws hp hdb hh hc he => exact hdb ▸ he.grows

theorem Happens.history (h : Happens K σ l σ') : ∀ c ∈ σ.world.history, c ∈ σ'.world.history := by
  intro c hc
  cases h with
  | quiet _ hh => exact hh ▸ hc
  | send _ _ _ _ _ _ hh => exact hh ▸ hc
  | commit _ _ _ _ _ hh => exact hh ▸ List.mem_cons_of_mem _ hc

theorem Guar.grows {T : Pid} {j : Job} {w w' : World} (h : Guar K T j w w') : Grows w.db w'.db := by
  cases h with
  | quiet hdb _ _ => exact hdb ▸ .refl _
  | send _ _ hdb _ _ _ => exact hdb ▸ .refl _
  | commit ws hdb _ _ he => exact hdb ▸ he.grows

/-! ### What the others see of a step -/

/-- A step of `p` that keeps its contract is interference that every other process can bear. -/
theorem Guar.rely {p q : Pid} {j j' : Job} {e : Eff} {e' : Option Eff} {c : Choice} {w w' : World}
    {r : e.Reply} (hg : Guar K p j w w') (hx : w.exec p e c = some (w', r)) (hne : q ≠ p)
    (hchain : Chain w.history w.db) (halone : K.alone → e' = none)
    (hdrafts : K.drafts → ∀ ws, w'.history = ⟨p, w.db, ws⟩ :: w.history → ∀ i,
      rewriting j' e' = some i → ∀ r, w.db.invoice i = some r → r.state = .Draft →
        ∃ r', (applyAll w.db ws).invoice i = some r' ∧ r'.state = .Draft)
    (hscans : K.scans → ∀ ws, w'.history = ⟨p, w.db, ws⟩ :: w.history → ∀ i,
      replacing j' e' = some i → (applyAll w.db ws).items i = w.db.items i) :
    Rely K q j' e' w w' := by
  have hnow := World.exec_clock hx
  have hframe := World.exec_frame hx hne
  cases hg with
  | quiet hdb hh hc =>
    exact ⟨.quiet hnow hdb hh hc, hframe, fun _ _ i _ => by rw [hdb]⟩
  | send a card hdb hh hc hs =>
    refine ⟨⟨hnow, fun c hc => hh ▸ hc, fun c hc _ => hh ▸ hc, fun ch hch hq => ?_,
      fun φ hφ => by rw [hh, hdb]; exact hφ, hdb ▸ Grows.refl _, fun t a _ => by rw [hdb],
      fun _ _ => hdb, fun _ i _ r hr hs => ⟨r, by rw [hdb]; exact hr, hs⟩,
      fun _ i _ => by rw [hdb]⟩, hframe, fun _ _ i _ => by rw [hdb]⟩
    rw [hc] at hch
    rcases List.mem_cons.mp hch with rfl | hch
    · exact absurd hq.symm hne
    · exact hch
  | commit ws hdb hh hc he =>
    refine ⟨⟨hnow, fun c hc => hh ▸ List.mem_cons_of_mem _ hc, fun c hc hq => ?_,
      fun ch hch _ => hc ▸ hch, fun φ hφ => ?_, hdb ▸ he.grows, fun t a hs => ?_,
      fun hK he' => absurd (halone hK) he', fun hK i hi => hdb ▸ hdrafts hK ws hh i hi,
      fun hK i hi => hdb ▸ hscans hK ws hh i hi⟩, hframe, fun tx htx i hi => ?_⟩
    · rw [hh] at hc
      rcases List.mem_cons.mp hc with rfl | hc
      · exact absurd hq.symm hne
      · exact hc
    · rw [hh]
      right
      rcases hφ with hφ | ⟨c, hc, hφ⟩
      · exact ⟨_, List.mem_cons_self .., hφ⟩
      · exact ⟨c, List.mem_cons_of_mem _ hc, hφ⟩
    · rw [hdb, he.key_of_started hchain hne hs]
    · rw [hdb]
      exact he.items_of_unlocked ((World.free_of_commit hx hh).disjoint hne htx hi)

/-! ### Steps keep the invariant -/

namespace Inv

theorem fresh (h : Inv K σ) {p : Pid} (hp : σ.procs p = none) : Fresh p σ.world where
  history := fun c hc hcp => by
    obtain ⟨past, j, -, hj, -⟩ := h.history.of_mem hc
    rw [hcp, Sys.job, hp] at hj
    cases hj
  charges := fun ch hch hcp => by
    obtain ⟨b, i, k, req, a, hj, -⟩ := h.sent ch hch
    rw [hcp, Sys.job, hp] at hj
    cases hj

theorem job_start (h : Inv K σ) {p q : Pid} {j j' : Job}
    (hp : (p.duty = none ∧ σ.procs p = none) ∨ p.duty = some j) (hq : σ.job q = some j') :
    (σ.start p j).job q = some j' := by
  by_cases hqp : q = p
  · subst hqp
    rw [Sys.start, Sys.job_of_procs Sys.set_procs_self]
    rcases hp with ⟨-, hp⟩ | hp
    · rw [Sys.job, hp] at hq; cases hq
    · rw [(h.fits q j' hq).duty hp]; rfl
  · rw [Sys.start, Sys.job, Sys.set_procs_ne hqp]; exact hq

theorem start (h : Inv K σ) (hk : Honours K σ l) {p : Pid} {j : Job} (hhead : σ.head p = none)
    (hp : (p.duty = none ∧ σ.procs p = none) ∨ p.duty = some j) (hfit : j.Fits p) :
    Inv K (σ.start p j) where
  history := h.history.mono fun q j' => h.job_start hp
  fits := fun q j' hq => by
    by_cases hqp : q = p
    · subst hqp
      rw [Sys.start, Sys.job_of_procs Sys.set_procs_self, Option.some.injEq] at hq
      exact hq ▸ hfit
    · rw [Sys.start, Sys.job, Sys.set_procs_ne hqp] at hq
      exact h.fits q j' hq
  idle := fun q hq => by
    by_cases hqp : q = p
    · exact hqp ▸ h.idle p hhead
    · rw [Sys.start, Sys.set_head_ne hqp] at hq
      exact h.idle q hq
  safe := fun q j' x hq => by
    by_cases hqp : q = p
    · subst hqp
      rw [Sys.start, Sys.set_procs_self, Option.some.injEq, Job.proc, Proc.mk.injEq,
        Option.some.injEq] at hq
      obtain ⟨rfl, rfl⟩ := hq
      refine job_safe ⟨h.idle q hhead, hk.start, fun req hreq => ?_⟩
      rcases hp with ⟨-, hp⟩ | hp
      · exact h.fresh hp
      · subst hreq
        cases q <;> cases hp
    · rw [Sys.start, Sys.set_procs_ne hqp] at hq
      exact h.safe q j' x hq
  sent := fun ch hch =>
    let ⟨b, i, k, req, a, hj, hrest⟩ := h.sent ch hch
    ⟨b, i, k, req, a, h.job_start hp hj, hrest⟩
  once := h.once

/-- A postcondition is not disturbed by others. -/
theorem returned_later {p : Pid} {j : Job} {r : Except AppError Response} {w w' : World}
    (hr : Rely K p j none w w') (h : Returned p j r w) : Returned p j r w' := by
  cases r with
  | error e => exact hr.frame.tx.trans h
  | ok r =>
    exact ⟨hr.frame.tx.trans h.1, h.2.later hr.toLater⟩

theorem kill (h : Inv K σ) {p : Pid} {j : Job} {e : Eff}
    {k : e.Reply → Prog payman (Except AppError Response)}
    (hp : σ.procs p = some ⟨j, some (.op e k)⟩) :
    Inv K (σ.set p ⟨j, none⟩ { σ.world with sessions := σ.world.sessions.rollback p }) := by
  have hjob := Sys.job_of_procs hp
  refine ⟨h.history.mono fun q j' hj' => (Sys.set_job hjob).trans hj',
    fun q j' hj' => h.fits q j' (Sys.set_job hjob ▸ hj'), fun q hq => ?_,
    fun q j' x hq => ?_, fun ch hch => ?_, h.once⟩
  · by_cases hqp : q = p
    · subst hqp
      exact Function.update_self ..
    · rw [Sys.set_head_ne hqp] at hq
      exact (Function.update_of_ne hqp ..).trans (h.idle q hq)
  · by_cases hqp : q = p
    · subst hqp
      rw [Sys.set_procs_self] at hq
      cases hq
    · rw [Sys.set_procs_ne hqp] at hq
      refine (h.safe q j' x hq).mono (fun r w w' => returned_later) ?_
      exact ⟨.quiet (Int.le_refl _) rfl rfl rfl, Sessions.frame_rollback hqp, fun _ _ _ _ => rfl⟩
  · obtain ⟨b, i, k, req, a, hj, hrest⟩ := h.sent ch hch
    exact ⟨b, i, k, req, a, (Sys.set_job hjob).trans hj, hrest⟩

/-- One operation of `p` keeps the contracts of all. -/
theorem exec_keeps (h : Inv K σ) {p : Pid} {c : Choice} (hk : Honours K σ (.exec p c)) {j : Job}
    {e : Eff} {k : e.Reply → Prog payman (Except AppError Response)} {w : World} {r : e.Reply}
    (hp : σ.procs p = some ⟨j, some (.op e k)⟩) (hx : σ.world.exec p e c = some (w, r)) :
    (Guar K p j σ.world w ∧ Emits j σ.world w) ∧
      Safe (contract K p j) (Returned p j) (k r) w ∧
      ∀ q, q ≠ p → ∀ j' x, σ.procs q = some ⟨j', some x⟩ → Rely K q j' x.head σ.world w := by
  have hstep : σ.step (.exec p c) = some (σ.set p ⟨j, some (k r)⟩ w) := by
    simp only [Sys.step, hp, hx, Option.map_some]
  obtain ⟨hg, hsafe⟩ := (h.safe p j _ hp).next (hk.answer p c e rfl (Sys.head_of_op hp)) hx
  refine ⟨hg, hsafe, fun q hqp j' x hq => hg.1.rely hx hqp h.history.chain (fun hK => ?_)
    (fun hK ws hh i hi => ?_) fun hK ws hh i hi => ?_⟩
  · have halone := hk.alone hK p c rfl q hqp
    rwa [Sys.head, hq] at halone
  · refine hk.drafts hK _ (Sys.commits_of_step hstep hh) q hqp i ?_
    rw [Sys.rewriting, Sys.job_of_procs hq, Sys.head, hq]
    exact hi
  · refine hk.scans hK _ (Sys.commits_of_step hstep hh) q hqp i ?_
    rw [Sys.replacing, Sys.job_of_procs hq, Sys.head, hq]
    exact hi

theorem exec (h : Inv K σ) {p : Pid} {c : Choice} (hk : Honours K σ (.exec p c)) {j : Job}
    {e : Eff} {k : e.Reply → Prog payman (Except AppError Response)} {w : World} {r : e.Reply}
    (hp : σ.procs p = some ⟨j, some (.op e k)⟩) (hx : σ.world.exec p e c = some (w, r)) :
    Inv K (σ.set p ⟨j, some (k r)⟩ w) := by
  have hjob := Sys.job_of_procs hp
  obtain ⟨⟨hg, -⟩, hsafe, hrely⟩ := h.exec_keeps hk hp hx
  refine ⟨?_, fun q j' hj' => h.fits q j' (Sys.set_job hjob ▸ hj'), fun q hq => ?_,
    fun q j' x hq => ?_, fun ch hch => ?_, ?_⟩
  · have hold : History K (σ.set p ⟨j, some (k r)⟩ w).job σ.world.history σ.db :=
      h.history.mono fun q j' hj' => (Sys.set_job hjob).trans hj'
    rw [Sys.db, Sys.set_world]
    cases hg with
    | quiet hdb hh hc => rw [hdb, hh]; exact hold
    | send a card hdb hh hc hs => rw [hdb, hh]; exact hold
    | commit ws hdb hh hc he => rw [hdb, hh]; exact .cons hold ((Sys.set_job hjob).trans hjob) he
  · by_cases hqp : q = p
    · subst hqp
      rw [Sys.head, Sys.set_procs_self] at hq
      cases hkr : k r with
      | op e' k' => rw [hkr] at hq; cases hq
      | ret a =>
        rw [hkr] at hsafe
        cases a with
        | error e => exact hsafe
        | ok a => exact hsafe.1
    · rw [Sys.set_head_ne hqp] at hq
      exact (World.exec_frame hx hqp).tx.trans (h.idle q hq)
  · by_cases hqp : q = p
    · subst hqp
      rw [Sys.set_procs_self] at hq
      cases hq
      exact hsafe
    · rw [Sys.set_procs_ne hqp] at hq
      exact (h.safe q j' x hq).mono (fun r w w' => returned_later) (hrely q hqp j' x hq)
  · have hold : ∀ ch ∈ σ.world.charges, ∃ b i k' req a, (σ.set p ⟨j, some (k r)⟩ w).job ch.pid =
        some (.call (.pay_invoice i b (some k') req)) ∧ a.id = ch.attempt_id ∧
        req.card_token = ch.card_token ∧ Started w.history ch.pid (k', b, i) a := fun ch hch => by
      obtain ⟨b, i, k', req, a, hj, hid, hcard, hs⟩ := h.sent ch hch
      exact ⟨b, i, k', req, a, (Sys.set_job hjob).trans hj, hid, hcard, hs.mono hg.history⟩
    rw [Sys.set_world] at hch ⊢
    cases hg with
    | quiet hdb hh hc => exact hold ch (hc ▸ hch)
    | commit ws hdb hh hc he => exact hold ch (hc ▸ hch)
    | send a card hdb hh hc hs =>
      rw [hc] at hch
      rcases List.mem_cons.mp hch with rfl | hch
      · cases hs with
        | charge hb hfirst =>
          exact ⟨_, _, _, _, _, (Sys.set_job hjob).trans hjob, rfl, rfl, hh ▸ hb.started⟩
      · exact hold ch hch
  · rw [Sys.set_world]
    cases hg with
    | quiet hdb hh hc => rw [hc]; exact h.once
    | commit ws hdb hh hc he => rw [hc]; exact h.once
    | send a card hdb hh hc hs =>
      rw [hc, List.map_cons, List.nodup_cons]
      refine ⟨fun hmem => ?_, h.once⟩
      obtain ⟨ch, hch, hpid⟩ := List.mem_map.mp hmem
      cases hs with
      | charge hb hfirst => exact hfirst ch hch hpid

/-- The step lemma. -/
theorem step (h : Inv K σ) (hk : Honours K σ l) (hstep : σ.step l = some σ') : Inv K σ' := by
  cases Sys.moves hstep with
  | start p j hhead hp hfit _ => exact h.start hk hhead hp hfit
  | exec p c hl j e k w r hp hx => subst hl; exact h.exec hk hp hx
  | kill p hl j e k hp => exact h.kill hp

/-- What a step does, by whoever takes it. -/
theorem happens (h : Inv K σ) (hk : Honours K σ l) (hstep : σ.step l = some σ') :
    Happens K σ l σ' := by
  cases Sys.moves hstep with
  | start => exact .quiet rfl rfl rfl
  | kill p hl j e k hp => exact .quiet rfl rfl rfl
  | exec p c hl j e k w r hp hx =>
    subst hl
    have hjob := Sys.job_of_procs hp
    cases (h.exec_keeps hk hp hx).1.1 with
    | quiet hdb hh hc => exact .quiet hdb hh hc
    | commit ws hdb hh hc he => exact .commit p j ws hjob hdb hh hc he
    | send a card hdb hh hc hs => exact .send p j a card hjob hdb hh hc hs

/-- A process goes on with its job, or starts it again. -/
theorem job_stays (h : Inv K σ) (hstep : σ.step l = some σ') {q : Pid} {j : Job}
    (hq : σ.job q = some j) : σ'.job q = some j := by
  cases Sys.moves hstep with
  | start p j' _ hp => exact h.job_start hp hq
  | exec p c _ j' e k w r hp => exact (Sys.set_job (Sys.job_of_procs hp)).trans hq
  | kill p _ j' e k hp => exact (Sys.set_job (Sys.job_of_procs hp)).trans hq

/-- A step spawns one dispatch at most. -/
theorem spawned (h : Inv K σ) (hk : Honours K σ l) (hstep : σ.step l = some σ') :
    σ'.world.spawned = σ.world.spawned ∨ ∃ t, σ'.world.spawned = t :: σ.world.spawned := by
  cases Sys.moves hstep with
  | start | kill => exact .inl rfl
  | exec p c hl j e k w r hp hx =>
    subst hl
    exact (h.exec_keeps hk hp hx).1.2.spawned.imp_right fun ⟨t, ht, _⟩ => ⟨t, ht⟩

theorem initial : Inv K Sys.initial where
  history := .nil
  fits := fun _ _ h => by cases h
  idle := fun _ _ => rfl
  safe := nofun
  sent := nofun
  once := List.nodup_nil

end Inv

/-- Earlier dispatches keep their number. -/
theorem World.spawned_reverse {w w' : World} (h : w'.spawned = w.spawned ∨
    ∃ t, w'.spawned = t :: w.spawned) {n : ℕ} {t : DispatchTask}
    (hn : w.spawned.reverse[n]? = some t) : w'.spawned.reverse[n]? = some t := by
  rcases h with heq | ⟨t', heq⟩
  · rw [heq]
    exact hn
  · have hlt : n < w.spawned.reverse.length := (List.getElem?_eq_some_iff.mp hn).1
    rw [heq, List.reverse_cons, List.getElem?_append_left hlt]
    exact hn

/-! ### Runs -/

variable {ok : Sys → Sys.Label → Prop}

/-- Induction over a run, with the invariant and what each step does. -/
theorem Inv.induct {motive : Sys → Prop} (h : Inv K σ) (hok : ∀ σ l, ok σ l → Honours K σ l)
    (hrun : Sys.Run ok σ σ') (base : motive σ)
    (step : ∀ σ l σ', Inv K σ → ok σ l → σ.step l = some σ' → Happens K σ l σ' → motive σ →
      motive σ') : Inv K σ' ∧ motive σ' := by
  induction hrun with
  | refl => exact ⟨h, base⟩
  | tail _ hs ih =>
    obtain ⟨l, hl, hstep⟩ := hs
    have hk := hok _ l hl
    exact ⟨ih.1.step hk hstep, step _ l _ ih.1 hl hstep (ih.1.happens hk hstep) ih.2⟩

/-- The invariant holds throughout a run. -/
theorem Inv.run (h : Inv K σ) (hok : ∀ σ l, ok σ l → Honours K σ l) (hrun : Sys.Run ok σ σ') :
    Inv K σ' :=
  (h.induct hok hrun (motive := fun _ => True) trivial fun _ _ _ _ _ _ _ _ => trivial).1

/-- Every run is a run without restrictions. -/
theorem Sys.Run.reachable (h : Sys.Run ok .initial σ) : σ.Reachable :=
  Relation.ReflTransGen.mono (fun _ _ ⟨l, _, hstep⟩ => ⟨l, trivial, hstep⟩) _ _ h

theorem Sys.Reachable.inv (h : σ.Reachable) : Inv .any σ := Inv.initial.run (fun _ _ _ => .any) h

/-! ### Runs as lists of steps -/

namespace Sys

/-- Every step of the list is taken in a state where `ok` holds of it. -/
def Allowed (ok : Sys → Label → Prop) : Sys → List Label → Prop
  | _, [] => True
  | σ, l :: ls => ok σ l ∧ ∀ σ' ∈ σ.step l, σ'.Allowed ok ls

instance Allowed.decidable [∀ σ l, Decidable (ok σ l)] :
    ∀ (σ : Sys) (ls : List Label), Decidable (σ.Allowed ok ls)
  | _, [] => isTrue trivial
  | σ, l :: ls =>
    have := fun σ' : Sys => Allowed.decidable σ' ls
    inferInstanceAs (Decidable (ok σ l ∧ ∀ σ' ∈ σ.step l, σ'.Allowed ok ls))

theorem run_of_steps : ∀ {ls : List Label} {σ σ' : Sys}, σ.steps ls = some σ' → σ.Allowed ok ls →
    Run ok σ σ'
  | [], _, _, h, _ => by cases h; exact .refl
  | l :: ls, σ, σ', h, ⟨hl, hrest⟩ => by
    obtain ⟨σ₁, hstep, h⟩ := Option.bind_eq_some_iff.mp h
    exact .head ⟨l, hl, hstep⟩ (run_of_steps h (hrest σ₁ hstep))

theorem Allowed.always : ∀ (ls : List Label) (σ : Sys), σ.Allowed (fun _ _ => True) ls
  | [], _ => trivial
  | _ :: ls, _ => ⟨trivial, fun σ' _ => Allowed.always ls σ'⟩

theorem Allowed.mono {ok' : Sys → Label → Prop} (h : ∀ σ l, ok σ l → ok' σ l) :
    ∀ {ls : List Label} {σ : Sys}, σ.Allowed ok ls → σ.Allowed ok' ls
  | [], _, _ => trivial
  | _ :: _, _, ⟨hl, hrest⟩ => ⟨h _ _ hl, fun σ' hσ' => (hrest σ' hσ').mono h⟩

theorem Allowed.and {ok' : Sys → Label → Prop} : ∀ {ls : List Label} {σ : Sys},
    σ.Allowed ok ls → σ.Allowed ok' ls → σ.Allowed (fun σ l => ok σ l ∧ ok' σ l) ls
  | [], _, _, _ => trivial
  | _ :: _, _, ⟨hl, hrest⟩, ⟨hl', hrest'⟩ =>
    ⟨⟨hl, hl'⟩, fun σ' hσ' => (hrest σ' hσ').and (hrest' σ' hσ')⟩

/-- What an invariant of the steps makes of their condition. -/
theorem Allowed.imp {ok' : Sys → Label → Prop} {I : Sys → Prop}
    (hI : ∀ σ l σ', I σ → ok σ l → σ.step l = some σ' → I σ')
    (himp : ∀ σ l, I σ → ok σ l → ok' σ l) : ∀ {ls : List Label} {σ : Sys}, I σ →
      σ.Allowed ok ls → σ.Allowed ok' ls
  | [], _, _, _ => trivial
  | _ :: _, _, h, ⟨hl, hrest⟩ =>
    ⟨himp _ _ h hl, fun σ' hσ' => (hrest σ' hσ').imp hI himp (hI _ _ σ' h hl hσ')⟩

/-- A condition on the labels alone. -/
theorem Allowed.of_labels {φ : Label → Prop} : ∀ {ls : List Label} {σ : Sys}, (∀ l ∈ ls, φ l) →
    σ.Allowed ok ls → σ.Allowed (fun σ l => φ l ∧ ok σ l) ls
  | [], _, _, _ => trivial
  | _ :: _, _, hφ, ⟨hl, hrest⟩ =>
    have hφ := List.forall_mem_cons.mp hφ
    ⟨⟨hφ.1, hl⟩, fun σ' hσ' => .of_labels hφ.2 (hrest σ' hσ')⟩

theorem Allowed.append : ∀ {ls ls' : List Label} {σ : Sys}, σ.Allowed ok (ls ++ ls') →
    σ.Allowed ok ls ∧ ∀ σ' ∈ σ.steps ls, σ'.Allowed ok ls'
  | [], _, _, h => ⟨trivial, fun σ' hσ' => by cases hσ'; exact h⟩
  | l :: ls, ls', σ, ⟨hl, hrest⟩ => by
    refine ⟨⟨hl, fun σ₁ hσ₁ => (hrest σ₁ hσ₁).append.1⟩, fun σ' hσ' => ?_⟩
    obtain ⟨σ₁, hσ₁, hσ'⟩ := Option.bind_eq_some_iff.mp hσ'
    exact (hrest σ₁ hσ₁).append.2 σ' hσ'

theorem reachable_of_steps {ls : List Label} (h : initial.steps ls = some σ) : σ.Reachable :=
  run_of_steps h (Allowed.always ls _)

/-- The process that a step starts. -/
def Label.started : Label → Option Pid
  | .arrive n _ => some (.call n)
  | .background n => some (.task n)
  | .tick => some .worker
  | .webhook_tick => some .webhook_worker
  | .exec .. => none
  | .kill _ => none

/-- A call that has just arrived. -/
theorem procs_of_arrive {n : ℕ} {q : Request} (h : σ.step (.arrive n q) = some σ') :
    σ'.procs (.call n) = some (Job.call q).proc := by
  simp only [step] at h
  split at h <;> cases h
  exact set_procs_self

/-- Processes that were not started are not there. -/
theorem procs_of_step {ps : List Pid} (h : σ.step l = some σ') (hl : ∀ p ∈ l.started, p ∈ ps)
    (hps : ∀ q, q ∉ ps → σ.procs q = none) : ∀ q, q ∉ ps → σ'.procs q = none := by
  have hset : ∀ {p : Pid} {pr : Proc} {w : World}, p ∈ ps → ∀ q, q ∉ ps →
      (σ.set p pr w).procs q = none := fun {p _ _} hp q hq => by
    have hqp : q ≠ p := fun hqp => hq (hqp ▸ hp)
    rw [set_procs_ne hqp]
    exact hps q hq
  have hmem : ∀ {p : Pid} {pr : Proc}, σ.procs p = some pr → p ∈ ps := fun {p pr} hp => by
    by_contra hn
    cases (hps p hn).symm.trans hp
  cases l with
  | arrive n q =>
    simp only [step] at h
    split at h <;> cases h
    exact hset (hl _ rfl)
  | background n =>
    simp only [step] at h
    split at h
    · cases h
    · split at h <;> cases h
      exact hset (hl _ rfl)
  | tick =>
    simp only [step] at h
    split at h <;> cases h
    exact hset (hl _ rfl)
  | webhook_tick =>
    simp only [step] at h
    split at h <;> cases h
    exact hset (hl _ rfl)
  | exec p c =>
    simp only [step] at h
    split at h
    · rename_i j e k hp
      obtain ⟨⟨w, r⟩, hx, rfl⟩ := Option.map_eq_some_iff.mp h
      exact hset (hmem hp)
    · cases h
  | kill p =>
    simp only [step] at h
    split at h <;> cases h
    rename_i j e k hp
    exact hset (hmem hp)

theorem procs_of_steps {ps : List Pid} : ∀ {ls : List Label} {σ σ' : Sys},
    σ.steps ls = some σ' → (∀ l ∈ ls, ∀ p ∈ l.started, p ∈ ps) →
      (∀ q, q ∉ ps → σ.procs q = none) → ∀ q, q ∉ ps → σ'.procs q = none
  | [], _, _, h, _, hps => by cases h; exact hps
  | l :: ls, σ, _, h, hls, hps => by
    obtain ⟨σ₁, hstep, h⟩ := Option.bind_eq_some_iff.mp h
    rw [List.forall_mem_cons] at hls
    exact procs_of_steps h hls.2 (procs_of_step hstep hls.1 hps)

/-- A condition on all processes needs to be checked for those that a run starts. -/
theorem Allowed.of_started {ps : List Pid} {ok : Sys → Label → Pid → Prop}
    (hok : ∀ σ l q, σ.procs q = none → ok σ l q) : ∀ (ls : List Label) (σ : Sys),
    (∀ q, q ∉ ps → σ.procs q = none) → (∀ l ∈ ls, ∀ p ∈ l.started, p ∈ ps) →
      σ.Allowed (fun σ l => ∀ q ∈ ps, ok σ l q) ls → σ.Allowed (fun σ l => ∀ q, ok σ l q) ls
  | [], _, _, _, _ => trivial
  | l :: ls, σ, hps, hls, ⟨hl, hrest⟩ => by
    rw [List.forall_mem_cons] at hls
    refine ⟨fun q => ?_, fun σ' hσ' => ?_⟩
    · by_cases hq : q ∈ ps
      · exact hl q hq
      · exact hok σ l q (hps q hq)
    · exact of_started hok ls σ' (procs_of_step hσ' hls.1 hps) hls.2 (hrest σ' hσ')

/-- An operation that succeeds at once. -/
def calm : Choice := ⟨false, 0, 0, [], .timed_out⟩

/-- `n` such operations of a process. -/
def go (p : Pid) (n : ℕ) : List Label := List.replicate n (.exec p calm)

/-- One that draws the id `u`. -/
def fresh (p : Pid) (u : Uuid) : List Label := [.exec p { calm with uuid := u }]

/-- One that the PSP answers. -/
def answered (p : Pid) (a : Answer) : List Label := [.exec p { calm with answer := a }]

/-- Business 1 has customer 10 and for it the draft invoice 20 with one item. -/
def issued : List Label :=
  [.arrive 0 (.create_customer 1 ⟨"Ann", "ann@example.com"⟩)] ++ fresh (.call 0) 10 ++
  go (.call 0) 1 ++ [.arrive 1 (.create_invoice 1 ⟨10, 0, [⟨"work", 2, 50⟩]⟩)] ++
  go (.call 1) 3 ++ fresh (.call 1) 20 ++ go (.call 1) 1 ++ fresh (.call 1) 30 ++ go (.call 1) 1

/-- Invoice 20 has been finalized, at version 2. -/
def opened : List Label :=
  issued ++ [.arrive 2 (.finalize_invoice 20 1 ⟨1⟩)] ++ go (.call 2) 5

/-- Call `n` pays invoice 20 with attempt `a`, up to the answer of the PSP. -/
def pays (n : ℕ) (k : String) (v : Int32) (a : Uuid) : List Label :=
  [.arrive n (.pay_invoice 20 1 (some k) ⟨"card", v⟩)] ++ go (.call n) 3 ++ fresh (.call n) a ++
  go (.call n) 4

end Sys

end Payman
