import Payman.Claims.Heralds

/-! All heralds, and what they owe for one attempt.

    `Announced` says what a step does to the attempts that are settled, to what each process has to
    announce, and to what has been announced. An attempt is pending, written off, to be announced by
    one process, or announced once (`Account`), and every step goes on from one to the next. -/

namespace Payman
open Schemes

variable {fate : Uuid → Option Verdict} {σ σ' : Sys} {p : Pid} {pays : Option (Uuid × Uuid)}
  {x : Herald} {l : Sys.Label} {ξ : Pid → Herald} {K : Setting} {T : Pid} {past : List Commit}
  {db : Db} {j : Job} {ws : List Write}

/-! ### All processes -/

/-- A step of others leaves a process where it is. -/
theorem Sys.Tells.other (h : σ.Tells fate p pays x) (hprocs : σ'.procs p = σ.procs p)
    (hframe : Sessions.Frame p σ.world.sessions σ'.world.sessions) (hgrows : Grows σ.db σ'.db)
    (hlast : σ'.last p = σ.last p) : σ'.Tells fate p pays x where
  phase := by
    rw [hprocs]
    exact h.phase
  tx := by
    rw [World.tx, hframe.tx]
    cases x with
    | busy k =>
      obtain ⟨t, ht, hsil⟩ := h.tx
      refine ⟨t, ht, fun row hrow =>
        (hsil row hrow).imp_left fun hs => hs.imp_right fun hnone => ?_⟩
      have hlock : LockKey.attempt row.id ∈ lockSet t.writes :=
        List.mem_flatMap.mpr ⟨_, hrow, by simp⟩
      exact (hframe.locked t ht _ hlock _ (Db.readsOnly_attempt row.id)).trans hnone
    | _ => exact h.tx
  known := h.known.grows hgrows
  news := h.news
  owes := fun n hn => (h.owes n hn).imp hlast.trans fun hb b hx => (hb b hx).grows hgrows

/-- A process that is about to start. -/
theorem Sys.Tells.start (hj : j.Tells) (hprog : (σ.procs p).bind (·.prog) = some j.program.run)
    (htx : σ.world.tx p = none) : σ.Tells fate p j.pays (.quiet []) where
  phase := by
    rw [hprog]
    exact Job.tells_follows hj
  tx := htx
  known := nofun
  news := nofun
  owes := nofun

theorem Herald.Done.owes (h : x.Done) : x.owes = none := by
  obtain ⟨k, rfl⟩ := h
  rfl

/-- A process that has come to its end. -/
theorem Sys.Tells.rest (h : σ.Tells fate p pays x) (hhead : σ.head p = none) : x.Done := by
  have hphase := h.phase
  rcases Sys.rest_of_head hhead with hp | ⟨a, hp⟩
  · rw [hp] at hphase
    exact hphase
  · rw [hp] at hphase
    exact hphase

/-- Other jobs write no attempt. -/
theorem Effect.plain (h : Effect K T past db j ws) (hj : ¬j.Tells) (row : AttemptRow) :
    Write.put_attempt row ∉ ws := by
  intro hrow
  cases h with
  | pay_start | pay_record => exact hj trivial
  | retry | settle | settle_only => exact hj trivial
  | edit_items _ _ _ hpre =>
    rcases hpre with ⟨rfl, rfl⟩ | ⟨rfl, -⟩ <;> simp at hrow
  | _ => simp at hrow

/-- A process that does something else has recorded no outcome. -/
theorem Inv.last_plain (h : Inv K σ) (hj : ∀ j, σ.job p = some j → ¬j.Tells) :
    σ.last p = none := by
  cases hfind : σ.world.history.find? fun c => decide (c.pid = p) with
  | none => rw [Sys.last, hfind, Option.bind_none]
  | some c =>
    obtain ⟨past, j, -, hjob, he⟩ := h.history.of_mem (List.mem_of_find?_eq_some hfind)
    have hpid : c.pid = p := by
      have hdec := List.find?_some hfind
      exact of_decide_eq_true hdec
    have hno : c.attempts = [] := List.eq_nil_iff_forall_not_mem.mpr fun row hrow =>
      he.plain (hj j (hpid ▸ hjob)) row (Commit.mem_attempts.mp hrow)
    rw [Sys.last, hfind, Option.bind_some, hno]
    rfl

/-- Each process is where `ξ` has it. -/
structure Sys.Heralds (fate : Uuid → Option Verdict) (σ : Sys) (ξ : Pid → Herald) : Prop where
  tells : ∀ p j, σ.job p = some j → j.Tells → σ.Tells fate p j.pays (ξ p)
  plain : ∀ p, (∀ j, σ.job p = some j → ¬j.Tells) → (ξ p).owes = none

theorem Sys.Heralds.initial : Sys.initial.Heralds fate fun _ => .quiet [] where
  tells := nofun
  plain := fun _ _ => rfl

/-- The business `b` owns the invoice `i`, or its call to pay the invoice has started the attempt
    `a`. -/
def Sys.Bills (σ : Sys) (a i b : Uuid) : Prop :=
  σ.db.Belongs i b ∨ ∃ p k req x, σ.job p = some (.call (.pay_invoice i b (some k) req)) ∧
    Started σ.world.history p (k, b, i) x ∧ x.id = a

theorem Sys.Bills.step {a i b : Uuid} (h : σ.Bills a i b) (hinv : Inv K σ) (hk : Honours K σ l)
    (hstep : σ.step l = some σ') : σ'.Bills a i b := by
  have hhappens := hinv.happens hk hstep
  rcases h with hb | ⟨p, k, req, x, hp, hstarted, hid⟩
  · exact .inl (hb.grows hhappens.grows)
  · exact .inr ⟨p, k, req, x, hinv.job_stays hstep hp, hstarted.mono hhappens.history, hid⟩

/-- A call to pay an invoice writes no attempt but the one it has started. -/
theorem Effect.began {i b : Uuid} {key : Option String} {req : PayInvoiceRequest} {row : AttemptRow}
    (h : Effect K T past db (.call (.pay_invoice i b key req)) ws)
    (hrow : .put_attempt row ∈ ws) : ∃ k x, key = some k ∧
      Started (⟨T, db, ws⟩ :: past) T (k, b, i) x ∧ x.id = row.id := by
  have hold : ∀ c ∈ past, c ∈ ⟨T, db, ws⟩ :: past := fun _ hc => List.mem_cons_of_mem _ hc
  cases h with
  | @pay_start b i a k req r row' kr t hr hrow' hfresh hkr =>
    obtain rfl : row = row' := by simpa using hrow
    refine ⟨k, row.toPaymentAttempt, rfl, ⟨_, List.mem_cons_self .., rfl, hr.2.2.2.2, ?_, _, row,
      kr, rfl, rfl, ?_⟩, rfl⟩
    · rw [hrow']
      exact hfresh
    · rw [hkr]
      rfl
  | @pay_record b i k req a row' r kr o ans t hb hrow' =>
    obtain rfl : row = o.record t row' := by simpa using hrow
    refine ⟨k, a, rfl, hb.started.mono hold, ?_⟩
    rw [Outcome.record_id, Db.id_of_attempt hrow']
  | pay_leave => simp at hrow

theorem History.began {job : Pid → Option Job} (h : History K job past db) {c : Commit}
    (hc : c ∈ past) {i b : Uuid} {key : Option String} {req : PayInvoiceRequest}
    (hjob : job c.pid = some (.call (.pay_invoice i b key req))) {row : AttemptRow}
    (hrow : .put_attempt row ∈ c.writes) :
    ∃ k x, key = some k ∧ Started past c.pid (k, b, i) x ∧ x.id = row.id := by
  induction h with
  | nil => cases hc
  | @cons past db p j ws h hp he ih =>
    rcases List.mem_cons.mp hc with rfl | hc
    · cases hp.symm.trans hjob
      exact he.began hrow
    · obtain ⟨k, x, hkey, hstarted, hid⟩ := ih hc
      exact ⟨k, x, hkey, hstarted.mono fun _ hc => List.mem_cons_of_mem _ hc, hid⟩

/-- So the business that it pays for may be told of the attempt. -/
theorem Inv.bills (h : Inv K σ) {i b : Uuid} {key : Option String} {req : PayInvoiceRequest}
    (hjob : σ.job p = some (.call (.pay_invoice i b key req))) {c : Commit}
    (hc : c ∈ σ.world.history) (hpid : c.pid = p) {row : AttemptRow}
    (hrow : .put_attempt row ∈ c.writes) : σ.Bills row.id i b := by
  subst hpid
  obtain ⟨k, x, rfl, hstarted, hid⟩ := h.history.began hc hjob hrow
  exact .inr ⟨_, k, req, x, hjob, hstarted, hid⟩

/-- A process has committed the attempt whose outcome it has committed last. -/
theorem Sys.commit_of_last {a : Uuid} (h : σ.last p = some a) :
    ∃ c ∈ σ.world.history, c.pid = p ∧ ∃ row, .put_attempt row ∈ c.writes ∧ row.id = a := by
  obtain ⟨c, hfind, ha⟩ := Option.bind_eq_some_iff.mp h
  obtain ⟨row, hrow, rfl⟩ := Option.map_eq_some_iff.mp ha
  have hpid : c.pid = p := by
    have hdec := List.find?_some hfind
    exact of_decide_eq_true hdec
  have hmem := Commit.mem_attempts.mp (List.mem_of_find?_eq_some hrow)
  exact ⟨c, List.mem_of_find?_eq_some hfind, hpid, row, hmem, rfl⟩

theorem Job.of_pays {i b : Uuid} (h : j.pays = some (i, b)) :
    ∃ key req, j = .call (.pay_invoice i b key req) := by
  cases j with
  | call q =>
    cases q with
    | pay_invoice => cases h; exact ⟨_, _, rfl⟩
    | _ => cases h
  | _ => cases h

/-- The dispatch that a step spawns for the attempt `a`, with its place among all dispatches: its
    process has committed the outcome of `a` last. -/
def Sys.dispatched (a : Uuid) (σ : Sys) : Sys.Label → Option (ℕ × DispatchTask)
  | .exec p _ =>
    match σ.head p with
    | some (.spawn_dispatch t) =>
      if σ.last p = some a then some (σ.world.spawned.length, t) else none
    | _ => none
  | _ => none

/-- What a step does to the attempts that are settled, to what each process has to announce, and to
    what has been announced. -/
inductive Sys.Announced (fate : Uuid → Option Verdict) (σ : Sys) (l : Sys.Label) (σ' : Sys)
    (o o' : Pid → Option News) : Prop where
  | kept (hs : ∀ a, σ'.db.settled a = σ.db.settled a) (ho : o' = o)
      (hno : ∀ a, σ.dispatched a l = none)
  | expired (hs : ∀ a, σ'.db.settled a = σ.db.settled a ∨ (σ.db.settled a = none ∧
      σ'.db.settled a = some .Failed ∧ fate a ≠ some .declined)) (ho : o' = o)
      (hno : ∀ a, σ.dispatched a l = none)
  | recorded (p : Pid) (n : News) (hn : σ.db.settled n.attempt = none)
      (hs : σ'.db.settled n.attempt = some n.verdict.status)
      (hother : ∀ a, a ≠ n.attempt → σ'.db.settled a = σ.db.settled a)
      (hfate : fate n.attempt = some n.verdict) (ho : o' = Function.update o p (some n))
      (hp : o p = none) (hno : ∀ a, σ.dispatched a l = none)
  | announced (p : Pid) (n : News) (b : Uuid) (hs : ∀ a, σ'.db.settled a = σ.db.settled a)
      (ho : o' = Function.update o p none) (hp : o p = some n)
      (hyes : σ.dispatched n.attempt l =
        some (σ.world.spawned.length, ⟨b, n.invoice, n.verdict.event⟩))
      (hno : ∀ a, a ≠ n.attempt → σ.dispatched a l = none)
      (hspawned : σ'.world.spawned = ⟨b, n.invoice, n.verdict.event⟩ :: σ.world.spawned)
      (hrow : ∃ row, σ.db.attempt n.attempt = some row ∧ row.invoice_id = n.invoice)
      (hb : σ.Bills n.attempt n.invoice b)

theorem Sys.dispatched_of_head {e : Eff} {c : Choice} (hhead : σ.head p = some e)
    (he : e.task = none) (a : Uuid) : σ.dispatched a (.exec p c) = none := by
  simp only [Sys.dispatched, hhead]
  split
  · rename_i t h
    cases h
    cases he
  · rfl

theorem Sys.dispatched_of_spawn {t : DispatchTask} {c : Choice}
    (hhead : σ.head p = some (.spawn_dispatch t)) (a : Uuid) : σ.dispatched a (.exec p c) =
      if σ.last p = some a then some (σ.world.spawned.length, t) else none := by
  simp only [Sys.dispatched, hhead]

theorem Sys.dispatched_of_other (hl : ∀ p c, l ≠ .exec p c) (a : Uuid) :
    σ.dispatched a l = none := by
  cases l with
  | exec p c => exact absurd rfl (hl p c)
  | _ => rfl

/-- Who commits does not change what others have committed last. -/
theorem Guar.last_other {q : Pid} (hq : q ≠ p) (h : Guar K p j σ.world σ'.world) :
    σ'.last q = σ.last q := by
  cases h with
  | quiet _ hh _ => exact Sys.last_of_history hh
  | send _ _ _ hh _ _ => exact Sys.last_of_history hh
  | commit ws _ hh _ _ => exact Sys.last_of_other (Ne.symm hq) hh

/-- A process that has come to its end has nothing to announce. -/
theorem Sys.Heralds.rest (h : σ.Heralds fate ξ) (hhead : σ.head p = none) : (ξ p).owes = none := by
  by_cases hj : ∃ j, σ.job p = some j ∧ j.Tells
  · obtain ⟨j, hjob, hj⟩ := hj
    exact ((h.tells p j hjob hj).rest hhead).owes
  · exact h.plain p fun j hjob hj' => hj ⟨j, hjob, hj'⟩

/-- A new process has nothing to announce. -/
theorem Sys.Heralds.start (h : σ.Heralds fate ξ) (hinv : Inv K σ) (hhead : σ.head p = none)
    (hp : (p.duty = none ∧ σ.procs p = none) ∨ p.duty = some j) :
    (σ.start p j).Heralds fate (Function.update ξ p (.quiet [])) ∧ (ξ p).owes = none := by
  refine ⟨⟨fun q j' hjob hj' => ?_, fun q hq => ?_⟩, h.rest hhead⟩
  · by_cases hqp : q = p
    · subst hqp
      rw [Sys.start, Sys.job_of_procs Sys.set_procs_self, Option.some.injEq] at hjob
      subst hjob
      rw [Function.update_self]
      exact .start hj' (by rw [Sys.start, Sys.set_procs_self]; rfl) (hinv.idle q hhead)
    · rw [Function.update_of_ne hqp]
      rw [Sys.start, Sys.job, Sys.set_procs_ne hqp] at hjob
      exact (h.tells q j' hjob hj').other (Sys.set_procs_ne hqp) (.refl ..) (.refl _) rfl
  · by_cases hqp : q = p
    · subst hqp
      rw [Function.update_self]
      rfl
    · rw [Function.update_of_ne hqp]
      refine h.plain q fun j' hjob => hq j' ?_
      rw [Sys.start, Sys.job, Sys.set_procs_ne hqp]
      exact hjob

/-- One operation of `p`, after which it is in phase `x`. -/
theorem Sys.Heralds.exec (h : σ.Heralds fate ξ) (hinv : Inv .any σ) {c : Choice} {e : Eff}
    {k : e.Reply → Prog payman (Except AppError Response)} {w : World} {r : e.Reply}
    (hp : σ.procs p = some ⟨j, some (.op e k)⟩) (hx : σ.world.exec p e c = some (w, r))
    (hself : j.Tells → (σ.set p ⟨j, some (k r)⟩ w).Tells fate p j.pays x)
    (hplain : ¬j.Tells → x.owes = none) :
    (σ.set p ⟨j, some (k r)⟩ w).Heralds fate (Function.update ξ p x) := by
  have hjob := Sys.job_of_procs hp
  have hguar := (hinv.exec_keeps .any hp hx).1.1
  refine ⟨fun q j' hq hj' => ?_, fun q hq => ?_⟩
  · rw [Sys.set_job hjob] at hq
    by_cases hqp : q = p
    · subst hqp
      obtain rfl := Option.some.inj (hjob.symm.trans hq)
      rw [Function.update_self]
      exact hself hj'
    · rw [Function.update_of_ne hqp]
      exact (h.tells q j' hq hj').other (Sys.set_procs_ne hqp) (World.exec_frame hx hqp) hguar.grows
        (hguar.last_other hqp)
  · by_cases hqp : q = p
    · subst hqp
      rw [Function.update_self]
      exact hplain (hq j ((Sys.set_job hjob).trans hjob))
    · rw [Function.update_of_ne hqp]
      exact h.plain q fun j' hj' => hq j' ((Sys.set_job hjob).trans hj')

/-- One operation of a process that does something else. -/
theorem Sys.Heralds.plain_exec (h : σ.Heralds fate ξ) (hinv : Inv .any σ) {c : Choice} {e : Eff}
    {k : e.Reply → Prog payman (Except AppError Response)} {w : World} {r : e.Reply}
    (hp : σ.procs p = some ⟨j, some (.op e k)⟩) (hx : σ.world.exec p e c = some (w, r))
    (hj : ¬j.Tells) : (∀ a, w.db.settled a = σ.db.settled a) ∧ (ξ p).owes = none ∧
      ∀ a, σ.dispatched a (.exec p c) = none := by
  have hplain : ∀ j', σ.job p = some j' → ¬j'.Tells := fun j' hj' => by
    obtain rfl := Option.some.inj ((Sys.job_of_procs hp).symm.trans hj')
    exact hj
  refine ⟨fun a => ?_, h.plain p hplain, fun a => ?_⟩
  · cases (hinv.exec_keeps .any hp hx).1.1 with
    | quiet hdb _ _ => rw [hdb]
    | send _ _ hdb _ _ _ => rw [hdb]
    | commit ws hdb _ _ he =>
      rw [hdb]
      exact Db.settled_congr (Db.attempt_of_no_write (he.plain hj) a)
  · simp only [Sys.dispatched, Sys.head_of_op hp, hinv.last_plain hplain]
    split <;> rfl

/-- The step lemma. -/
theorem Sys.Heralds.step (h : σ.Heralds fate ξ) (hinv : Inv .any σ) (hl : σ.Once fate l)
    (hstep : σ.step l = some σ') : ∃ ξ', σ'.Heralds fate ξ' ∧
      σ.Announced fate l σ' (fun q => (ξ q).owes) fun q => (ξ' q).owes := by
  have hupdate : ∀ (p : Pid) (x : Herald), (fun q => (Function.update ξ p x q).owes) =
      Function.update (fun q => (ξ q).owes) p x.owes := fun p x =>
    funext fun q => Function.apply_update (fun _ => Herald.owes) ξ p x q
  have hsame : ∀ {p : Pid} {x : Herald}, x.owes = (ξ p).owes →
      (fun q => (Function.update ξ p x q).owes) = fun q => (ξ q).owes := fun {p x} heq => by
    rw [hupdate]
    exact Function.update_eq_self_iff.mpr heq
  by_cases hexec : ∃ p c, l = .exec p c
  · obtain ⟨p, c, rfl⟩ := hexec
    obtain ⟨j, e, k, w, r, hp, hx, rfl⟩ := Sys.set_of_exec hstep
    have hhead := Sys.head_of_op hp
    by_cases hj : j.Tells
    · have htells := h.tells p j (Sys.job_of_procs hp) hj
      obtain ⟨x', hself, hann⟩ := htells.exec hinv hp hx rfl hl
      refine ⟨_, h.exec hinv hp hx (fun _ => hself) fun hn => absurd hj hn, ?_⟩
      generalize hx' : x'.owes = o' at hann
      generalize ho : (ξ p).owes = o at hann
      cases hann with
      | kept hs he => exact .kept hs (hsame (hx'.trans ho.symm)) (Sys.dispatched_of_head hhead he)
      | expired hs he =>
        exact .expired hs (hsame (hx'.trans ho.symm)) (Sys.dispatched_of_head hhead he)
      | recorded hn hs hother hfate he =>
        exact .recorded p _ hn hs hother hfate (hx' ▸ hupdate p x') ho
          (Sys.dispatched_of_head hhead he)
      | @announced n b hs he hb =>
        subst he
        have hlast := (htells.owes n ho).1
        have hbills : σ.Bills n.attempt n.invoice b := by
          rcases hb with hb | hpays
          · exact .inl hb
          · obtain ⟨key, req, rfl⟩ := Job.of_pays hpays
            obtain ⟨cm, hcm, hpid, row, hrow, hid⟩ := Sys.commit_of_last hlast
            exact hid ▸ hinv.bills (Sys.job_of_procs hp) hcm hpid hrow
        refine .announced p n b hs (hx' ▸ hupdate p x') ho ?_ (fun a ha => ?_) ?_
          (htells.known _ (htells.news n (Herald.news_of_owes ho)).1) hbills
        · rw [Sys.dispatched_of_spawn hhead, if_pos hlast]
        · rw [Sys.dispatched_of_spawn hhead, hlast, if_neg fun h => ha (Option.some.inj h).symm]
        · cases hx
          rfl
    · obtain ⟨hs, howes, hno⟩ := h.plain_exec hinv hp hx hj
      exact ⟨_, h.exec hinv hp hx (x := .quiet []) (fun hj' => absurd hj' hj) fun _ => rfl,
        .kept hs (hsame howes.symm) hno⟩
  · have hno : ∀ a, σ.dispatched a l = none :=
      Sys.dispatched_of_other fun p c hl => hexec ⟨p, c, hl⟩
    cases Sys.moves hstep with
    | kill p hl' j e k hp =>
      subst hl'
      exact hl.smooth.elim
    | start p j hhead hp hfit hj =>
      obtain ⟨hξ, howes⟩ := h.start hinv hhead hp
      exact ⟨_, hξ, .kept (fun _ => rfl) (hsame howes.symm) hno⟩
    | exec p c hl' => exact absurd ⟨p, c, hl'⟩ hexec

variable {o o' : Pid → Option News} {a : Uuid} {L : List (ℕ × DispatchTask)}

/-! ### One attempt -/

/-- No process has the outcome of `a` to announce. -/
def Unowed (a : Uuid) (o : Pid → Option News) : Prop := ∀ p n, o p = some n → n.attempt ≠ a

/-- How the attempt `a` stands when the processes have `o` to announce and the dispatches `L` have
    been spawned for it: pending, written off, to be announced by one process, or announced. -/
inductive Account (fate : Uuid → Option Verdict) (a : Uuid) (σ : Sys) (o : Pid → Option News) :
    List (ℕ × DispatchTask) → Prop
  | pending (hs : σ.db.settled a = none) (ho : Unowed a o) : Account fate a σ o []
  | expired (hs : σ.db.settled a = some .Failed) (hfate : fate a ≠ some .declined)
      (ho : Unowed a o) : Account fate a σ o []
  | due (p : Pid) (n : News) (hn : n.attempt = a) (hp : o p = some n)
      (hs : σ.db.settled a = some n.verdict.status) (hfate : fate a = some n.verdict)
      (ho : ∀ q m, q ≠ p → o q = some m → m.attempt ≠ a) : Account fate a σ o []
  | told (n : ℕ) (b i : Uuid) (v : Verdict) (hs : σ.db.settled a = some v.status)
      (hfate : fate a = some v) (ho : Unowed a o)
      (hrow : ∃ row, σ.db.attempt a = some row ∧ row.invoice_id = i)
      (hn : σ.world.spawned.reverse[n]? = some ⟨b, i, v.event⟩) (hb : σ.Bills a i b) :
      Account fate a σ o [(n, ⟨b, i, v.event⟩)]

namespace Account

theorem initial : Account fate a .initial (fun _ => none) [] := .pending rfl nofun

/-- A step that does not concern `a`. -/
theorem other (h : Account fate a σ o L) (hs : σ'.db.settled a = σ.db.settled a)
    (ho : ∀ p n, n.attempt = a → (o' p = some n ↔ o p = some n)) (hgrows : Grows σ.db σ'.db)
    (hspawned : σ'.world.spawned = σ.world.spawned ∨
      ∃ t, σ'.world.spawned = t :: σ.world.spawned)
    (hbills : ∀ {a i b : Uuid}, σ.Bills a i b → σ'.Bills a i b) : Account fate a σ' o' L := by
  have hquiet : Unowed a o → Unowed a o' := fun hq p n hn ha => hq p n ((ho p n ha).mp hn) ha
  cases h with
  | pending hs' hq => exact .pending (hs.trans hs') (hquiet hq)
  | expired hs' hfate hq => exact .expired (hs.trans hs') hfate (hquiet hq)
  | due p n hn hp hs' hfate hq =>
    exact .due p n hn ((ho p n hn).mpr hp) (hs.trans hs') hfate fun q m hne hm ha =>
      hq q m hne ((ho q m ha).mp hm) ha
  | told n b i v hs' hfate hq hrow hn hb =>
    refine .told n b i v (hs.trans hs') hfate (hquiet hq) ?_ ?_ (hbills hb)
    · obtain ⟨row, hrow, hi⟩ := hrow
      obtain ⟨row', hrow', hi', -⟩ := hgrows.attempt a row hrow
      exact ⟨row', hrow', hi'.trans hi⟩
    · exact World.spawned_reverse hspawned hn

/-- The step lemma. -/
theorem step (h : Account fate a σ o L) (hann : σ.Announced fate l σ' o o')
    (hgrows : Grows σ.db σ'.db) (hspawned : σ'.world.spawned = σ.world.spawned ∨
      ∃ t, σ'.world.spawned = t :: σ.world.spawned)
    (hbills : ∀ {a i b : Uuid}, σ.Bills a i b → σ'.Bills a i b) :
    Account fate a σ' o' (L ++ (σ.dispatched a l).toList) := by
  have hnone : σ.dispatched a l = none → L ++ (σ.dispatched a l).toList = L := fun hd => by
    rw [hd, Option.toList_none, List.append_nil]
  cases hann with
  | kept hs ho hno =>
    rw [hnone (hno a)]
    exact h.other (hs a) (fun p n _ => by rw [ho]) hgrows hspawned hbills
  | expired hs ho hno =>
    rw [hnone (hno a)]
    rcases hs a with hs | ⟨hs, hs', hfate⟩
    · exact h.other hs (fun p n _ => by rw [ho]) hgrows hspawned hbills
    · subst ho
      cases h with
      | pending _ hq => exact .expired hs' hfate hq
      | expired hs₁ => cases hs.symm.trans hs₁
      | due _ _ _ _ hs₁ => cases hs.symm.trans hs₁
      | told _ _ _ _ hs₁ => cases hs.symm.trans hs₁
  | recorded p n hn hs hother hfate ho hp hno =>
    rw [hnone (hno a)]
    by_cases ha : n.attempt = a
    · subst ha
      cases h with
      | pending _ hq =>
        subst ho
        refine .due p n rfl (Function.update_self ..) hs hfate fun q m hne hm => ?_
        rw [Function.update_of_ne hne] at hm
        exact hq q m hm
      | expired hs₁ => cases hn.symm.trans hs₁
      | due _ _ _ _ hs₁ => cases hn.symm.trans hs₁
      | told _ _ _ _ hs₁ => cases hn.symm.trans hs₁
    · refine h.other (hother a (Ne.symm ha)) (fun q m hm => ?_) hgrows hspawned hbills
      subst ho
      by_cases hqp : q = p
      · subst hqp
        rw [Function.update_self, hp]
        refine ⟨fun heq => absurd hm ?_, nofun⟩
        rw [← Option.some.inj heq]
        exact ha
      · rw [Function.update_of_ne hqp]
  | announced p n b hs ho hp hyes hno hsp hrow hb =>
    by_cases ha : n.attempt = a
    · subst ha
      rw [hyes, Option.toList_some]
      cases h with
      | pending _ hq => exact absurd rfl (hq p n hp)
      | expired _ _ hq => exact absurd rfl (hq p n hp)
      | told _ _ _ _ _ _ hq => exact absurd rfl (hq p n hp)
      | due q m hm hq hs₁ hfate hother =>
        obtain rfl : p = q := by
          by_contra hne
          exact hother p n hne hp rfl
        obtain rfl := Option.some.inj (hp.symm.trans hq)
        refine .told _ b n.invoice n.verdict ((hs _).trans hs₁) hfate (fun r m hr => ?_) ?_ ?_
          (hbills hb)
        · subst ho
          by_cases hrp : r = p
          · subst hrp
            rw [Function.update_self] at hr
            cases hr
          · rw [Function.update_of_ne hrp] at hr
            exact hother r m hrp hr
        · obtain ⟨row, hrow, hi⟩ := hrow
          obtain ⟨row', hrow', hi', -⟩ := hgrows.attempt _ row hrow
          exact ⟨row', hrow', hi'.trans hi⟩
        · rw [hsp, List.reverse_cons, ← List.length_reverse, List.getElem?_concat_length]
    · rw [hnone (hno a (Ne.symm ha))]
      refine h.other (hs a) (fun q m hm => ?_) hgrows hspawned hbills
      subst ho
      by_cases hqp : q = p
      · subst hqp
        rw [Function.update_self, hp]
        refine ⟨nofun, fun heq => absurd hm ?_⟩
        rw [← Option.some.inj heq]
        exact ha
      · rw [Function.update_of_ne hqp]

end Account

/-! ### Runs -/

/-- The dispatches that a run spawns for the attempt `a`, each with its place among all. -/
def Sys.dispatches (a : Uuid) : Sys → List Sys.Label → List (ℕ × DispatchTask)
  | _, [] => []
  | σ, l :: ls => (σ.dispatched a l).toList ++ (σ.step l).elim [] fun σ' => σ'.dispatches a ls

/-- The attempt `a` and all processes, after a run that has spawned `L` for `a`. -/
structure Sys.Accounts (fate : Uuid → Option Verdict) (a : Uuid) (σ : Sys)
    (L : List (ℕ × DispatchTask)) : Prop where
  inv : Inv .any σ
  account : ∃ ξ, σ.Heralds fate ξ ∧ Account fate a σ (fun p => (ξ p).owes) L

theorem Sys.Accounts.initial : Sys.initial.Accounts fate a [] :=
  ⟨.initial, _, .initial, .initial⟩

theorem Sys.Accounts.step (h : σ.Accounts fate a L) (hl : σ.Once fate l)
    (hstep : σ.step l = some σ') : σ'.Accounts fate a (L ++ (σ.dispatched a l).toList) := by
  obtain ⟨hinv, ξ, hξ, haccount⟩ := h
  obtain ⟨ξ', hξ', hann⟩ := hξ.step hinv hl hstep
  exact ⟨hinv.step .any hstep, ξ', hξ', haccount.step hann (hinv.happens .any hstep).grows
    (hinv.spawned .any hstep) fun hb => hb.step hinv .any hstep⟩

end Payman
