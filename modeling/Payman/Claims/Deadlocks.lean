import Payman.Safety.Grips

/-! Who can deadlock.

    A payment, the reconciliation worker and the changes of an invoice's state take their locks in an
    order in which nobody ever waits for one that waits for him. Edits do not: one that moves the due
    date locks the invoice before its items, one that does not locks the items first. -/

namespace Payman
open Schemes

/-- Writes are held up exactly by a lock of another session. -/
theorem World.record_eq_none {w : World} {p : Pid} {ws : List Write} :
    w.record p ws = none ↔ ¬w.sessions.Free p ws := by
  unfold record
  by_cases hfree : w.sessions.Free p ws
  · rw [dif_pos hfree]
    refine ⟨fun h => ?_, fun h => absurd hfree h⟩
    split at h
    · cases h
    · split at h <;> cases h
  · rw [dif_neg hfree]
    exact ⟨fun _ => hfree, fun _ => rfl⟩

namespace Sys

/-- The locks that the next operation of `p` needs if the environment chooses `c`. -/
def needs (σ : Sys) (p : Pid) (c : Choice) : List LockKey :=
  match σ.head p with
  | some (.sql s) =>
    match s.run ((σ.world.elapse c.elapsed).sql_now p) c (σ.world.sessions.view p) with
    | .ok (ws, _) => lockSet ws
    | .error _ => []
  | _ => []

/-- `p` waits for a lock that `q` holds. -/
def WaitsFor (σ : Sys) (p q : Pid) : Prop :=
  q ≠ p ∧ ∃ c, c.fail = false ∧ ∃ k ∈ σ.needs p c, σ.world.sessions.owner k = some q

/-- `p` is in the middle of creating or editing an invoice. -/
def Editing (σ : Sys) (p : Pid) : Prop :=
  σ.head p ≠ none ∧ ∃ j, σ.job p = some j ∧ j.Edits

variable {σ : Sys} {p q : Pid} {c : Choice} {k : LockKey}

theorem of_needs (h : k ∈ σ.needs p c) : ∃ s ws r, σ.head p = some (.sql s) ∧
    s.run ((σ.world.elapse c.elapsed).sql_now p) c (σ.world.sessions.view p) = .ok (ws, r) ∧
    k ∈ lockSet ws := by
  unfold needs at h
  split at h
  · rename_i s hs
    split at h
    · rename_i ws r hrun
      exact ⟨s, ws, r, hs, hrun, h⟩
    · cases h
  · cases h

/-- An operation is held up exactly if its process waits for somebody. -/
theorem blocked_iff : (∃ q, σ.WaitsFor p q) ↔
    ∃ e c, σ.head p = some e ∧ σ.world.exec p e c = none := by
  constructor
  · rintro ⟨q, hne, c, hc, k, hk, hq⟩
    obtain ⟨s, ws, r, hs, hrun, hmem⟩ := of_needs hk
    refine ⟨_, c, hs, ?_⟩
    have hview : (σ.world.elapse c.elapsed).sessions.view p = σ.world.sessions.view p := rfl
    simp only [World.exec, World.act, hc, Bool.false_eq_true, if_false, hview, hrun,
      Option.map_eq_none_iff, World.record_eq_none]
    intro hfree
    rcases hfree k hmem with hnone | hp
    · cases hq.symm.trans hnone
    · exact hne (Option.some.inj (hq.symm.trans hp))
  · rintro ⟨e, c, he, hx⟩
    cases e with
    | sql s =>
      simp only [World.exec, World.act] at hx
      split at hx
      · cases hx
      · rename_i hc
        split at hx
        · cases hx
        · rename_i ws r hrun
          rw [Option.map_eq_none_iff, World.record_eq_none] at hx
          obtain ⟨k, hk, hno⟩ : ∃ k ∈ lockSet ws, ¬(σ.world.sessions.owner k = none ∨
              σ.world.sessions.owner k = some p) := by
            by_contra hall
            exact hx fun k hk => by_contra fun hno => hall ⟨k, hk, hno⟩
          obtain ⟨hnone, hp⟩ := not_or.mp hno
          obtain ⟨q, hq⟩ := Option.ne_none_iff_exists'.mp hnone
          refine ⟨q, fun heq => hp (heq ▸ hq), c, Bool.eq_false_iff.mpr hc, k, ?_, hq⟩
          have hrun' : s.run ((σ.world.elapse c.elapsed).sql_now p) c
              (σ.world.sessions.view p) = .ok (ws, r) := hrun
          simpa only [needs, he, hrun'] using hk
    | begin | rollback =>
      simp only [World.exec, World.act] at hx
      split at hx <;> cases hx
    | commit =>
      simp only [World.exec, World.act] at hx
      split at hx
      · cases hx
      · split at hx <;> cases hx
    | _ => cases hx

end Sys

/-! ### The lock table -/

theorem World.exec_tight {w w' : World} {p : Pid} {e : Eff} {c : Choice} {r : e.Reply}
    (h : w.exec p e c = some (w', r)) (ht : w.sessions.Tight) : w'.sessions.Tight := by
  cases e
  case sql s =>
    obtain ⟨_, -, rfl⟩ | ⟨ws, _, -, hrec, -⟩ := act_sql_cases h
    · exact ht
    · unfold record at hrec
      split at hrec
      · rename_i hfree
        split at hrec
        · rename_i htx
          cases hrec
          exact Sessions.Tight.stage ht htx hfree
        · split at hrec <;> cases hrec
          · exact ht
          · exact Sessions.Tight.autocommit ht ws
      · cases hrec
  all_goals simp only [exec, act] at h
  case begin =>
    split at h <;> cases h
    · exact ht
    · exact Sessions.Tight.start ht p _
  case commit =>
    split at h
    · cases h
      exact ht
    · split at h <;> cases h
      · exact ht
      · exact Sessions.Tight.close ht p _
  case rollback =>
    split at h <;> cases h
    · exact ht
    · exact Sessions.Tight.close ht p _
  case drop =>
    cases h
    exact Sessions.Tight.close ht p _
  all_goals
    cases h
    exact ht

/-- Locks are held by open transactions only. -/
theorem Sys.Reachable.tight {σ : Sys} (h : σ.Reachable) : σ.world.sessions.Tight := by
  induction h with
  | refl => exact Sessions.tight_idle _
  | tail _ hs ih =>
    obtain ⟨l, -, hstep⟩ := hs
    cases Sys.moves hstep with
    | start p j _ _ _ => exact ih
    | exec p c hl j e k w r hp hx => exact World.exec_tight hx ih
    | kill p hl j e k hp => exact Sessions.Tight.close ih p _

/-! ### The order of the locks -/

/-- A process waits only for those that have got further. -/
def Grip.rank : Grip → ℕ
  | .out | .empty => 4
  | .attempt => 3
  | .content => 2
  | .invoice _ => 1
  | .last _ | .done => 0

/-- Process `p` is in phase `x`: what its transaction has locked, and which statement may come
    next. -/
structure Sys.Holds (σ : Sys) (p : Pid) (x : Grip) : Prop where
  tx : (x = .out ∧ σ.world.tx p = none) ∨ ∃ j t, σ.job p = some j ∧ σ.world.tx p = some t ∧
    x.Locks j σ.db (lockSet t.writes)
  next : ∀ s, σ.head p = some (.sql s) → x = .out ∨
    ∃ j, σ.job p = some j ∧ ∀ a, ∃ y, Grip.Takes j x s a y

variable {σ : Sys} {p q : Pid} {k : LockKey}

theorem Sys.Reachable.holds (h : σ.Reachable) (p : Pid) : ∃ x, σ.Holds p x := by
  cases hhead : σ.head p with
  | none => exact ⟨.out, .inl ⟨rfl, h.inv.idle p hhead⟩, fun _ _ => .inl rfl⟩
  | some e =>
    obtain ⟨j, k, hp⟩ := Sys.op_of_head hhead
    obtain ⟨x, hin, hx⟩ := h.gripped p j _ hp
    have hjob : σ.job p = some j := Sys.job_of_procs hp
    refine ⟨x, hx.imp_right fun ⟨t, ht, hL⟩ => ⟨j, t, hjob, ht, hL⟩, fun s hs => ?_⟩
    cases hhead.symm.trans hs
    obtain ⟨y, hstep, -⟩ := hin (.error .Connection)
    cases hstep with
    | local_ he => cases he
    | alone => exact .inl rfl
    | failed hall => exact .inr ⟨j, hjob, fun a => ⟨_, hall a⟩⟩

/-- Who holds a lock is in a phase with locks. -/
theorem Sys.Holds.of_owner {x : Grip} (h : σ.Holds q x) (ht : σ.world.sessions.Tight)
    (hk : σ.world.sessions.owner k = some q) : ∃ j L, σ.job q = some j ∧ x.Locks j σ.db L ∧ k ∈ L ∧
      ∀ k' ∈ L, σ.world.sessions.owner k' = some q := by
  obtain ⟨t, ht, hmem⟩ := ht k q hk
  rcases h.tx with ⟨-, hnone⟩ | ⟨j, t', hj, ht', hL⟩
  · cases ht.symm.trans hnone
  · cases ht.symm.trans ht'
    exact ⟨j, _, hj, hL, hmem, σ.world.sessions.held q t ht⟩

section
variable {j : Job} {db : Db} {x : Grip} {L : List LockKey}

/-- Any lock. -/
theorem Grip.Locks.holding (h : x.Locks j db L) (hk : k ∈ L) : x.rank < 4 := by
  cases x with
  | out => exact h.elim
  | empty =>
    rw [show L = [] from h] at hk
    cases hk
  | _ => simp [rank]

/-- A row of an invoice's content. -/
theorem Grip.Locks.of_content (h : x.Locks j db L) (hk : k ∈ L) (hc : k.Content) :
    x.rank < 2 ∨ (x.rank = 2 ∧ j.Edits) := by
  cases x with
  | out => exact h.elim
  | empty =>
    rw [show L = [] from h] at hk
    cases hk
  | attempt =>
    obtain ⟨a, row, rfl, -⟩ := h k hk
    exact hc.elim
  | content => exact .inr ⟨rfl, h.1⟩
  | _ => exact .inl (by simp [rank])

theorem Grip.Locks.of_invoice {i : Uuid} (h : x.Locks j db L) (hk : .invoice i ∈ L) :
    x.rank < 3 := by
  rcases h.of_content hk trivial with hlt | ⟨heq, -⟩ <;> omega

/-- An attempt that has not been committed. -/
theorem Grip.Locks.of_fresh {a : Uuid} (h : x.Locks j db L) (hk : .attempt a ∈ L)
    (ha : db.attempt a = none) : x.rank = 0 := by
  cases x with
  | out => exact h.elim
  | empty =>
    rw [show L = [] from h] at hk
    cases hk
  | attempt =>
    obtain ⟨a', row, heq, hrow⟩ := h _ hk
    cases heq
    cases ha.symm.trans hrow
  | invoice i => cases h.2 _ hk
  | content => exact (h.2 _ hk).elim
  | _ => rfl

/-- The record of a key comes with the lock on its invoice. -/
theorem Grip.Locks.of_key {t : KeyIndex} (h : x.Locks j db L) (hk : .key t ∈ L) :
    .invoice t.2.2 ∈ L := by
  cases x with
  | out => exact h.elim
  | empty =>
    rw [show L = [] from h] at hk
    cases hk
  | attempt =>
    obtain ⟨a, row, heq, -⟩ := h _ hk
    cases heq
  | invoice i => cases h.2 _ hk
  | last i =>
    rw [h.2 t hk]
    exact h.1
  | done => exact absurd hk (h t)
  | content => exact (h.2 _ hk).elim

/-- The attempts of the view of a transaction that has locked none. -/
theorem Db.attempt_view {vs : List Write} {a : Uuid} (h : LockKey.attempt a ∉ lockSet vs) :
    (applyAll db vs).attempt a = db.attempt a := (Db.readsOnly_attempt a).applyAll vs db h

end

/-- CORRECT: who is waited for has got further, or is another one that edits. -/
theorem Sys.Holds.waits {x y : Grip} (h : σ.Reachable) (hx : σ.Holds p x) (hy : σ.Holds q y)
    (hw : σ.WaitsFor p q) : y.rank < x.rank ∨ (y.rank = x.rank ∧ σ.Editing p ∧ σ.Editing q) := by
  obtain ⟨hne, c, -, k, hk, hq⟩ := hw
  obtain ⟨s, ws, r, hs, hrun, hmem⟩ := Sys.of_needs hk
  obtain ⟨j, L, hj, hL, hkL, howns⟩ := hy.of_owner h.tight hq
  rcases hx.next s hs with rfl | ⟨j', hj', htakes⟩
  · exact .inl (hL.holding hkL)
  rcases hx.tx with ⟨rfl, -⟩ | ⟨j₁, t, hj₁, ht, hLp⟩
  · exact .inl (hL.holding hkL)
  cases hj'.symm.trans hj₁
  have hview : σ.world.sessions.view p = applyAll σ.db t.writes := by
    rw [Sessions.view, show σ.world.sessions.txs p = some t from ht]
  rw [hview] at hrun
  obtain ⟨z, hz⟩ := htakes r
  cases hz with
  | look hl =>
    rw [hl.writes hrun] at hmem
    cases hmem
  | claim | mark | transition | begin_content => exact .inl (hL.holding hkL)
  | settle =>
    rw [Stmt.Moves.settle_invoice.locks hrun k hmem] at hkL
    exact .inl (hL.of_invoice hkL)
  | leave =>
    rw [Stmt.Moves.leave_processing.locks hrun k hmem] at hkL
    exact .inl (hL.of_invoice hkL)
  | reopen =>
    rw [Stmt.Moves.reopen_invoice.locks hrun k hmem] at hkL
    exact .inl (hL.of_invoice hkL)
  | content hf =>
    have hrunning : σ.head q ≠ none := fun hnone => by
      obtain ⟨t', ht', -⟩ := h.tight k q hq
      cases ht'.symm.trans (h.inv.idle q hnone)
    refine (hL.of_content hkL (hf.locks hrun k hmem)).imp_right fun hboth => ?_
    have hbusy : σ.head p ≠ none := hs ▸ Option.some_ne_none _
    exact ⟨hboth.1, ⟨hbusy, _, hj₁, hLp.1⟩, hrunning, j, hj, hboth.2⟩
  | insert =>
    obtain ⟨hfresh, rfl, rfl⟩ := Stmt.run_insert_attempt hrun
    obtain rfl := List.mem_singleton.mp hmem
    refine .inl ?_
    rw [hL.of_fresh hkL ((Db.attempt_view fun hin => ?_).symm.trans hfresh)]
    · exact Nat.one_pos
    · cases hLp.2 _ hin
  | key hkeys =>
    obtain ⟨t', rfl, rfl⟩ := hkeys.locks hrun k hmem
    -- both hold the lock on the invoice
    have hp := σ.world.sessions.held p t ht _ hLp.1
    cases hp.symm.trans (howns _ (hL.of_key hkL))
    exact absurd rfl hne

theorem Sys.Reachable.ranked (h : σ.Reachable) : ∃ rank, Ranked σ.WaitsFor rank σ.Editing := by
  choose grip hgrip using h.holds
  exact ⟨fun p => (grip p).rank, fun p q => (hgrip p).waits h (hgrip q)⟩

/-- CORRECT (only edits deadlock): in every reachable state, whoever is on a cycle of processes that
    wait for each other is in the middle of creating or editing an invoice. -/
theorem only_edits_deadlock (h : σ.Reachable) (hcycle : Relation.TransGen σ.WaitsFor p p) :
    σ.Editing p := by
  obtain ⟨rank, hrank⟩ := h.ranked
  exact hrank.cycle hcycle

/-- Whoever has something left to do and waits for nobody has it carried out, whatever the environment
    chooses. -/
theorem Sys.carried_out {e : Eff} (he : σ.head p = some e) (h : ∀ r, ¬σ.WaitsFor p r) (c : Choice) :
    ∃ x, σ.world.exec p e c = some x := by
  refine Option.ne_none_iff_exists'.mp fun hblocked => ?_
  obtain ⟨r, hr⟩ := Sys.blocked_iff.mpr ⟨e, c, he, hblocked⟩
  exact h r hr

/-- Whoever is waited for has something left to do. -/
theorem Sys.Reachable.busy (h : σ.Reachable) (hw : σ.WaitsFor p q) : ∃ e, σ.head q = some e := by
  obtain ⟨-, c, -, k, -, hq⟩ := hw
  refine Option.ne_none_iff_exists'.mp fun hrest => ?_
  obtain ⟨t, ht, -⟩ := h.tight k q hq
  cases ht.symm.trans (h.inv.idle q hrest)

/-- CORRECT (nobody else is stuck): the next operation of a process is carried out whatever the
    environment chooses, or the process waits, directly or through others, for one of which this is
    true, or for one that creates or edits an invoice. -/
theorem waiting_ends (h : σ.Reachable) {e : Eff} (he : σ.head p = some e) :
    (∀ c, ∃ x, σ.world.exec p e c = some x) ∨
      ∃ q, Relation.TransGen σ.WaitsFor p q ∧ (σ.Editing q ∨
        ∃ e', σ.head q = some e' ∧ ∀ c, ∃ x, σ.world.exec q e' c = some x) := by
  by_cases hwait : ∃ r, σ.WaitsFor p r
  swap
  · exact .inl (Sys.carried_out he fun r hr => hwait ⟨r, hr⟩)
  obtain ⟨r, hr⟩ := hwait
  obtain ⟨rank, hrank⟩ := h.ranked
  obtain ⟨q, hrq, hend⟩ := hrank.ends r
  have hpq : Relation.TransGen σ.WaitsFor p q := .head' hr hrq
  refine .inr ⟨q, hpq, hend.imp_right fun hnone => ?_⟩
  obtain ⟨r', -, hq⟩ := Relation.TransGen.tail'_iff.mp hpq
  obtain ⟨e', he'⟩ := h.busy hq
  exact ⟨e', he', Sys.carried_out he' hnone⟩

/-- Two edits of a draft: call 2 has moved the due date and is about to delete the item, call 3 has
    deleted the item and is about to store the total. -/
def Sys.two_edits : List Sys.Label :=
  issued ++ [.arrive 2 (.edit_invoice 20 1 ⟨some 5, some [⟨"more", 1, 70⟩], 1⟩)] ++ go (.call 2) 1 ++
  [.arrive 3 (.edit_invoice 20 1 ⟨none, some [⟨"less", 1, 30⟩], 2⟩)] ++ go (.call 3) 5 ++
  fresh (.call 3) 31 ++ go (.call 2) 5

theorem only_edits_deadlock_two_edits : ∃ σ ∈ Sys.initial.steps Sys.two_edits,
    Relation.TransGen σ.WaitsFor (.call 2) (.call 2) ∧ σ.Editing (.call 2) := by
  obtain ⟨σ, hσ, h₂, h₂', h₃, h₃'⟩ : ∃ σ ∈ Sys.initial.steps Sys.two_edits,
    .line_item 30 ∈ σ.needs (.call 2) Sys.calm ∧
    σ.world.sessions.owner (.line_item 30) = some (.call 3) ∧
    .invoice 20 ∈ σ.needs (.call 3) Sys.calm ∧
    σ.world.sessions.owner (.invoice 20) = some (.call 2) := by decide +kernel
  have hcycle : Relation.TransGen σ.WaitsFor (.call 2) (.call 2) :=
    .tail (.single ⟨by decide, _, rfl, _, h₂, h₂'⟩) ⟨by decide, _, rfl, _, h₃, h₃'⟩
  exact ⟨σ, hσ, hcycle, only_edits_deadlock (Sys.reachable_of_steps hσ) hcycle⟩

/-- The PSP answers after a day: the payment records the outcome while the worker wants to expire the
    attempt. -/
def Sys.late_answer : List Sys.Label :=
  opened ++ pays 3 "k" 2 40 ++ [.exec (.call 3) { calm with
    elapsed := 86400000000, answer := .response 200 (some ⟨"succeeded", some "ref", none⟩) }] ++
  go (.call 3) 2 ++ [.tick] ++ go .worker 3

theorem waiting_ends_late_answer : ∃ σ ∈ Sys.initial.steps Sys.late_answer,
    (∃ q, σ.WaitsFor .worker q) ∧ ∃ e, σ.head .worker = some e ∧
    ((∀ c, ∃ x, σ.world.exec .worker e c = some x) ∨
      ∃ q, Relation.TransGen σ.WaitsFor .worker q ∧ (σ.Editing q ∨
        ∃ e', σ.head q = some e' ∧ ∀ c, ∃ x, σ.world.exec q e' c = some x)) := by
  obtain ⟨σ, hσ, hhead, hneeds, howner⟩ : ∃ σ ∈ Sys.initial.steps Sys.late_answer,
    (σ.head .worker).isSome ∧ .attempt 40 ∈ σ.needs .worker Sys.calm ∧
    σ.world.sessions.owner (.attempt 40) = some (.call 3) := by decide +kernel
  obtain ⟨e, he⟩ := Option.isSome_iff_exists.mp hhead
  exact ⟨σ, hσ, ⟨.call 3, by decide, _, rfl, _, hneeds, howner⟩, e, he,
    waiting_ends (Sys.reachable_of_steps hσ) he⟩

end Payman
