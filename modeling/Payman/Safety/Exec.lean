import Payman.System

/-! What one operation can do to the shared world.

    To the committed data and the PSP, every operation is quiet, commits some writes of its own
    process, or sends one charge (`Change`). To another process it is a `Frame`: that process keeps
    its transaction and whatever its locks protect. -/

namespace Payman.World
open Schemes

variable {p q : Pid} {w w' : World} {e : Eff} {c : Choice}

theorem le_elapse (w : World) (d : ℕ) : w.now ≤ (w.elapse d).now :=
  Int.le_add_of_nonneg_right (Int.natCast_nonneg d)

/-- The three things an operation of `p` can do to what has been committed and sent. -/
inductive Change (p : Pid) (w w' : World) : Prop where
  | quiet (hdb : w'.db = w.db) (hh : w'.history = w.history) (hc : w'.charges = w.charges)
  | commit (ws : List Write) (hfree : w.sessions.Free p ws) (hdb : w'.db = applyAll w.db ws)
      (hh : w'.history = ⟨p, w.db, ws⟩ :: w.history) (hc : w'.charges = w.charges)
  | send (attempt_id : Uuid) (card_token : String) (hdb : w'.db = w.db)
      (hh : w'.history = w.history) (hc : w'.charges = ⟨p, attempt_id, card_token⟩ :: w.charges)

/-- A statement's writes are staged in the open transaction, or committed at once. -/
theorem record_cases {ws : List Write} (h : w.record p ws = some w') :
    w.sessions.Free p ws ∧ w'.charges = w.charges ∧
      ((∃ t, w.tx p = some t ∧ w'.tx p = some ⟨t.began, t.writes ++ ws⟩ ∧ w'.db = w.db ∧
        w'.history = w.history) ∨
      (w.tx p = none ∧ w'.tx p = none ∧ ws = [] ∧ w'.db = w.db ∧ w'.history = w.history) ∨
      (w.tx p = none ∧ w'.tx p = none ∧ ws ≠ [] ∧ w'.db = applyAll w.db ws ∧
        w'.history = ⟨p, w.db, ws⟩ :: w.history)) := by
  unfold record at h
  split at h
  · rename_i hfree
    split at h
    · rename_i t htx
      cases h
      exact ⟨hfree, rfl, .inl ⟨t, htx, Function.update_self .., rfl, rfl⟩⟩
    · rename_i htx
      split at h
      · rename_i hemp
        cases h
        exact ⟨hfree, rfl, .inr (.inl ⟨htx, htx, List.isEmpty_iff.mp hemp, rfl, rfl⟩)⟩
      · rename_i hemp
        cases h
        refine ⟨hfree, rfl, .inr (.inr ⟨htx, htx, ?_, rfl, rfl⟩)⟩
        rintro rfl
        exact hemp rfl
  · cases h

/-- A statement fails and changes nothing, or its writes take effect. -/
theorem act_sql_cases {s : Stmt} {r : Except DbError s.Result}
    (h : w.act p c (.sql s) = some (w', r)) :
    (∃ e, r = .error e ∧ w' = w) ∨
    ∃ ws r', s.run (w.sql_now p) c (w.sessions.view p) = .ok (ws, r') ∧
      w.record p ws = some w' ∧ r = .ok r' := by
  simp only [act] at h
  split at h
  · cases h; exact .inl ⟨_, rfl, rfl⟩
  · split at h
    · cases h; exact .inl ⟨_, rfl, rfl⟩
    · rename_i ws r' hs
      obtain ⟨w'', hrec, heq⟩ := Option.map_eq_some_iff.mp h
      cases heq
      exact .inr ⟨ws, r', hs, hrec, rfl⟩

/-- A failed statement changes nothing: the call failed, or the database refused it. -/
theorem act_sql_error {s : Stmt} {err : DbError}
    (h : w.act p c (.sql s) = some (w', .error err)) : w' = w ∧ (c.fail = true ∨
      s.run (w.sql_now p) c (w.sessions.view p) = .error err) := by
  simp only [act] at h
  split at h
  · rename_i hc
    cases h
    exact ⟨rfl, .inl hc⟩
  · split at h
    · rename_i hs
      cases h
      exact ⟨rfl, .inr hs⟩
    · obtain ⟨_, -, heq⟩ := Option.map_eq_some_iff.mp h
      cases heq

/-- A statement that succeeds has reached the database. -/
theorem act_sql_calm {s : Stmt} {a : s.Result}
    (h : w.act p c (.sql s) = some (w', .ok a)) : c.fail = false := by
  simp only [act] at h
  split at h
  · cases h
  · rename_i hc
    exact Bool.eq_false_iff.mpr hc

theorem record_now {ws : List Write} (h : w.record p ws = some w') : w'.now = w.now := by
  unfold record at h
  split at h
  · split at h
    · cases h; rfl
    · split at h <;> cases h <;> rfl
  · cases h

theorem record_emits {ws : List Write} (h : w.record p ws = some w') :
    w'.posts = w.posts ∧ w'.spawned = w.spawned := by
  unfold record at h
  split at h
  · split at h
    · cases h; exact ⟨rfl, rfl⟩
    · split at h <;> cases h <;> exact ⟨rfl, rfl⟩
  · cases h

/-- Outside a transaction a statement's writes are committed. -/
theorem record_idle {ws : List Write} (h : w.record p ws = some w') (htx : w.tx p = none) :
    w'.tx p = none ∧ w'.db = applyAll w.db ws := by
  obtain ⟨-, -, ⟨t, ht, -⟩ | ⟨-, htx', rfl, hdb, -⟩ | ⟨-, htx', -, hdb, -⟩⟩ := record_cases h
  · cases htx.symm.trans ht
  · exact ⟨htx', hdb⟩
  · exact ⟨htx', hdb⟩

/-- Outside a transaction a statement that writes nothing changes nothing. -/
theorem record_nil_emits (h : w.record p [] = some w') (htx : w.tx p = none) :
    w'.tx p = none ∧ w'.db = w.db ∧ w'.posts = w.posts :=
  ⟨(record_idle h htx).1, (record_idle h htx).2, (record_emits h).1⟩

theorem record_frame {ws : List Write} (h : w.record p ws = some w') (hne : q ≠ p) :
    Sessions.Frame q w.sessions w'.sessions := by
  unfold record at h
  split at h
  · rename_i hfree
    split at h
    · rename_i htx
      cases h; exact Sessions.frame_stage htx hfree hne
    · split at h
      · cases h; exact Sessions.Frame.refl ..
      · cases h; exact Sessions.frame_autocommit hfree hne
  · cases h

theorem exec_change {r : e.Reply} (h : w.exec p e c = some (w', r)) : Change p w w' := by
  cases e
  case sql s =>
    obtain ⟨_, -, rfl⟩ | ⟨ws, _, -, hrec, -⟩ := act_sql_cases h
    · exact .quiet rfl rfl rfl
    · obtain ⟨hfree, hc, ⟨t, -, -, hdb, hh⟩ | ⟨-, -, -, hdb, hh⟩ | ⟨-, -, -, hdb, hh⟩⟩ :=
        record_cases hrec
      · exact .quiet hdb hh hc
      · exact .quiet hdb hh hc
      · exact .commit ws hfree hdb hh hc
  all_goals simp only [exec, act] at h
  case begin => split at h <;> cases h <;> exact .quiet rfl rfl rfl
  case commit =>
    split at h
    · cases h; exact .quiet rfl rfl rfl
    · rename_i t htx
      split at h
      · cases h; exact .quiet rfl rfl rfl
      · cases h
        refine .commit t.writes (Sessions.free_writes htx) ?_ rfl rfl
        show (w.elapse c.elapsed).sessions.view p = _
        unfold Sessions.view
        rw [show (w.elapse c.elapsed).sessions.txs p = some t from htx]
        rfl
  case rollback => split at h <;> cases h <;> exact .quiet rfl rfl rfl
  case send_charge a card => cases h; exact .send a card rfl rfl rfl
  all_goals cases h; exact .quiet rfl rfl rfl

/-- Outside a transaction a statement sees the committed database, at the current time. -/
theorem view_idle (htx : w.tx p = none) : w.sessions.view p = w.db := by
  rw [Sessions.view, show w.sessions.txs p = none from htx]

theorem sql_now_idle (htx : w.tx p = none) : w.sql_now p = w.now := by rw [sql_now, htx]

theorem record_nil (htx : w.tx p = none) : w.record p [] = some w := by
  have hfree : w.sessions.Free p ([] : List Write) := nofun
  unfold record
  rw [dif_pos hfree]
  split
  · rename_i t ht
    cases ht.symm.trans htx
  · rfl

/-- A query outside a transaction reads the committed database and waits for nobody. -/
theorem exec_query {s : Stmt} {r : s.Result} (htx : w.tx p = none) (hc : c.fail = false)
    (hrun : s.run (w.now + c.elapsed) c w.db = .ok ([], r)) :
    w.exec p (.sql s) c = some (w.elapse c.elapsed, .ok r) := by
  have htx' : (w.elapse c.elapsed).tx p = none := htx
  have hview : (w.elapse c.elapsed).sessions.view p = w.db := view_idle htx'
  have hnow : (w.elapse c.elapsed).sql_now p = w.now + c.elapsed := sql_now_idle htx'
  simp only [exec, act, hc, Bool.false_eq_true, if_false, hview, hnow, hrun]
  rw [record_nil htx', Option.map_some]

/-- A statement outside a transaction whose row locks are free commits. -/
theorem exec_autocommit {s : Stmt} {ws : List Write} {r : s.Result} (htx : w.tx p = none)
    (hc : c.fail = false) (hws : ws ≠ []) (hfree : w.sessions.Free p ws)
    (hrun : s.run (w.now + c.elapsed) c w.db = .ok (ws, r)) :
    ∃ w', w.exec p (.sql s) c = some (w', .ok r) ∧ w'.db = applyAll w.db ws := by
  have htx' : (w.elapse c.elapsed).tx p = none := htx
  have hview : (w.elapse c.elapsed).sessions.view p = w.db := view_idle htx'
  have hnow : (w.elapse c.elapsed).sql_now p = w.now + c.elapsed := sql_now_idle htx'
  have hfree' : (w.elapse c.elapsed).sessions.Free p ws := hfree
  have hemp : ws.isEmpty = false := by simpa using hws
  simp only [exec, act, hc, Bool.false_eq_true, if_false, hview, hnow, hrun]
  unfold record
  rw [dif_pos hfree']
  split
  · rename_i t ht
    cases ht.symm.trans htx'
  · rw [hemp]
    exact ⟨_, rfl, rfl⟩

/-- A statement of a transaction whose row locks are free adds its writes to it. -/
theorem exec_stage {s : Stmt} {ws : List Write} {r : s.Result} {t : Tx DateTime Write}
    (htx : w.tx p = some t) (hc : c.fail = false) (hfree : w.sessions.Free p ws)
    (hrun : s.run t.began c (applyAll w.db t.writes) = .ok (ws, r)) :
    ∃ w', w.exec p (.sql s) c = some (w', .ok r) ∧ w'.tx p = some ⟨t.began, t.writes ++ ws⟩ ∧
      w'.db = w.db := by
  have htx' : (w.elapse c.elapsed).sessions.txs p = some t := htx
  have hview : (w.elapse c.elapsed).sessions.view p = applyAll w.db t.writes := by
    rw [Sessions.view, htx']; rfl
  have hnow : (w.elapse c.elapsed).sql_now p = t.began := by
    rw [sql_now, World.tx, htx']
  have hfree' : (w.elapse c.elapsed).sessions.Free p ws := hfree
  simp only [exec, act, hc, Bool.false_eq_true, if_false, hview, hnow, hrun]
  unfold record
  rw [dif_pos hfree']
  split
  · rename_i t' ht
    obtain rfl := Option.some.inj (ht.symm.trans htx')
    exact ⟨_, rfl, Function.update_self .., rfl⟩
  · rename_i ht
    cases ht.symm.trans htx'

/-- A statement of a transaction that the database refuses. -/
theorem exec_refused {s : Stmt} {t : Tx DateTime Write} {e : DbError} (htx : w.tx p = some t)
    (hc : c.fail = false) (hrun : s.run t.began c (applyAll w.db t.writes) = .error e) :
    w.exec p (.sql s) c = some (w.elapse c.elapsed, .error e) := by
  have htx' : (w.elapse c.elapsed).sessions.txs p = some t := htx
  have hview : (w.elapse c.elapsed).sessions.view p = applyAll w.db t.writes := by
    rw [Sessions.view, htx']; rfl
  have hnow : (w.elapse c.elapsed).sql_now p = t.began := by
    rw [sql_now, World.tx, htx']
  simp only [exec, act, hc, Bool.false_eq_true, if_false, hview, hnow, hrun]

theorem exec_begin (hc : c.fail = false) : ∃ w' t, w.exec p .begin c = some (w', .ok ()) ∧
    w'.tx p = some ⟨t, []⟩ ∧ w'.db = w.db := by
  simp only [exec, act, hc, Bool.false_eq_true, if_false]
  exact ⟨_, _, rfl, Function.update_self .., rfl⟩

theorem exec_commit {t : Tx DateTime Write} (htx : w.tx p = some t) (hc : c.fail = false) :
    ∃ w', w.exec p .commit c = some (w', .ok ()) ∧ w'.tx p = none ∧
      w'.db = applyAll w.db t.writes := by
  have htx' : (w.elapse c.elapsed).sessions.txs p = some t := htx
  simp only [exec, act, hc, Bool.false_eq_true, if_false, World.tx, htx']
  refine ⟨_, rfl, Function.update_self .., ?_⟩
  show (w.elapse c.elapsed).sessions.view p = _
  rw [Sessions.view, htx']
  rfl

/-- Who commits holds the locks of what is committed. -/
theorem free_of_commit {r : e.Reply} {ws : List Write} (h : w.exec p e c = some (w', r))
    (hh : w'.history = ⟨p, w.db, ws⟩ :: w.history) : w.sessions.Free p ws := by
  cases exec_change h with
  | quiet _ hh' _ => simp [hh] at hh'
  | send _ _ _ hh' _ => simp [hh] at hh'
  | commit ws' hfree _ hh' _ =>
    rw [hh, List.cons.injEq, Commit.mk.injEq] at hh'
    rw [hh'.1.2.2]
    exact hfree

theorem act_now {r : e.Reply} (h : w.act p c e = some (w', r)) : w'.now = w.now := by
  cases e
  case sql s =>
    obtain ⟨_, -, rfl⟩ | ⟨_, _, -, hrec, -⟩ := act_sql_cases h
    · rfl
    · exact record_now hrec
  all_goals simp only [act] at h
  case begin => split at h <;> cases h <;> rfl
  case commit =>
    split at h
    · cases h; rfl
    · split at h <;> cases h <;> rfl
  case rollback => split at h <;> cases h <;> rfl
  all_goals cases h; rfl

/-- Time does not run backwards. -/
theorem exec_clock {r : e.Reply} (h : w.exec p e c = some (w', r)) : w.now ≤ w'.now := by
  rw [act_now h]
  exact w.le_elapse c.elapsed

theorem exec_frame {r : e.Reply} (h : w.exec p e c = some (w', r)) (hne : q ≠ p) :
    Sessions.Frame q w.sessions w'.sessions := by
  cases e
  case sql s =>
    obtain ⟨_, -, rfl⟩ | ⟨_, _, -, hrec, -⟩ := act_sql_cases h
    · exact Sessions.Frame.refl ..
    · exact record_frame (w := w.elapse c.elapsed) hrec hne
  all_goals simp only [exec, act] at h
  case begin =>
    split at h <;> cases h
    · exact Sessions.Frame.refl ..
    · exact Sessions.frame_start hne
  case commit =>
    split at h
    · cases h; exact Sessions.Frame.refl ..
    · split at h <;> cases h
      · exact Sessions.Frame.refl ..
      · exact Sessions.frame_commit hne
  case rollback =>
    split at h <;> cases h
    · exact Sessions.Frame.refl ..
    · exact Sessions.frame_rollback hne
  case drop => cases h; exact Sessions.frame_rollback hne
  all_goals cases h; exact Sessions.Frame.refl ..

/-! ### What an operation has done to its own transaction -/

/-- A transaction that has been begun. -/
theorem begin_ok (h : w.exec p .begin c = some (w', .ok ())) :
    (∃ t, w'.tx p = some ⟨t, []⟩) ∧ w'.db = w.db ∧ w'.history = w.history := by
  simp only [exec, act] at h
  split at h <;> cases h
  exact ⟨⟨_, Sessions.txs_start ..⟩, rfl, rfl⟩

theorem begin_error {err : DbError} (h : w.exec p .begin c = some (w', .error err)) :
    w'.tx p = w.tx p ∧ w'.db = w.db ∧ w'.history = w.history := by
  simp only [exec, act] at h
  split at h <;> cases h
  exact ⟨rfl, rfl, rfl⟩

/-- A transaction that has been committed. -/
theorem commit_ok (h : w.exec p .commit c = some (w', .ok ())) :
    ∃ t, w.tx p = some t ∧ w'.tx p = none ∧ w'.db = applyAll w.db t.writes ∧
      w'.history = ⟨p, w.db, t.writes⟩ :: w.history := by
  cases htx : w.tx p with
  | none =>
    have htx' : (w.elapse c.elapsed).tx p = none := htx
    simp only [exec, act, htx'] at h
    cases h
  | some t =>
    have htx' : (w.elapse c.elapsed).tx p = some t := htx
    simp only [exec, act, htx'] at h
    split at h <;> cases h
    refine ⟨t, rfl, Sessions.txs_close .., ?_, rfl⟩
    show (w.elapse c.elapsed).sessions.view p = _
    rw [Sessions.view, show (w.elapse c.elapsed).sessions.txs p = some t from htx]
    rfl

theorem commit_error {err : DbError} (h : w.exec p .commit c = some (w', .error err)) :
    w'.tx p = w.tx p ∧ w'.db = w.db ∧ w'.history = w.history := by
  simp only [exec, act] at h
  split at h
  · cases h
    exact ⟨rfl, rfl, rfl⟩
  · split at h <;> cases h
    exact ⟨rfl, rfl, rfl⟩

theorem rollback_ok (h : w.exec p .rollback c = some (w', .ok ())) :
    w'.tx p = none ∧ w'.db = w.db ∧ w'.history = w.history := by
  simp only [exec, act] at h
  split at h <;> cases h
  exact ⟨Sessions.txs_close .., rfl, rfl⟩

theorem rollback_error {err : DbError} (h : w.exec p .rollback c = some (w', .error err)) :
    w'.tx p = w.tx p ∧ w'.db = w.db ∧ w'.history = w.history := by
  simp only [exec, act] at h
  split at h <;> cases h
  exact ⟨rfl, rfl, rfl⟩

theorem drop_ok (h : w.exec p .drop c = some (w', ())) :
    w'.tx p = none ∧ w'.db = w.db ∧ w'.history = w.history := by
  cases h
  exact ⟨Sessions.txs_close .., rfl, rfl⟩

/-- A statement of an open transaction. -/
theorem sql_inside {s : Stmt} {r : Except DbError s.Result} {t : Tx DateTime Write}
    (h : w.exec p (.sql s) c = some (w', r)) (htx : w.tx p = some t) :
    w'.db = w.db ∧ w'.history = w.history ∧ ((∃ err, r = .error err ∧ w'.tx p = some t) ∨
      ∃ ws a, r = .ok a ∧ s.run t.began c (applyAll w.db t.writes) = .ok (ws, a) ∧
        w'.tx p = some ⟨t.began, t.writes ++ ws⟩) := by
  have htx' : (w.elapse c.elapsed).tx p = some t := htx
  have hview : (w.elapse c.elapsed).sessions.view p = applyAll w.db t.writes := by
    rw [Sessions.view, show (w.elapse c.elapsed).sessions.txs p = some t from htx]
    rfl
  have hnow : (w.elapse c.elapsed).sql_now p = t.began := by rw [sql_now, htx']
  obtain ⟨err, rfl, rfl⟩ | ⟨ws, a, hrun, hrec, rfl⟩ := act_sql_cases h
  · exact ⟨rfl, rfl, .inl ⟨err, rfl, htx⟩⟩
  · rw [hview, hnow] at hrun
    obtain ⟨-, -, ⟨t', ht', htx₁, hdb, hh⟩ | ⟨hno, -⟩ | ⟨hno, -⟩⟩ := record_cases hrec
    · cases htx'.symm.trans ht'
      exact ⟨hdb, hh, .inr ⟨ws, a, rfl, hrun, htx₁⟩⟩
    · cases htx'.symm.trans hno
    · cases htx'.symm.trans hno

/-- A statement outside a transaction. -/
theorem sql_idle {s : Stmt} {r : Except DbError s.Result}
    (h : w.exec p (.sql s) c = some (w', r)) (htx : w.tx p = none) : w'.tx p = none ∧
      ((∃ err, r = .error err ∧ w'.db = w.db ∧ w'.history = w.history) ∨
        ∃ ws a now, r = .ok a ∧ s.run now c w.db = .ok (ws, a) ∧ w'.db = applyAll w.db ws ∧
          (ws = [] → w'.history = w.history) ∧
          (ws ≠ [] → w'.history = ⟨p, w.db, ws⟩ :: w.history)) := by
  have htx' : (w.elapse c.elapsed).tx p = none := htx
  obtain ⟨err, rfl, rfl⟩ | ⟨ws, a, hrun, hrec, rfl⟩ := act_sql_cases h
  · exact ⟨htx, .inl ⟨err, rfl, rfl, rfl⟩⟩
  · rw [view_idle htx'] at hrun
    obtain ⟨-, -, ⟨t, ht, -⟩ | ⟨-, htx₁, rfl, hdb, hh⟩ | ⟨-, htx₁, hne, hdb, hh⟩⟩ :=
      record_cases hrec
    · cases htx'.symm.trans ht
    · exact ⟨htx₁, .inr ⟨[], a, _, rfl, hrun, hdb, fun _ => hh, fun h => absurd rfl h⟩⟩
    · exact ⟨htx₁, .inr ⟨ws, a, _, rfl, hrun, hdb, fun h => absurd h hne, fun _ => hh⟩⟩

/-! ### The lock table -/

/-- No other session than `p`'s holds the lock on `k`. -/
def Unlocked (w : World) (p : Pid) (k : LockKey) : Prop :=
  w.sessions.owner k = none ∨ w.sessions.owner k = some p

theorem released_cases (s : Sessions Pid DateTime Write) (p : Pid) (k : LockKey) :
    s.released p k = s.owner k ∨ (s.owner k = some p ∧ s.released p k = none) := by
  unfold Sessions.released
  split
  · rename_i h; exact .inr ⟨h, rfl⟩
  · exact .inl rfl

/-- The writes of `p` take the locks in `L`, or none. -/
theorem record_owner {ws : List Write} (h : w.record p ws = some w') :
    ∃ L : List LockKey, ∀ k, w'.sessions.owner k = w.sessions.owner k ∨
      (w.Unlocked p k ∧ w'.sessions.owner k = some p ∧ k ∈ L) := by
  unfold record at h
  split at h
  · rename_i hfree
    split at h
    · cases h
      refine ⟨lockSet ws, fun k => ?_⟩
      by_cases hk : k ∈ lockSet ws
      · exact .inr ⟨hfree k hk, if_pos hk, hk⟩
      · exact .inl (if_neg hk)
    · split at h <;> cases h <;> exact ⟨[], fun k => .inl rfl⟩
  · cases h

/-- An operation of `p` changes the locks that `p` or nobody holds: it lets go of some, or takes
    those in `L`. -/
theorem exec_owner {r : e.Reply} (h : w.exec p e c = some (w', r)) : ∃ L : List LockKey, ∀ k,
    w'.sessions.owner k = w.sessions.owner k ∨ (w.Unlocked p k ∧
      (w'.sessions.owner k = none ∨ (w'.sessions.owner k = some p ∧ k ∈ L))) := by
  have hclose : ∀ {w' : World}, w'.sessions.owner = w.sessions.released p → ∃ L : List LockKey,
      ∀ k, w'.sessions.owner k = w.sessions.owner k ∨ (w.Unlocked p k ∧
        (w'.sessions.owner k = none ∨ (w'.sessions.owner k = some p ∧ k ∈ L))) := fun {w'} hw' => by
    refine ⟨[], fun k => ?_⟩
    rw [hw']
    exact (released_cases w.sessions p k).imp_right fun h => ⟨.inr h.1, .inl h.2⟩
  cases e
  case sql s =>
    obtain ⟨_, -, rfl⟩ | ⟨_, _, -, hrec, -⟩ := act_sql_cases h
    · exact ⟨[], fun k => .inl rfl⟩
    · obtain ⟨L, hL⟩ := record_owner hrec
      exact ⟨L, fun k => (hL k).imp_right fun h => ⟨h.1, .inr h.2⟩⟩
  all_goals simp only [exec, act] at h
  case begin =>
    split at h <;> cases h
    · exact ⟨[], fun k => .inl rfl⟩
    · exact hclose rfl
  case commit =>
    split at h
    · cases h; exact ⟨[], fun k => .inl rfl⟩
    · split at h <;> cases h
      · exact ⟨[], fun k => .inl rfl⟩
      · exact hclose rfl
  case rollback =>
    split at h <;> cases h
    · exact ⟨[], fun k => .inl rfl⟩
    · exact hclose rfl
  case drop => cases h; exact hclose rfl
  all_goals cases h; exact ⟨[], fun k => .inl rfl⟩

/-- A process neither breaks the locks of others nor is it hindered by its own. -/
theorem exec_unlocked {r : e.Reply} (h : w.exec p e c = some (w', r)) {k : LockKey} :
    w'.Unlocked p k ↔ w.Unlocked p k := by
  obtain ⟨L, hL⟩ := exec_owner h
  unfold Unlocked at hL ⊢
  rcases hL k with hk | ⟨hk, hk' | ⟨hk', -⟩⟩
  · rw [hk]
  · exact ⟨fun _ => hk, fun _ => .inl hk'⟩
  · exact ⟨fun _ => hk, fun _ => .inr hk'⟩

end Payman.World

namespace Payman
open Schemes

/-- A run that begins with a statement. -/
theorem run_sql_bind {α : Type} {p : Pid} {w w' : World} {s : Stmt} {f : s.Result → App α}
    {cs : List Choice} {a : Except AppError α}
    (h : (sql s >>= f).run.run (World.exec p) cs w = some (w', a)) :
    ∃ c cs' w₁ r, cs = c :: cs' ∧ w.exec p (.sql s) c = some (w₁, r) ∧
      ((∃ x, r = .ok x ∧ (f x).run.run (World.exec p) cs' w₁ = some (w', a)) ∨
        ∃ e, r = .error e ∧ w' = w₁ ∧ a = .error (.Database e)) := by
  have hop : (sql s >>= f).run = .op (.sql s) fun r =>
      ((ExceptT.mk (.ret (or_database r)) : App s.Result) >>= f).run := rfl
  rw [hop] at h
  cases cs with
  | nil => cases h
  | cons c cs' =>
    rw [Prog.run] at h
    split at h
    · cases h
    · rename_i w₁ r hx
      refine ⟨c, cs', w₁, r, rfl, hx, ?_⟩
      cases r with
      | ok x => exact .inl ⟨x, rfl, h⟩
      | error e =>
        cases h
        exact .inr ⟨e, rfl, rfl, rfl⟩

end Payman
