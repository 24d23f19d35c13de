import Payman.Safety.Polls
import Payman.Safety.Turns
import Payman.Schemes.Rounds

/-! One tick of the reconciliation worker, turn by turn.

    Both loops of a tick go through a list of attempts. The turn of an attempt commits all that is
    due for it or nothing, and the latter only when one of its database calls fails. It touches the
    attempt's own row and the row of its invoice. -/

namespace Payman
open Schemes

variable {p : Pid} {w w' : World} {cs rest : List Choice}

/-- The turn of an attempt in one of the two loops. -/
abbrev AttemptTurn := Round AttemptRow Choice World (Except AppError Unit)

/-- The first loop's body for an attempt. -/
def reconcile_row (row : AttemptRow) : Prog payman (Except AppError Unit) :=
  (reconcile_attempt row.id row.invoice_id row.retry_count).run

/-- The second loop's body. -/
def expire_row (row : AttemptRow) : Prog payman (Except AppError Unit) :=
  (expire row.id row.invoice_id).run

/-- The PSP reports an outcome. -/
def Answer.outcome : Answer → Option Outcome
  | .response status body => if is_success status then body.bind PspBody.outcome else none
  | .timed_out => none
  | .network_error => none

/-- The invoice is being processed. -/
def Db.processing (db : Db) (i : Uuid) : Bool := (db.invoice i).any fun r => r.state = .Processing

/-- What the turn of an attempt changes: nothing, the date of the next poll, or the status of the
    attempt, and then it may move the invoice. -/
inductive AttemptChange where
  | nothing
  | poll_again
  | settle (o : Outcome) (moves : Bool)
  deriving DecidableEq

/-- The writes of a change at time `t`. -/
def AttemptChange.writes (db : Db) (row : AttemptRow) (t : DateTime) : AttemptChange → List Write
  | .nothing => []
  | .poll_again =>
    [.put_attempt { row with
      retry_count := row.retry_count + 1,
      next_retry_at := some (t + (backoff_mins row.retry_count).toInt * minute),
      updated_at := t }]
  | .settle o moves =>
    .put_attempt (o.record t row) ::
      match db.invoice row.invoice_id with
      | some r => if moves then [.put_invoice { r with state := o.state, updated_at := t }] else []
      | none => []

/-- The change that is due when the PSP has given this answer: an outcome moves an invoice that is
    being processed. -/
def Answer.change (db : Db) (row : AttemptRow) : Answer → AttemptChange
  | .response status body =>
    if status = 404 then .poll_again
    else
      match (Answer.response status body).outcome with
      | some o => .settle o (db.processing row.invoice_id)
      | none => .nothing
  | .timed_out => .nothing
  | .network_error => .nothing

/-- How many calls to the database there are for an answer up to the commit. -/
def Answer.calls : Answer → ℕ
  | .response status body =>
    if status = 404 then 1
    else if (Answer.response status body).outcome.isSome then 4
    else 0
  | .timed_out => 0
  | .network_error => 0

/-- The query has failed: no answer, or a success without a body that can be read. -/
def Answer.Unusable : Answer → Prop
  | .response status body => is_success status = true ∧ body = none
  | .timed_out => True
  | .network_error => True

/-- The query for `row` or an update after it fails: no usable answer, the counter of polls is at
    the limit of its column, or one of the calls up to the commit fails, where `cs` are the choices
    for the calls. -/
def Answer.Fails (ans : Answer) (row : AttemptRow) (cs : List Choice) : Prop :=
  ans.Unusable ∨ (ans.NotFound ∧ row.retry_count = Int32.maxValue) ∨
    ∃ c ∈ cs.take ans.calls, c.fail = true

namespace AttemptTurn

/-- What the PSP answers in the first loop. -/
def answer (turn : AttemptTurn) : Option Answer := turn.choices.head?.map (·.answer)

/-- The change that is due in the first loop. -/
def reconciliation (turn : AttemptTurn) : AttemptChange :=
  turn.answer.elim .nothing (·.change turn.before.db turn.item)

/-- The change that is due in the second loop. -/
def expiry (_ : AttemptTurn) : AttemptChange := .settle .expired true

/-- The query or the update of an attempt fails in the first loop. -/
def ReconcileFails (turn : AttemptTurn) : Prop :=
  ∃ c ∈ turn.choices.head?, c.answer.Fails turn.item (turn.choices.drop 1)

/-- One of the four database calls of an expiry fails. -/
def ExpireFails (turn : AttemptTurn) : Prop := ∃ c ∈ turn.choices.take 4, c.fail = true

/-- In the first loop the attempt is given an outcome. -/
def Settles (turn : AttemptTurn) : Prop :=
  ¬turn.ReconcileFails ∧ ∃ ans ∈ turn.answer, ans.outcome.isSome = true

end AttemptTurn

/-- An UPDATE that sets columns to values is not refused. -/
theorem Stmt.set_ne_error {ρ κ : Type} [Keyed ρ κ] [DecidableEq κ] {tbl : Table ρ} {k : κ}
    {cond : ρ → Bool} {set : ρ → ρ} {wr : ρ → Write} (e : DbError) :
    Stmt.rows_affected <$> Stmt.update tbl k cond (fun r => .ok (set r)) wr ≠ .error e := by
  intro h
  unfold Stmt.update at h
  split at h
  · cases h
  · split at h <;> cases h

/-- The database never refuses the statement. -/
def Stmt.Certain (s : Stmt) : Prop := ∀ t c db e, s.run t c db ≠ .error e

theorem Stmt.certain_expire (a : Uuid) : (Stmt.expire_attempt a).Certain :=
  fun _ _ _ e => set_ne_error e

theorem Stmt.certain_reopen (i : Uuid) : (Stmt.reopen_invoice i).Certain :=
  fun _ _ _ e => set_ne_error e

theorem Stmt.certain_succeeded (psp_ref : Option String) (a : Uuid) :
    (Stmt.mark_succeeded psp_ref a).Certain := fun _ _ _ e => set_ne_error e

theorem Stmt.certain_failed (code : Option String) (a : Uuid) :
    (Stmt.mark_failed code a).Certain := fun _ _ _ e => set_ne_error e

theorem Stmt.certain_leave (s : InvoiceState) (i : Uuid) : (Stmt.leave_processing s i).Certain :=
  fun _ _ _ e => set_ne_error e

theorem Stmt.certain_pending : Stmt.select_pending.Certain := fun _ _ _ _ h => by cases h

theorem Stmt.certain_expired : Stmt.select_expired.Certain := fun _ _ _ _ h => by cases h

/-! ### Operations -/

theorem play_clock {α : Type} {x : Prog payman α} {a : α}
    (h : x.play (World.exec p) cs w = some (w', a, rest)) : w.now ≤ w'.now :=
  Prog.play_mono (R := fun w w' : World => w.now ≤ w'.now) (fun _ => Int.le_refl _)
    (fun _ _ _ => Int.le_trans) (fun _ _ _ _ _ => World.exec_clock) h

theorem play_call {α : Type} {e : Eff} {g : e.Reply → Except AppError α} {a : Except AppError α}
    (h : (ExceptT.mk (.op e fun r => .ret (g r)) : App α).run.play (World.exec p) cs w =
      some (w', a, rest)) :
    ∃ c r, cs = c :: rest ∧ w.exec p e c = some (w', r) ∧ a = g r := by
  obtain ⟨c, cs', w₁, r, rfl, hx, hret⟩ := Prog.play_op h
  cases hret
  exact ⟨c, r, rfl, hx, rfl⟩

/-- BEGIN fails, or the transaction starts now. -/
theorem play_begin {a : Except AppError Unit}
    (h : begin_tx.run.play (World.exec p) cs w = some (w', a, rest)) :
    w'.db = w.db ∧ ∃ c, cs = c :: rest ∧
      ((c.fail = true ∧ (∃ e, a = .error e) ∧ w'.tx p = w.tx p) ∨
        c.fail = false ∧ a = .ok () ∧ w'.tx p = some ⟨w'.now, []⟩) := by
  obtain ⟨c, r, rfl, hx, rfl⟩ := play_call h
  simp only [World.exec, World.act] at hx
  split at hx
  · rename_i hc
    cases hx
    exact ⟨rfl, c, rfl, .inl ⟨hc, ⟨_, rfl⟩, rfl⟩⟩
  · rename_i hc
    cases hx
    exact ⟨rfl, c, rfl, .inr ⟨Bool.eq_false_iff.mpr hc, rfl, Sessions.txs_start ..⟩⟩

/-- COMMIT fails, or the writes of the transaction are there. -/
theorem play_commit {t : Tx DateTime Write} {a : Except AppError Unit} (htx : w.tx p = some t)
    (h : commit_tx.run.play (World.exec p) cs w = some (w', a, rest)) :
    ∃ c, cs = c :: rest ∧
      ((c.fail = true ∧ (∃ e, a = .error e) ∧ w'.db = w.db) ∨
        c.fail = false ∧ a = .ok () ∧ w'.tx p = none ∧ w'.db = applyAll w.db t.writes) := by
  obtain ⟨c, r, rfl, hx, rfl⟩ := play_call h
  refine ⟨c, rfl, ?_⟩
  by_cases hc : c.fail = true
  · cases r with
    | error e => exact .inl ⟨hc, ⟨_, rfl⟩, (World.commit_error hx).2.1⟩
    | ok _ =>
      have htx' : (w.elapse c.elapsed).tx p = some t := htx
      simp only [World.exec, World.act, htx', hc, if_true] at hx
      cases hx
  · rw [Bool.not_eq_true] at hc
    obtain ⟨w₁, hx₁, htx₁, hdb₁⟩ := World.exec_commit htx hc
    cases hx.symm.trans hx₁
    exact .inr ⟨hc, rfl, htx₁, hdb₁⟩

/-- A statement of a transaction that the database does not refuse. -/
theorem play_staged {s : Stmt} {t : DateTime} {vs : List Write} {a : Except AppError s.Result}
    (htx : w.tx p = some ⟨t, vs⟩) (hall : s.Certain)
    (h : (sql s).run.play (World.exec p) cs w = some (w', a, rest)) :
    w'.db = w.db ∧ ∃ c, cs = c :: rest ∧
      ((c.fail = true ∧ ∃ e, a = .error e) ∨
        c.fail = false ∧ ∃ ws r, a = .ok r ∧ s.run t c (applyAll w.db vs) = .ok (ws, r) ∧
          w'.tx p = some ⟨t, vs ++ ws⟩) := by
  obtain ⟨c, r, rfl, hx, rfl⟩ := play_call h
  obtain ⟨hdb, -, ⟨e, rfl, -⟩ | ⟨ws, r, rfl, hrun, htx'⟩⟩ := World.sql_inside hx htx
  · refine ⟨hdb, c, rfl, .inl ⟨?_, _, rfl⟩⟩
    obtain ⟨-, hc | hbad⟩ := World.act_sql_error hx
    · exact hc
    · have htx' : (w.elapse c.elapsed).sessions.txs p = some ⟨t, vs⟩ := htx
      rw [World.sql_now, World.tx, htx', Sessions.view, htx'] at hbad
      exact (hall _ _ _ _ hbad).elim
  · exact ⟨hdb, c, rfl, .inr ⟨World.act_sql_calm hx, ws, r, rfl, hrun, htx'⟩⟩

/-- A statement outside a transaction, which sees the current time. -/
theorem play_idle {s : Stmt} {a : Except AppError s.Result} (htx : w.tx p = none)
    (h : (sql s).run.play (World.exec p) cs w = some (w', a, rest)) :
    w'.tx p = none ∧ ∃ c, cs = c :: rest ∧
      ((w'.db = w.db ∧ (c.fail = true ∨ ∃ e, s.run w'.now c w.db = .error e)) ∨
        c.fail = false ∧
          ∃ ws r, s.run w'.now c w.db = .ok (ws, r) ∧ w'.db = applyAll w.db ws) := by
  obtain ⟨c, r, rfl, hx, rfl⟩ := play_call h
  have htx₁ : (w.elapse c.elapsed).tx p = none := htx
  have hview : (w.elapse c.elapsed).sessions.view p = w.db := World.view_idle htx₁
  have hnow : (w.elapse c.elapsed).sql_now p = w'.now :=
    (World.sql_now_idle htx₁).trans (World.act_now hx).symm
  obtain ⟨e, rfl, hw⟩ | ⟨ws, r, hrun, hrec, rfl⟩ := World.act_sql_cases hx
  · obtain ⟨-, hfail | hbad⟩ := World.act_sql_error hx
    · exact ⟨hw ▸ htx₁, c, rfl, .inl ⟨hw ▸ rfl, .inl hfail⟩⟩
    · rw [hview, hnow] at hbad
      exact ⟨hw ▸ htx₁, c, rfl, .inl ⟨hw ▸ rfl, .inr ⟨e, hbad⟩⟩⟩
  · rw [hview, hnow] at hrun
    obtain ⟨htx', hdb⟩ := World.record_idle hrec htx₁
    exact ⟨htx', c, rfl, .inr ⟨World.act_sql_calm hx, ws, r, hrun, hdb⟩⟩

/-- A scope that owns a transaction: an error drops it. -/
theorem play_or_drop {α : Type} {x : App α} {a : Except AppError α}
    (h : (or_drop x).run.play (World.exec p) cs w = some (w', a, rest)) :
    (∃ v, a = .ok v ∧ x.run.play (World.exec p) cs w = some (w', .ok v, rest)) ∨
      ∃ e w₁ cs₁, a = .error e ∧ x.run.play (World.exec p) cs w = some (w₁, .error e, cs₁) ∧
        w'.tx p = none ∧ w'.db = w₁.db := by
  obtain ⟨w₁, r, cs₁, hx, hrest⟩ := Prog.play_bind h
  cases r with
  | ok v =>
    cases hrest
    exact .inl ⟨v, rfl, hx⟩
  | error e =>
    obtain ⟨c, cs₂, w₂, u, rfl, hdrop, hret⟩ := Prog.play_op hrest
    cases hret
    obtain ⟨htx, hdb, -⟩ := World.drop_ok hdrop
    exact .inr ⟨e, w₁, _, rfl, hx, htx, hdb⟩

/-! ### Two updates and a commit -/

/-- The rest of a transaction that settles an attempt. -/
def two_updates (s₁ s₂ : Stmt) : App Unit := do
  let _ ← sql s₁
  let _ ← sql s₂
  commit_tx

/-- Both updates were committed. -/
def Updated (s₁ s₂ : Stmt) (t : DateTime) (cs rest : List Choice) (db db' : Db) : Prop :=
  ∃ c₁ c₂ c₃ ws₁ ws₂ r₁ r₂, cs = c₁ :: c₂ :: c₃ :: rest ∧ (∀ c ∈ [c₁, c₂, c₃], c.fail = false) ∧
    s₁.run t c₁ db = .ok (ws₁, r₁) ∧ s₂.run t c₂ (applyAll db ws₁) = .ok (ws₂, r₂) ∧
    db' = applyAll db (ws₁ ++ ws₂)

theorem play_two_updates {s₁ s₂ : Stmt} {t : DateTime} {a : Except AppError Unit}
    (htx : w.tx p = some ⟨t, []⟩) (h₁ : s₁.Certain) (h₂ : s₂.Certain)
    (h : (two_updates s₁ s₂).run.play (World.exec p) cs w = some (w', a, rest)) :
    ((∃ e, a = .error e) ∧ w'.db = w.db ∧ ∃ c ∈ cs.take 3, c.fail = true) ∨
      a = .ok () ∧ w'.tx p = none ∧ Updated s₁ s₂ t cs rest w.db w'.db := by
  obtain ⟨w₁, r₁, cs₁, hx₁, h⟩ := Prog.play_bindE h
  obtain ⟨hdb₁, c₁, rfl, ⟨hc₁, e₁, rfl⟩ | ⟨hc₁, ws₁, u₁, rfl, hrun₁, htx₁⟩⟩ :=
    play_staged htx h₁ hx₁
  · obtain ⟨rfl, rfl, -⟩ := Prog.rest_of_error h
    exact .inl ⟨⟨e₁, rfl⟩, hdb₁, c₁, by simp, hc₁⟩
  replace h := Prog.rest_of_ok h
  obtain ⟨w₂, r₂, cs₂, hx₂, h⟩ := Prog.play_bindE h
  obtain ⟨hdb₂, c₂, rfl, ⟨hc₂, e₂, rfl⟩ | ⟨hc₂, ws₂, u₂, rfl, hrun₂, htx₂⟩⟩ :=
    play_staged htx₁ h₂ hx₂
  · obtain ⟨rfl, rfl, -⟩ := Prog.rest_of_error h
    exact .inl ⟨⟨e₂, rfl⟩, hdb₂.trans hdb₁, c₂, by simp, hc₂⟩
  replace h := Prog.rest_of_ok h
  obtain ⟨c₃, rfl, ⟨hc₃, he, hdb₃⟩ | ⟨hc₃, rfl, htx₃, hdb₃⟩⟩ := play_commit htx₂ h
  · exact .inl ⟨he, hdb₃.trans (hdb₂.trans hdb₁), c₃, by simp, hc₃⟩
  · rw [hdb₁] at hrun₂ hdb₂
    rw [hdb₂] at hdb₃
    exact .inr ⟨rfl, htx₃, c₁, c₂, c₃, ws₁, ws₂, u₁, u₂, rfl, by simp [hc₁, hc₂, hc₃], hrun₁,
      hrun₂, hdb₃⟩

/-- The transaction that settles an attempt is abandoned because a call has failed, or both its
    updates are committed. -/
theorem play_settlement {s₁ s₂ : Stmt} {t : DateTime} {a : Except AppError Unit}
    (htx : w.tx p = some ⟨t, []⟩) (h₁ : s₁.Certain) (h₂ : s₂.Certain)
    (h : (or_drop (two_updates s₁ s₂)).run.play (World.exec p) cs w = some (w', a, rest)) :
    w'.tx p = none ∧ (((∃ e, a = .error e) ∧ w'.db = w.db ∧ ∃ c ∈ cs.take 3, c.fail = true) ∨
      a = .ok () ∧ Updated s₁ s₂ t cs rest w.db w'.db) := by
  obtain ⟨v, rfl, hbody⟩ | ⟨e, w₁, cs₁, rfl, hbody, htx', hdb'⟩ := play_or_drop h
  · obtain ⟨⟨e, he⟩, -⟩ | ⟨-, htx', hup⟩ := play_two_updates htx h₁ h₂ hbody
    · cases he
    · exact ⟨htx', .inr ⟨rfl, hup⟩⟩
  · obtain ⟨he, hdb, hfail⟩ | ⟨hno, -⟩ := play_two_updates htx h₁ h₂ hbody
    · exact ⟨htx', .inl ⟨he, hdb'.trans hdb, hfail⟩⟩
    · cases hno

/-! ### The turn of an attempt -/

theorem Db.processing_iff {db : Db} {i : Uuid} : db.processing i = true ↔
    ∃ r, db.invoice i = some r ∧ r.state = .Processing := by
  rw [Db.processing, Option.any_eq_true]
  simp only [decide_eq_true_eq]

theorem Db.processing_iff_ledger {db : Db} {i : Uuid} :
    db.processing i = true ↔ db.ledger.state i = some .Processing :=
  Db.processing_iff.trans Option.map_eq_some_iff.symm

/-- An outcome is recorded on the row and then on an invoice that is still being processed. -/
theorem AttemptChange.writes_of_leave {db : Db} {row : AttemptRow} {o : Outcome} {t : DateTime}
    {c : Choice} {ws : List Write} {n : ℕ}
    (h : (Stmt.leave_processing o.state row.invoice_id).run t c
      (applyAll db [Write.put_attempt (o.record t row)]) = .ok (ws, n)) :
    .put_attempt (o.record t row) :: ws =
      (AttemptChange.settle o (db.processing row.invoice_id)).writes db row t := by
  unfold AttemptChange.writes
  rw [List.cons.injEq]
  refine ⟨rfl, ?_⟩
  obtain ⟨rfl, hno⟩ | ⟨r, hr, hproc, rfl⟩ := Stmt.run_leave_processing h
  · cases hr : db.invoice row.invoice_id with
    | none => rfl
    | some r =>
      refine (if_neg fun hproc => ?_).symm
      obtain ⟨r', hr', hstate⟩ := Db.processing_iff.mp hproc
      exact hno r' hr' hstate
  · rw [show db.invoice row.invoice_id = some r from hr]
    exact (if_pos (Db.processing_iff.mpr ⟨r, hr, hproc⟩)).symm

theorem AttemptChange.writes_of_reopen {db : Db} {row : AttemptRow} {t : DateTime} {c : Choice}
    {ws : List Write} {n : ℕ} (h : (Stmt.reopen_invoice row.invoice_id).run t c
      (applyAll db [Write.put_attempt (Outcome.expired.record t row)]) = .ok (ws, n)) :
    .put_attempt (Outcome.expired.record t row) :: ws =
      (AttemptChange.settle .expired true).writes db row t := by
  unfold AttemptChange.writes
  rw [List.cons.injEq]
  refine ⟨rfl, ?_⟩
  obtain ⟨rfl, hr⟩ | ⟨r, hr, rfl⟩ := Stmt.run_reopen_invoice h
  · rw [show db.invoice row.invoice_id = none from hr]
  · rw [show db.invoice row.invoice_id = some r from hr]
    rfl

/-- The turn has committed the change. -/
def AttemptTurn.Commits (turn : AttemptTurn) (change : AttemptChange) : Prop :=
  ∃ t, turn.before.now ≤ t ∧ t ≤ turn.after.now ∧
    turn.after.db = applyAll turn.before.db (change.writes turn.before.db turn.item t)

theorem expire_eq (a i : Uuid) : expire a i =
    begin_tx >>= fun _ => or_drop (two_updates (.expire_attempt a) (.reopen_invoice i)) := by
  simp only [expire, transaction, two_updates, bind_assoc, pure_bind, bind_pure_unit]

/-- CORRECT (second loop): an expiry commits both updates, or a call has failed and nothing is
    changed. -/
theorem AttemptTurn.expire {turn : AttemptTurn} (h : turn.Ran (World.exec p) expire_row)
    (htx : turn.before.tx p = none)
    (hrow : turn.before.db.attempt turn.item.id = some turn.item) :
    turn.after.tx p = none ∧
      ((turn.result = .ok () ∧ turn.Commits turn.expiry ∧ turn.rest = turn.choices.drop 4 ∧
        ¬turn.ExpireFails) ∨
      (∃ e, turn.result = .error e) ∧ turn.after.db = turn.before.db ∧ turn.ExpireFails) := by
  obtain ⟨row, cs, w, a, w', rest⟩ := turn
  replace h : (Payman.expire row.id row.invoice_id).run.play (World.exec p) cs w =
    some (w', a, rest) := h
  rw [expire_eq] at h
  obtain ⟨w₁, r₁, cs₁, hbegin, h⟩ := Prog.play_bindE h
  obtain ⟨hdb₁, c, rfl, ⟨hc, ⟨e, rfl⟩, htx₁⟩ | ⟨hc, rfl, htx₁⟩⟩ := play_begin hbegin
  · obtain ⟨rfl, rfl, rfl⟩ := Prog.rest_of_error h
    exact ⟨htx₁.trans htx, .inr ⟨⟨e, rfl⟩, hdb₁, c, by simp, hc⟩⟩
  replace h := Prog.rest_of_ok h
  obtain ⟨htx', ⟨he, hdb, d, hd, hfail⟩ | ⟨rfl, c₁, c₂, c₃, ws₁, ws₂, r₁, r₂, rfl, hcs, hrun₁,
    hrun₂, hdb⟩⟩ := play_settlement htx₁ (Stmt.certain_expire _)
      (Stmt.certain_reopen _) h
  · exact ⟨htx', .inr ⟨he, hdb.trans hdb₁, d, List.mem_cons_of_mem _ hd, hfail⟩⟩
  · refine ⟨htx', .inl ⟨rfl, ⟨w₁.now, play_clock hbegin, play_clock h, ?_⟩, rfl, ?_⟩⟩
    · obtain rfl := Stmt.settled_ok (o := .expired) hrun₁ row (hdb₁ ▸ hrow)
      rw [hdb₁] at hrun₂ hdb
      rw [show w'.db = _ from hdb, List.singleton_append, AttemptChange.writes_of_reopen hrun₂]
      rfl
    · rintro ⟨d, hd, hfail⟩
      rw [List.take_succ_cons, List.mem_cons] at hd
      have hcalm : d.fail = false := by
        rcases hd with rfl | hd
        · exact hc
        · exact hcs d hd
      cases hcalm.symm.trans hfail

/-- After the commit the worker looks for the business to notify. -/
theorem play_notify {i : Uuid} {event_type : String} {a : Except AppError Unit}
    (htx : w.tx p = none)
    (h : (get_business_id i >>= fun b => spawn_dispatch b i event_type).run.play (World.exec p) cs
      w = some (w', a, rest)) : w'.tx p = none ∧ w'.db = w.db := by
  obtain ⟨w₁, r₁, cs₁, hget, hspawn⟩ := Prog.play_bindE h
  obtain ⟨w₀, r₀, cs₀, hsql, hget⟩ := Prog.play_bindE hget
  obtain ⟨c, r, rfl, hx, rfl⟩ := play_call hsql
  have hread : w₀.tx p = none ∧ w₀.db = w.db := by
    obtain ⟨htx₀, ⟨e, -, hdb, -⟩ | ⟨ws, b, t, -, hrun, hdb, -⟩⟩ := World.sql_idle hx htx
    · exact ⟨htx₀, hdb⟩
    · cases hrun
      exact ⟨htx₀, hdb⟩
  have hsame : w₁ = w₀ := by
    obtain ⟨b, -, hret⟩ | ⟨e, -, -, rfl, -⟩ := hget
    · cases b <;> cases hret <;> rfl
    · rfl
  subst hsame
  obtain ⟨b, -, hspawn⟩ | ⟨e, -, -, rfl, -⟩ := hspawn
  · obtain ⟨d, u, rfl, hx, -⟩ := play_call hspawn
    cases hx
    exact hread
  · exact hread

/-- The transaction that records an outcome, and the notification after it. -/
theorem play_settle {s₁ : Stmt} {o : Outcome} {row : AttemptRow} {event_type : String}
    {t : DateTime} {a : Except AppError Unit} (hs : s₁.Certain)
    (hput : ∀ c ws r, s₁.run t c w.db = .ok (ws, r) → ws = [.put_attempt (o.record t row)])
    (htx : w.tx p = some ⟨t, []⟩)
    (h : (or_drop (two_updates s₁ (.leave_processing o.state row.invoice_id)) >>= fun _ =>
      get_business_id row.invoice_id >>= fun b =>
        spawn_dispatch b row.invoice_id event_type).run.play (World.exec p) cs w =
      some (w', a, rest)) :
    w'.tx p = none ∧
      (w'.db = applyAll w.db
        ((AttemptChange.settle o (w.db.processing row.invoice_id)).writes w.db row t) ∧
        (∀ c ∈ cs.take 3, c.fail = false) ∨
      w'.db = w.db ∧ ∃ c ∈ cs.take 3, c.fail = true) := by
  obtain ⟨w₁, r₁, cs₁, hset, h⟩ := Prog.play_bindE h
  obtain ⟨htx₁, ⟨⟨e, rfl⟩, hdb, hfail⟩ | ⟨rfl, c₁, c₂, c₃, ws₁, ws₂, u₁, u₂, hcs, hcalm, hrun₁,
    hrun₂, hdb⟩⟩ := play_settlement htx hs (Stmt.certain_leave _ _) hset
  · obtain ⟨-, rfl, -⟩ := Prog.rest_of_error h
    exact ⟨htx₁, .inr ⟨hdb, hfail⟩⟩
  · replace h := Prog.rest_of_ok h
    obtain ⟨htx', hdb'⟩ := play_notify htx₁ h
    obtain rfl := hput _ _ _ hrun₁
    rw [List.singleton_append, AttemptChange.writes_of_leave hrun₂] at hdb
    exact ⟨htx', .inl ⟨hdb'.trans hdb, hcs ▸ hcalm⟩⟩

/-- The answer 404: the next poll is scheduled. -/
theorem play_schedule {row : AttemptRow} {a : Except AppError Unit} (htx : w.tx p = none)
    (hrow : w.db.attempt row.id = some row)
    (h : (do
      let _ ← sql (.schedule_retry (backoff_mins row.retry_count) row.id) : App Unit).run.play
        (World.exec p) cs w = some (w', a, rest)) :
    w'.tx p = none ∧
      (w'.db = applyAll w.db (AttemptChange.poll_again.writes w.db row w'.now) ∧
        row.retry_count ≠ Int32.maxValue ∧ (∀ c ∈ cs.take 1, c.fail = false) ∨
      w'.db = w.db ∧ (row.retry_count = Int32.maxValue ∨ ∃ c ∈ cs.take 1, c.fail = true)) := by
  obtain ⟨w₁, r, cs₁, hsql, hret⟩ := Prog.play_bindE h
  have hsame : w' = w₁ := by
    obtain ⟨v, -, hret⟩ | ⟨e, -, -, hw, -⟩ := hret
    · cases hret
      rfl
    · exact hw
  subst hsame
  obtain ⟨htx', c, rfl, ⟨hdb, hfail | ⟨e, hbad⟩⟩ | ⟨hcalm, ws, n, hrun, hdb⟩⟩ :=
    play_idle htx hsql
  · exact ⟨htx', .inr ⟨hdb, .inr ⟨c, by simp, hfail⟩⟩⟩
  · refine ⟨htx', .inr ⟨hdb, .inl ?_⟩⟩
    by_contra hmax
    rw [Stmt.run_schedule_retry_of hrow hmax] at hbad
    cases hbad
  · have hmax : row.retry_count ≠ Int32.maxValue := by
      intro hmax
      obtain ⟨-, -, hno⟩ | ⟨row', _, hrow', -, hset, -⟩ := Stmt.rows_affected_ok hrun
      · exact absurd (hno row hrow) nofun
      · cases hrow.symm.trans hrow'
        exact (Stmt.map_next_i32_ok hset).1 hmax
    rw [Stmt.run_schedule_retry_of hrow hmax] at hrun
    cases hrun
    exact ⟨htx', .inl ⟨hdb, hmax, by simpa using hcalm⟩⟩

/-- What is done with an answer. -/
def Answer.handle (ans : Answer) (row : AttemptRow) : App Unit :=
  match ans with
  | .timed_out => pure ()
  | .network_error => pure ()
  | .response status body =>
    if status = 404 then do
      let _ ← sql (.schedule_retry (backoff_mins row.retry_count) row.id)
    else if is_success status then do
      let psp ← ok_or body .Internal
      apply_outcome psp row.id row.invoice_id
    else pure ()

theorem reconcile_eq (row : AttemptRow) : reconcile_row row =
    (get_charge row.id >>= fun ans => ans.handle row).run := rfl

/-- What is due for the answer was committed. -/
def Answer.Done (ans : Answer) (row : AttemptRow) (w w' : World) : Prop :=
  ∃ t, w.now ≤ t ∧ t ≤ w'.now ∧ w'.db = applyAll w.db ((ans.change w.db row).writes w.db row t)

/-- There was nothing to do. -/
theorem Answer.Done.nothing {ans : Answer} {row : AttemptRow} (hnow : w.now ≤ w'.now)
    (hdb : w'.db = w.db) (h : ans.change w.db row = .nothing) : ans.Done row w w' :=
  ⟨w.now, Int.le_refl _, hnow, by rw [h, hdb]; rfl⟩

/-- Nothing has failed. -/
theorem Answer.not_fails {status : ℕ} {body : Option PspBody} {row : AttemptRow} {cs : List Choice}
    (hbody : is_success status = true → body ≠ none)
    (hmax : status = 404 → row.retry_count ≠ Int32.maxValue)
    (hcalm : ∀ c ∈ cs.take (Answer.response status body).calls, c.fail = false) :
    ¬(Answer.response status body).Fails row cs := by
  rintro (⟨hsucc, hno⟩ | ⟨⟨body', heq⟩, hcount⟩ | ⟨c, hc, hfail⟩)
  · exact hbody hsucc hno
  · cases heq
    exact hmax rfl hcount
  · cases (hcalm c hc).symm.trans hfail

/-- An answer other than 404. -/
theorem Answer.change_eq {status : ℕ} {body : Option PspBody} {db : Db} {row : AttemptRow}
    (h404 : status ≠ 404) : (Answer.response status body).change db row =
      (Answer.response status body).outcome.elim .nothing
        fun o => .settle o (db.processing row.invoice_id) := by
  rw [Answer.change, if_neg h404]
  cases (Answer.response status body).outcome <;> rfl

theorem Answer.calls_eq {status : ℕ} {body : Option PspBody} (h404 : status ≠ 404) :
    (Answer.response status body).calls =
      if (Answer.response status body).outcome.isSome then 4 else 0 := by
  rw [Answer.calls, if_neg h404]

theorem Answer.outcome_success {status : ℕ} {psp : PspBody} (h : is_success status = true) :
    (Answer.response status (some psp)).outcome = psp.outcome := if_pos h

/-- What follows BEGIN when the answer is an outcome. -/
theorem play_recorded {row : AttemptRow} {status : ℕ} {psp : PspBody} {s₁ : Stmt} {o : Outcome}
    {event_type : String} {t : DateTime} {c : Choice} {a : Except AppError Unit} {w₀ : World}
    (h404 : status ≠ 404) (ho : (Answer.response status (some psp)).outcome = some o)
    (hs : s₁.Certain)
    (hput : ∀ c ws r, s₁.run t c w.db = .ok (ws, r) → ws = [.put_attempt (o.record t row)])
    (htx : w.tx p = some ⟨t, []⟩) (hdb₀ : w.db = w₀.db) (hlo : w₀.now ≤ t) (hhi : t ≤ w'.now)
    (hc : c.fail = false)
    (h : (or_drop (two_updates s₁ (.leave_processing o.state row.invoice_id)) >>= fun _ =>
      get_business_id row.invoice_id >>= fun b =>
        spawn_dispatch b row.invoice_id event_type).run.play (World.exec p) cs w =
      some (w', a, rest)) :
    w'.tx p = none ∧
      ((Answer.response status (some psp)).Done row w₀ w' ∧
        ¬(Answer.response status (some psp)).Fails row (c :: cs) ∨
      w'.db = w₀.db ∧ (Answer.response status (some psp)).Fails row (c :: cs)) := by
  have hcalls : (Answer.response status (some psp)).calls = 4 := by
    rw [Answer.calls_eq h404, ho]
    rfl
  obtain ⟨htx', ⟨hdb, hcalm⟩ | ⟨hdb, d, hd, hfail⟩⟩ := play_settle hs hput htx h
  · refine ⟨htx', .inl ⟨⟨t, hlo, hhi, ?_⟩, ?_⟩⟩
    · rw [Answer.change_eq h404, ho, hdb, hdb₀]
      rfl
    · refine Answer.not_fails (fun _ => Option.some_ne_none _) (fun h => absurd h h404) ?_
      rw [hcalls, List.take_succ_cons]
      exact List.forall_mem_cons.mpr ⟨hc, hcalm⟩
  · refine ⟨htx', .inr ⟨hdb.trans hdb₀, .inr (.inr ⟨d, ?_, hfail⟩)⟩⟩
    rw [hcalls]
    exact List.mem_cons_of_mem _ hd

/-- There was nothing to do for the answer, and no call that could have failed. -/
theorem Answer.Done.idle {status : ℕ} {body : Option PspBody} {row : AttemptRow}
    (h404 : status ≠ 404) (hno : (Answer.response status body).outcome = none)
    (hbody : is_success status = true → body ≠ none) (hnow : w.now ≤ w'.now)
    (hdb : w'.db = w.db) :
    (Answer.response status body).Done row w w' ∧ ¬(Answer.response status body).Fails row cs := by
  refine ⟨.nothing hnow hdb (by rw [Answer.change_eq h404, hno]; rfl), ?_⟩
  refine Answer.not_fails hbody (fun h => absurd h h404) ?_
  rw [Answer.calls_eq h404, hno]
  intro c hc
  cases hc

/-- An answer with a body. -/
theorem play_outcome {row : AttemptRow} {status : ℕ} {psp : PspBody} {a : Except AppError Unit}
    (h404 : status ≠ 404) (hsucc : is_success status = true) (htx : w.tx p = none)
    (hrow : w.db.attempt row.id = some row)
    (h : (apply_outcome psp row.id row.invoice_id).run.play (World.exec p) cs w =
      some (w', a, rest)) :
    w'.tx p = none ∧
      ((Answer.response status (some psp)).Done row w w' ∧
        ¬(Answer.response status (some psp)).Fails row cs ∨
      w'.db = w.db ∧ (Answer.response status (some psp)).Fails row cs) := by
  have hclock := play_clock h
  have hout : (Answer.response status (some psp)).outcome = psp.outcome :=
    Answer.outcome_success hsucc
  obtain ⟨w₁, r₁, cs₁, hbegin, h⟩ := Prog.play_bindE h
  obtain ⟨hdb₁, c, rfl, ⟨hc, ⟨e, rfl⟩, htx₁⟩ | ⟨hc, rfl, htx₁⟩⟩ := play_begin hbegin
  · obtain ⟨rfl, rfl, rfl⟩ := Prog.rest_of_error h
    refine ⟨htx₁.trans htx, ?_⟩
    cases ho : psp.outcome with
    | some o =>
      refine .inr ⟨hdb₁, .inr (.inr ⟨c, ?_, hc⟩)⟩
      rw [Answer.calls_eq h404, hout, ho]
      exact List.mem_cons_self ..
    | none =>
      exact .inl (Answer.Done.idle h404 (hout.trans ho) (fun _ => Option.some_ne_none _) hclock hdb₁)
  replace h := Prog.rest_of_ok h
  have hrow₁ : w₁.db.attempt row.id = some row := hdb₁ ▸ hrow
  have hlo := play_clock hbegin
  have hhi := play_clock h
  split at h
  · rename_i hst
    have ho : psp.outcome = some (.succeeded psp.psp_ref) := if_pos hst
    exact play_recorded h404 (hout.trans ho) (Stmt.certain_succeeded _ _) (fun _ _ _ hrun =>
      Stmt.settled_ok (o := .succeeded psp.psp_ref) hrun row hrow₁) htx₁ hdb₁ hlo hhi hc h
  · rename_i hst
    split at h
    · rename_i hst'
      have ho : psp.outcome = some (.failed psp.code) := (if_neg hst).trans (if_pos hst')
      exact play_recorded h404 (hout.trans ho) (Stmt.certain_failed _ _) (fun _ _ _ hrun =>
        Stmt.settled_ok (o := .failed psp.code) hrun row hrow₁) htx₁ hdb₁ hlo hhi hc h
    · rename_i hst'
      have ho : psp.outcome = none := (if_neg hst).trans (if_neg hst')
      obtain ⟨d, u, rfl, hx, -⟩ := play_call h
      obtain ⟨htx', hdb', -⟩ := World.drop_ok hx
      exact ⟨htx', .inl (Answer.Done.idle h404 (hout.trans ho) (fun _ => Option.some_ne_none _)
        hclock (hdb'.trans hdb₁))⟩

/-- What a turn does with the answer: it commits what is due, or something has failed. -/
theorem play_answer {row : AttemptRow} {ans : Answer} {a : Except AppError Unit}
    (htx : w.tx p = none) (hrow : w.db.attempt row.id = some row)
    (h : (ans.handle row).run.play (World.exec p) cs w = some (w', a, rest)) :
    w'.tx p = none ∧
      (ans.Done row w w' ∧ ¬ans.Fails row cs ∨ w'.db = w.db ∧ ans.Fails row cs) := by
  have hclock := play_clock h
  cases ans with
  | timed_out | network_error =>
    cases h
    exact ⟨htx, .inr ⟨rfl, .inl trivial⟩⟩
  | response status body =>
    rw [Answer.handle] at h
    split at h
    · rename_i h404
      have hcalls : (Answer.response status body).calls = 1 := if_pos h404
      obtain ⟨htx', ⟨hdb, hmax, hcalm⟩ | ⟨hdb, hmax | hfail⟩⟩ := play_schedule htx hrow h
      · refine ⟨htx', .inl ⟨⟨w'.now, hclock, Int.le_refl _, ?_⟩, ?_⟩⟩
        · rw [hdb, Answer.change, if_pos h404]
        · refine Answer.not_fails (fun hsucc => ?_) (fun _ => hmax) (hcalls ▸ hcalm)
          rw [h404] at hsucc
          cases hsucc
      · exact ⟨htx', .inr ⟨hdb, .inr (.inl ⟨⟨body, by rw [h404]⟩, hmax⟩)⟩⟩
      · exact ⟨htx', .inr ⟨hdb, .inr (.inr (hcalls ▸ hfail))⟩⟩
    · rename_i h404
      split at h
      · rename_i hsucc
        cases body with
        | none =>
          cases h
          exact ⟨htx, .inr ⟨rfl, .inl ⟨hsucc, rfl⟩⟩⟩
        | some psp => exact play_outcome h404 hsucc htx hrow h
      · rename_i hsucc
        cases h
        exact ⟨htx, .inl (Answer.Done.idle h404 (if_neg hsucc) (fun h => absurd h hsucc) hclock rfl)⟩

/-- CORRECT (first loop): the turn of an attempt commits what is due for it, or its query or its
    update has failed and nothing is changed. -/
theorem AttemptTurn.reconcile {turn : AttemptTurn} (h : turn.Ran (World.exec p) reconcile_row)
    (htx : turn.before.tx p = none)
    (hrow : turn.before.db.attempt turn.item.id = some turn.item) :
    turn.after.tx p = none ∧
      (turn.Commits turn.reconciliation ∧ ¬turn.ReconcileFails ∨
        turn.after.db = turn.before.db ∧ turn.ReconcileFails) := by
  obtain ⟨row, cs, w, a, w', rest⟩ := turn
  replace h : (reconcile_row row).play (World.exec p) cs w = some (w', a, rest) := h
  rw [reconcile_eq] at h
  obtain ⟨w₁, r₁, cs₁, hget, h⟩ := Prog.play_bindE h
  obtain ⟨c, ans, rfl, hx, rfl⟩ := play_call hget
  have hle := World.exec_clock hx
  cases hx
  replace h := Prog.rest_of_ok h
  have htx₁ : (w.elapse c.elapsed).tx p = none := htx
  have hrow₁ : (w.elapse c.elapsed).db.attempt row.id = some row := hrow
  obtain ⟨htx', ⟨⟨t, hlo, hhi, hdb⟩, hcalm⟩ | ⟨hdb, hfails⟩⟩ := play_answer htx₁ hrow₁ h
  · refine ⟨htx', .inl ⟨⟨t, Int.le_trans hle hlo, hhi, hdb⟩, ?_⟩⟩
    rintro ⟨d, hd, hfails⟩
    cases hd
    exact hcalm hfails
  · exact ⟨htx', .inr ⟨hdb, c, rfl, hfails⟩⟩

/-! ### The other attempts -/

/-- A write to the row of an attempt or of its invoice. -/
def Write.Concerns (row : AttemptRow) : Write → Prop
  | .put_attempt x => x.id = row.id
  | .put_invoice r => r.id = row.invoice_id
  | _ => False

/-- From `db` to `db'` only the attempt and its invoice have changed. -/
structure Apart (row : AttemptRow) (db db' : Db) : Prop where
  attempt : ∀ a, a ≠ row.id → db'.attempt a = db.attempt a
  invoice : ∀ i, i ≠ row.invoice_id → db'.invoice i = db.invoice i

theorem Apart.refl (row : AttemptRow) (db : Db) : Apart row db db :=
  ⟨fun _ _ => rfl, fun _ _ => rfl⟩

theorem Apart.of_writes {row : AttemptRow} : ∀ {ws : List Write} {db : Db},
    (∀ wr ∈ ws, wr.Concerns row) → Apart row db (applyAll db ws)
  | [], db, _ => .refl row db
  | wr :: ws, db, h => by
    rw [List.forall_mem_cons] at h
    have hrest : Apart row (wr.apply db) (applyAll (wr.apply db) ws) := Apart.of_writes h.2
    obtain ⟨hattempt, hinvoice⟩ := hrest
    rw [applyAll_cons, Write.rowWrite_apply]
    have hwr := h.1
    cases wr with
    | put_attempt x =>
      refine ⟨fun a ha => (hattempt a ha).trans (Table.find_put_ne _ ?_), hinvoice⟩
      rw [key_attempt, show x.id = row.id from hwr]
      exact ha.symm
    | put_invoice r =>
      refine ⟨hattempt, fun i hi => (hinvoice i hi).trans (Table.find_put_ne _ ?_)⟩
      rw [key_invoice, show r.id = row.invoice_id from hwr]
      exact hi.symm
    | _ => exact hwr.elim

theorem AttemptChange.writes_concern {change : AttemptChange} {db : Db} {row : AttemptRow}
    {t : DateTime} : ∀ wr ∈ change.writes db row t, wr.Concerns row := by
  cases change with
  | nothing => simp [AttemptChange.writes]
  | poll_again => exact List.forall_mem_singleton.mpr rfl
  | settle o moves =>
    refine List.forall_mem_cons.mpr ⟨Outcome.record_id .., ?_⟩
    cases hr : db.invoice row.invoice_id with
    | none => simp
    | some r =>
      dsimp only
      split
      · exact List.forall_mem_singleton.mpr (Db.id_of_invoice hr : r.id = row.invoice_id)
      · simp

/-- A turn that commits a change, or nothing, leaves other rows alone. -/
theorem AttemptTurn.apart {turn : AttemptTurn}
    (h : (∃ change, turn.Commits change) ∨ turn.after.db = turn.before.db) :
    Apart turn.item turn.before.db turn.after.db := by
  obtain ⟨change, t, -, -, hdb⟩ | hdb := h
  · rw [hdb]
    exact .of_writes AttemptChange.writes_concern
  · rw [hdb]
    exact .refl ..

/-- A turn in the loop touches no row but those of its attempt. -/
def FairLoop (p : Pid) (body : AttemptRow → Prog payman (Except AppError Unit)) : Prop :=
  ∀ turn : AttemptTurn, turn.Ran (World.exec p) body → turn.before.tx p = none →
    turn.before.db.attempt turn.item.id = some turn.item →
    turn.after.tx p = none ∧ Apart turn.item turn.before.db turn.after.db

theorem fair_reconcile : FairLoop p reconcile_row := by
  intro turn hran htx hrow
  obtain ⟨htx', hcommits⟩ := AttemptTurn.reconcile hran htx hrow
  exact ⟨htx', AttemptTurn.apart (hcommits.imp (fun h => ⟨_, h.1⟩) And.left)⟩

theorem fair_expire : FairLoop p expire_row := by
  intro turn hran htx hrow
  obtain ⟨htx', ⟨-, hcommits, -⟩ | ⟨-, hdb, -⟩⟩ := AttemptTurn.expire hran htx hrow
  · exact ⟨htx', AttemptTurn.apart (.inl ⟨_, hcommits⟩)⟩
  · exact ⟨htx', AttemptTurn.apart (.inr hdb)⟩

/-- The process is in no transaction, and the turns to come are about different attempts, with the
    rows as they are. -/
structure Ahead (p : Pid) (turns : List AttemptTurn) (w : World) : Prop where
  idle : w.tx p = none
  rows : ∀ turn ∈ turns, w.db.attempt turn.item.id = some turn.item
  nodup : (turns.map fun turn => turn.item.id).Nodup

section
variable {body : AttemptRow → Prog payman (Except AppError Unit)} {turn : AttemptTurn}
  {pre post turns : List AttemptTurn} {cs' : List Choice}

theorem Ahead.next (hbody : FairLoop p body) (h : Ahead p (turn :: turns) turn.before)
    (hran : turn.Ran (World.exec p) body) : Ahead p turns turn.after := by
  obtain ⟨htx, hrows, hnodup⟩ := h
  rw [List.forall_mem_cons] at hrows
  rw [List.map_cons, List.nodup_cons] at hnodup
  obtain ⟨htx', hapart⟩ := hbody turn hran htx hrows.1
  refine ⟨htx', fun q hq => ?_, hnodup.2⟩
  have hne : q.item.id ≠ turn.item.id := fun hid => hnodup.1 (hid ▸ List.mem_map_of_mem hq)
  rw [hapart.attempt _ hne, hrows.2 q hq]

/-- Before one of the turns. -/
theorem FairLoop.split (hbody : FairLoop p body) : ∀ {pre : List AttemptTurn} {cs : List Choice}
    {w : World}, Rounds (World.exec p) body (pre ++ turn :: post) cs w cs' w' →
    Ahead p (pre ++ turn :: post) w → Ahead p pre w ∧ Ahead p (turn :: post) turn.before
  | [], _, _, ⟨_, hb, _⟩, hahead => ⟨⟨hahead.idle, by simp, List.nodup_nil⟩, hb ▸ hahead⟩
  | q :: pre, _, _, ⟨_, hb, hran, hrest⟩, hahead => by
    subst hb
    obtain ⟨-, hturn⟩ := hbody.split hrest (hahead.next hbody hran)
    refine ⟨⟨hahead.idle, fun q' hq' => ?_, ?_⟩, hturn⟩
    · exact hahead.rows q' (List.mem_append_left _ hq')
    · have hnodup := hahead.nodup
      rw [List.map_append] at hnodup
      exact hnodup.of_append_left

/-- CORRECT (a loop): what every turn keeps is kept. -/
theorem FairLoop.keeps {P : Db → Prop} (hbody : FairLoop p body) :
    ∀ {turns : List AttemptTurn} {cs : List Choice} {w : World},
    Rounds (World.exec p) body turns cs w cs' w' → Ahead p turns w →
    (∀ turn ∈ turns, turn.Ran (World.exec p) body → Ahead p [turn] turn.before →
      P turn.before.db → P turn.after.db) → P w.db → w'.tx p = none ∧ P w'.db
  | [], _, _, ⟨_, hw⟩, hahead, _, hP => by
    subst hw
    exact ⟨hahead.idle, hP⟩
  | turn :: turns, _, _, ⟨_, hb, hran, hrest⟩, hahead, hkeep, hP => by
    subst hb
    rw [List.forall_mem_cons] at hkeep
    have hone : Ahead p [turn] turn.before :=
      ⟨hahead.idle, fun q hq => hahead.rows q (List.mem_singleton.mp hq ▸ List.mem_cons_self ..),
        List.nodup_singleton _⟩
    exact hbody.keeps hrest (hahead.next hbody hran) hkeep.2 (hkeep.1 hran hone hP)

/-- CORRECT (frame): the turns of other attempts leave the row of an attempt alone. -/
theorem FairLoop.frame {a : Uuid} {cs : List Choice} (hbody : FairLoop p body)
    (h : Rounds (World.exec p) body turns cs w cs' w') (hahead : Ahead p turns w)
    (ha : ∀ turn ∈ turns, a ≠ turn.item.id) : w'.db.attempt a = w.db.attempt a := by
  have hkeep : ∀ turn ∈ turns, turn.Ran (World.exec p) body → Ahead p [turn] turn.before →
      turn.before.db.attempt a = w.db.attempt a → turn.after.db.attempt a = w.db.attempt a := by
    intro turn hturn hran hone hP
    obtain ⟨-, hapart⟩ := hbody turn hran hone.idle (hone.rows turn (List.mem_cons_self ..))
    rw [hapart.attempt a (ha turn hturn), hP]
  exact (hbody.keeps (P := fun db => db.attempt a = w.db.attempt a) h hahead hkeep rfl).2

/-- The row of an attempt stays as its turn leaves it. -/
theorem FairLoop.stays {cs : List Choice} (hbody : FairLoop p body)
    (h : Rounds (World.exec p) body (pre ++ turn :: post) cs w cs' w')
    (hahead : Ahead p (pre ++ turn :: post) w) :
    w'.db.attempt turn.item.id = turn.after.db.attempt turn.item.id := by
  obtain ⟨-, hran, hrest⟩ := h.split
  obtain ⟨-, hturn⟩ := hbody.split h hahead
  have hnodup := hturn.nodup
  rw [List.map_cons, List.nodup_cons] at hnodup
  refine hbody.frame hrest (hturn.next hbody hran) fun q hq hid => hnodup.1 ?_
  exact hid ▸ List.mem_map_of_mem hq

end

/-! ### What a change does to the attempt and to its invoice -/

namespace AttemptChange
variable {change : AttemptChange} {db : Db} {row : AttemptRow} {t : DateTime}

/-- The status of the attempt after it. -/
def status (s : PaymentStatus) : AttemptChange → PaymentStatus
  | nothing => s
  | poll_again => s
  | settle o _ => o.status

/-- The state it gives to the invoice. -/
def moved : AttemptChange → Option InvoiceState
  | nothing => none
  | poll_again => none
  | settle o moves => if moves then some o.state else none

theorem attempt_writes (change : AttemptChange) (t : DateTime) (h : db.attempt row.id = some row) :
    ∃ row', (applyAll db (change.writes db row t)).attempt row.id = some row' ∧
      row'.invoice_id = row.invoice_id ∧ row'.created_at = row.created_at ∧
      row'.status = change.status row.status := by
  have hput : ∀ row' : AttemptRow, row'.id = row.id →
      (db.payment_attempts.put row').find row.id = some row' := fun row' hid => by
    rw [Table.find_put, key_attempt, if_pos hid]
  cases change with
  | nothing => exact ⟨row, h, rfl, rfl, rfl⟩
  | poll_again => exact ⟨_, hput _ rfl, rfl, rfl, rfl⟩
  | settle o moves =>
    refine ⟨o.record t row, ?_, o.record_invoice_id .., o.record_created_at .., o.record_status ..⟩
    have hrow := hput (o.record t row) (o.record_id ..)
    rw [writes]
    cases db.invoice row.invoice_id with
    | none => exact hrow
    | some r => cases moves <;> exact hrow

theorem state_writes : (applyAll db (change.writes db row t)).ledger.state row.invoice_id =
    (db.ledger.state row.invoice_id).map fun s => change.moved.getD s := by
  have hsame : ∀ o : Option InvoiceState, o = o.map fun s => (none : Option InvoiceState).getD s :=
    fun o => by cases o <;> rfl
  cases change with
  | nothing => exact hsame _
  | poll_again => exact hsame _
  | settle o moves =>
    unfold writes
    cases hr : db.invoice row.invoice_id with
    | none =>
      have hnone : db.ledger.state row.invoice_id = none := Db.ledger_state_none hr
      rw [hnone]
      exact hnone
    | some r =>
      have hsome := Db.ledger_state hr
      rw [hsome]
      cases moves with
      | false => exact hsome
      | true =>
        refine Db.ledger_state (r := { r with state := o.state, updated_at := t }) ?_
        refine (Table.find_put ..).trans (if_pos ?_)
        exact (Db.id_of_invoice hr : r.id = row.invoice_id)

end AttemptChange

/-! ### Attempts that share an invoice -/

namespace AttemptTurn
variable {turn turn' : AttemptTurn}

/-- With an outcome the attempt is settled. -/
theorem reconciliation_of_outcome {ans : Answer} {o : Outcome} (hans : turn.answer = some ans)
    (ho : ans.outcome = some o) :
    turn.reconciliation = .settle o (turn.before.db.processing turn.item.invoice_id) := by
  rw [reconciliation, hans, Option.elim_some]
  cases ans with
  | timed_out | network_error => cases ho
  | response status body =>
    have h404 : status ≠ 404 := by
      rintro rfl
      cases ho
    rw [Answer.change_eq h404, ho]
    rfl

/-- Without an outcome it is not settled. -/
theorem reconciliation_of_none (h : ∀ ans ∈ turn.answer, ans.outcome = none) :
    turn.reconciliation = .nothing ∨ turn.reconciliation = .poll_again := by
  unfold reconciliation
  cases hans : turn.answer with
  | none => exact .inl rfl
  | some ans =>
    rw [Option.elim_some]
    cases ans with
    | timed_out | network_error => exact .inl rfl
    | response status body =>
      by_cases h404 : status = 404
      · exact .inr (if_pos h404)
      · rw [Answer.change_eq h404, h _ hans]
        exact .inl rfl

/-- The two cases. -/
theorem outcome_cases (turn : AttemptTurn) :
    (∃ ans o, turn.answer = some ans ∧ ans.outcome = some o) ∨
      ∀ ans ∈ turn.answer, ans.outcome = none := by
  cases hans : turn.answer with
  | none => exact .inr fun _ h => by cases h
  | some ans =>
    cases ho : ans.outcome with
    | some o => exact .inl ⟨ans, o, rfl, ho⟩
    | none => exact .inr fun _ h => by cases h; exact ho

theorem settles_iff (hcalm : ¬turn.ReconcileFails) :
    turn.Settles ↔ ∃ ans o, turn.answer = some ans ∧ ans.outcome = some o := by
  constructor
  · rintro ⟨-, ans, hans, ho⟩
    obtain ⟨o, ho⟩ := Option.isSome_iff_exists.mp ho
    exact ⟨ans, o, hans, ho⟩
  · rintro ⟨ans, o, hans, ho⟩
    exact ⟨hcalm, ans, hans, by rw [ho]; rfl⟩

/-- CORRECT (one turn): an invoice is still being processed unless its attempt is settled. -/
theorem processing_iff (hran : turn.Ran (World.exec p) reconcile_row) (htx : turn.before.tx p = none)
    (hrow : turn.before.db.attempt turn.item.id = some turn.item) (i : Uuid) :
    turn.after.db.processing i = true ↔
      turn.before.db.processing i = true ∧ (turn.item.invoice_id = i → ¬turn.Settles) := by
  rw [Db.processing_iff_ledger, Db.processing_iff_ledger]
  obtain ⟨-, hapart⟩ := fair_reconcile turn hran htx hrow
  by_cases hi : turn.item.invoice_id = i
  swap
  · have hsame : turn.after.db.ledger.state i = turn.before.db.ledger.state i :=
      congrArg (Option.map _) (hapart.invoice i fun h => hi h.symm)
    rw [hsame]
    exact ⟨fun h => ⟨h, fun h' => absurd h' hi⟩, And.left⟩
  subst hi
  obtain ⟨-, ⟨⟨t, -, -, hdb⟩, hcalm⟩ | ⟨hdb, hfails⟩⟩ := AttemptTurn.reconcile hran htx hrow
  swap
  · rw [hdb]
    exact ⟨fun h => ⟨h, fun _ hsettles => hsettles.1 hfails⟩, And.left⟩
  rw [hdb, AttemptChange.state_writes]
  obtain hout | hno := turn.outcome_cases
  · -- the outcome is a state other than Processing
    have hsettles := (settles_iff hcalm).mpr hout
    obtain ⟨ans, o, hans, ho⟩ := hout
    rw [reconciliation_of_outcome hans ho]
    refine ⟨fun h => ?_, fun h => (h.2 rfl hsettles).elim⟩
    obtain ⟨s, hs, hmoved⟩ := Option.map_eq_some_iff.mp h
    cases hproc : turn.before.db.processing turn.item.invoice_id with
    | true =>
      rw [hproc] at hmoved
      cases o <;> cases hmoved
    | false =>
      rw [hproc] at hmoved
      rw [show s = .Processing from hmoved] at hs
      cases hproc.symm.trans (Db.processing_iff_ledger.mpr hs)
  · have hsettles : ¬turn.Settles := by
      rw [settles_iff hcalm]
      rintro ⟨ans, o, hans, ho⟩
      cases (hno ans hans).symm.trans ho
    have hmoved : turn.reconciliation.moved = none := by
      obtain h | h := reconciliation_of_none hno <;> rw [h] <;> rfl
    rw [hmoved]
    cases hs : turn.before.db.ledger.state turn.item.invoice_id with
    | none => simp
    | some s => exact ⟨fun h => ⟨h, fun _ => hsettles⟩, And.left⟩

end AttemptTurn

/-- CORRECT (the first loop): an invoice is still being processed unless an attempt of it has been
    settled. -/
theorem Ahead.processing_iff {i : Uuid} {cs' : List Choice} : ∀ {turns : List AttemptTurn}
    {cs : List Choice} {w : World}, Rounds (World.exec p) reconcile_row turns cs w cs' w' →
    Ahead p turns w → (w'.db.processing i = true ↔ w.db.processing i = true ∧
      ∀ q ∈ turns, q.item.invoice_id = i → ¬q.Settles)
  | [], _, _, ⟨_, hw⟩, _ => by
    subst hw
    simp
  | turn :: turns, _, _, ⟨_, hb, hran, hrest⟩, hahead => by
    subst hb
    have hone := AttemptTurn.processing_iff hran hahead.idle (hahead.rows _ (List.mem_cons_self ..)) i
    rw [Ahead.processing_iff hrest (hahead.next fair_reconcile hran), hone, List.forall_mem_cons,
      and_assoc]

/-- A turn leaves the state of an invoice as it is if its change does. -/
theorem AttemptTurn.keeps_state {turn : AttemptTurn} {i : Uuid} {x : Option InvoiceState}
    (h : (∃ change, turn.Commits change ∧
      (turn.item.invoice_id = i → (x.map fun s => change.moved.getD s) = x)) ∨
        turn.after.db = turn.before.db) (hx : turn.before.db.ledger.state i = x) :
    turn.after.db.ledger.state i = x := by
  obtain ⟨change, hcommits, hkeep⟩ | hdb := h
  swap
  · rw [hdb, hx]
  by_cases hi : turn.item.invoice_id = i
  · obtain ⟨t, -, -, hdb⟩ := hcommits
    subst hi
    rw [hdb, AttemptChange.state_writes, hx, hkeep rfl]
  · have hapart := AttemptTurn.apart (.inl ⟨_, hcommits⟩)
    rw [← hx]
    exact congrArg (Option.map _) (hapart.invoice i fun h => hi h.symm)

/-- CORRECT (the second loop): an open invoice stays open. -/
theorem Ahead.expire_keeps {i : Uuid} {x : Option InvoiceState} {turns : List AttemptTurn}
    {cs' : List Choice} (h : Rounds (World.exec p) expire_row turns cs w cs' w')
    (hahead : Ahead p turns w) (hopen : ∀ s ∈ x, s = .Open) (hx : w.db.ledger.state i = x) :
    w'.db.ledger.state i = x := by
  refine (fair_expire.keeps (P := fun db => db.ledger.state i = x) h hahead ?_ hx).2
  intro turn _ hran hone hbefore
  obtain ⟨-, hturn⟩ := AttemptTurn.expire hran hone.idle (hone.rows _ (List.mem_cons_self ..))
  refine AttemptTurn.keeps_state (hturn.imp (fun h => ⟨_, h.2.1, fun _ => ?_⟩) (·.2.1)) hbefore
  cases x with
  | none => rfl
  | some s => exact congrArg some (hopen s rfl).symm

end Payman
