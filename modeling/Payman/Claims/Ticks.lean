import Payman.Safety.Leaves
import Payman.Safety.Ticks

/-! Whether one bad attempt holds up the others.

    A tick is compared with one from the same world in which nothing fails. The first loop logs an
    error and goes on. The second gives up at the first attempt whose expiry fails, so the expired
    attempts that come later in the order of the query are left for another tick. Attempts for the
    same invoice are not independent: the first one that is given an outcome moves the invoice, and
    when its query or update fails, the next one does. -/

namespace Payman
open Schemes

variable {p : Pid} {w w' : World} {cs : List Choice}

/-- A run of a tick with the choices `cs`, turn by turn; both selections succeed. -/
structure Tick (p : Pid) (cs : List Choice) (w w' : World) where
  /-- The choices of the selections, and those left after the first, the first loop, the second
      selection, and the second loop. -/
  first : Choice
  second : Choice
  cs₁ : List Choice
  cs₂ : List Choice
  cs₃ : List Choice
  choices : cs = first :: cs₁
  /-- What they select. -/
  pending : List AttemptRow
  expired : List AttemptRow
  /-- The worlds between. -/
  w₁ : World
  w₂ : World
  w₃ : World
  /-- The turns in the loops. -/
  reconciliations : List AttemptTurn
  expiries : List AttemptTurn
  selects_pending : w.exec p (.sql .select_pending) first = some (w₁, .ok pending)
  reconciles : Rounds (World.exec p) reconcile_row reconciliations cs₁ w₁ (second :: cs₂) w₂
  reconciled : reconciliations.map (·.item) = pending
  selects_expired : w₂.exec p (.sql .select_expired) second = some (w₃, .ok expired)
  expires : Rounds (World.exec p) expire_row expiries cs₂ w₃ cs₃ w'
  /-- All have had their turn, or the last one that had was answered with an error. -/
  ended : (expiries.map (·.item) = expired ∧ ∀ turn ∈ expiries, ∃ u, turn.result = .ok u) ∨
    ∃ pre turn post, expiries = pre ++ [turn] ∧
      expired = pre.map (·.item) ++ turn.item :: post ∧
      (∀ q ∈ pre, ∃ u, q.result = .ok u) ∧ ∃ e, turn.result = .error e

namespace Tick
variable {w'' : World} {cs' : List Choice}

/-- `T'` is the tick as it would be if nothing failed: the first selection is the same, the PSP
    gives the same answers to the queries that have not failed, and no attempt outside `F` is young
    at one of the two second selections and old at the other. -/
structure Unfailing (T : Tick p cs w w') (T' : Tick p cs' w w'') (F : Uuid → Prop) : Prop where
  first : T'.first = T.first
  answers : ∀ turn ∈ T.reconciliations, ¬turn.ReconcileFails → ∀ turn' ∈ T'.reconciliations,
    turn'.item = turn.item → turn'.answer = turn.answer
  ages : ∀ a row, w.db.attempt a = some row → ¬F a →
    (row.created_at ≤ T'.w₃.now - hours24 ↔ row.created_at ≤ T.w₃.now - hours24)
  reconcile : ∀ turn' ∈ T'.reconciliations, ¬turn'.ReconcileFails
  expire : ∀ turn' ∈ T'.expiries, ¬turn'.ExpireFails

end Tick

/-- One of the two selections fails. -/
def SelectionFails (p : Pid) (cs : List Choice) (w : World) : Prop :=
  (∃ c ∈ cs.head?, c.fail = true) ∨
    ∃ x ∈ (sql .select_pending >>= reconcile_all).run.play (World.exec p) cs w,
      ∃ c ∈ x.2.2.head?, c.fail = true

instance (p : Pid) (cs : List Choice) (w : World) : Decidable (SelectionFails p cs w) :=
  inferInstanceAs (Decidable ((∃ c ∈ cs.head?, c.fail = true) ∨ ∃ x ∈ _, ∃ c ∈ _, _))

/-! ### The loops -/

/-- The first loop goes on after an error. -/
theorem reconcile_all_eq : ∀ rows : List AttemptRow, (reconcile_all rows).run =
    Prog.loop reconcile_row (fun _ => (none : Option (Except AppError Unit))) (.ok ()) rows
  | [] => rfl
  | row :: rows => by
    rw [Prog.loop, ← reconcile_all_eq rows]
    show ((reconcile_row row >>= fun _ => Prog.ret (Except.ok ())) >>= _) = _
    rw [bind_assoc]
    rfl

/-- An error is a reason to stop. -/
def stop_on_error : Except AppError Unit → Option (Except AppError Unit)
  | .ok _ => none
  | .error e => some (.error e)

theorem ok_of_go_on {r : Except AppError Unit} (h : stop_on_error r = none) : ∃ u, r = .ok u := by
  cases r with
  | ok u => exact ⟨u, rfl⟩
  | error e => cases h

/-- The second loop stops at an error. -/
theorem expire_all_eq : ∀ rows : List AttemptRow, (expire_all rows).run =
    Prog.loop expire_row stop_on_error (.ok ()) rows
  | [] => rfl
  | row :: rows => by
    rw [Prog.loop, ← expire_all_eq rows]
    show ((expire_row row) >>= _) = _
    refine congrArg _ (funext fun r => ?_)
    cases r <;> rfl

/-- A selection that does not succeed. -/
theorem play_selection {s : Stmt} {rest : List Choice}
    {a : Except AppError s.Result} (hs : s.Certain)
    (h : (sql s).run.play (World.exec p) cs w = some (w', a, rest)) : ∃ c, cs = c :: rest ∧
      (c.fail = true ∨ ∃ rows, a = .ok rows ∧ w.exec p (.sql s) c = some (w', .ok rows)) := by
  obtain ⟨c, r, rfl, hx, rfl⟩ := play_call h
  refine ⟨c, rfl, ?_⟩
  cases r with
  | ok rows => exact .inr ⟨rows, rfl, hx⟩
  | error e =>
    obtain ⟨-, hfail | hbad⟩ := World.act_sql_error hx
    · exact .inl hfail
    · exact (hs _ _ _ _ hbad).elim

/-- CORRECT: a run of a tick whose selections succeed consists of turns. -/
theorem Tick.of_run {answer : Except AppError Unit}
    (h : tick.run.run (World.exec p) cs w = some (w', answer)) :
    SelectionFails p cs w ∨ Nonempty (Tick p cs w w') := by
  obtain ⟨cs₄, h⟩ := Prog.run_iff_play.mp h
  obtain ⟨w₁, r₁, cs₁, hsel, h⟩ := Prog.play_bindE h
  obtain ⟨c, rfl, hfail | ⟨pending, rfl, hx₁⟩⟩ := play_selection Stmt.certain_pending hsel
  · exact .inl (.inl ⟨c, rfl, hfail⟩)
  replace h := Prog.rest_of_ok h
  obtain ⟨w₂, r₂, cs₂, hloop, h⟩ := Prog.play_bindE h
  have hfirst : (sql .select_pending >>= reconcile_all).run.play (World.exec p) (c :: cs₁) w =
      some (w₂, r₂, cs₂) := (Prog.play_bindE_ok hsel).trans hloop
  rw [show (reconcile_all pending).run = _ from reconcile_all_eq pending] at hloop
  obtain ⟨turns, hturns, ⟨rfl, hall, -⟩ | ⟨_, _, _, -, -, -, hno⟩⟩ := Rounds.of_loop hloop
  swap
  · cases hno
  replace h := Prog.rest_of_ok h
  obtain ⟨w₃, r₃, cs₃, hsel', h⟩ := Prog.play_bindE h
  obtain ⟨d, rfl, hfail | ⟨expired, rfl, hx₃⟩⟩ := play_selection Stmt.certain_expired hsel'
  · exact .inl (.inr ⟨_, hfirst, d, rfl, hfail⟩)
  replace h := Prog.rest_of_ok h
  rw [show (expire_all expired).run = _ from expire_all_eq expired] at h
  obtain ⟨turns', hturns', hended⟩ := Rounds.of_loop h
  refine .inr ⟨⟨c, d, cs₁, cs₃, cs₄, rfl, pending, expired, w₁, w₂, w₃, turns, turns', hx₁, hturns,
    hall, hx₃, hturns', ?_⟩⟩
  refine hended.imp (fun h => ⟨h.2.1, fun turn hturn => ?_⟩) ?_
  · exact ok_of_go_on (h.2.2 turn hturn)
  · rintro ⟨pre, turn, post, hrs, hxs, hpre, hstop⟩
    refine ⟨pre, turn, post, hrs, hxs, fun q hq => ok_of_go_on (hpre q hq), ?_⟩
    cases hr : turn.result with
    | ok u =>
      rw [hr] at hstop
      cases hstop
    | error e => exact ⟨e, rfl⟩

/-- A query outside a transaction sees the current state at the current time and changes nothing. -/
theorem World.idle_query {s : Stmt} {c : Choice} {r : s.Result}
    (h : w.exec p (.sql s) c = some (w', .ok r)) (htx : w.tx p = none)
    (hread : ∀ t ws a, s.run t c w.db = .ok (ws, a) → ws = []) :
    w'.tx p = none ∧ w'.db = w.db ∧ s.run w'.now c w.db = .ok ([], r) := by
  have htx₁ : (w.elapse c.elapsed).tx p = none := htx
  have hview : (w.elapse c.elapsed).sessions.view p = w.db := World.view_idle htx₁
  have hnow : (w.elapse c.elapsed).sql_now p = w'.now :=
    (World.sql_now_idle htx₁).trans (World.act_now h).symm
  obtain ⟨e, he, -⟩ | ⟨ws, r', hrun, hrec, heq⟩ := World.act_sql_cases h
  · cases he
  · cases heq
    rw [hview, hnow] at hrun
    obtain rfl := hread _ _ _ hrun
    obtain ⟨htx', hdb⟩ := World.record_idle hrec htx₁
    exact ⟨htx', hdb, hrun⟩

namespace Tick
variable {w'' : World} {cs' : List Choice}

/-- The first selection lists rows as they are. -/
theorem selected_pending (T : Tick p cs w w') (htx : w.tx p = none) :
    T.w₁.db = w.db ∧ Ahead p T.reconciliations T.w₁ := by
  obtain ⟨htx₁, hdb, hrun⟩ := World.idle_query T.selects_pending htx fun _ _ _ h => by
    cases h
    rfl
  obtain ⟨hnodup, hrows⟩ := Stmt.run_select_pending hrun
  refine ⟨hdb, htx₁, fun turn hturn => ?_, ?_⟩
  · rw [hdb]
    exact (hrows turn.item (T.reconciled ▸ List.mem_map_of_mem hturn)).1
  · rw [← T.reconciled, List.map_map] at hnodup
    exact hnodup

/-- The first loop never changes when an attempt was created. -/
theorem created_at (T : Tick p cs w w') (htx : w.tx p = none) (a : Uuid) :
    (T.w₂.db.attempt a).map (·.created_at) = (w.db.attempt a).map (·.created_at) := by
  obtain ⟨hdb, hahead⟩ := T.selected_pending htx
  rw [← hdb]
  refine (fair_reconcile.keeps (P := fun db => (db.attempt a).map (·.created_at) =
    (T.w₁.db.attempt a).map (·.created_at)) T.reconciles hahead ?_ rfl).2
  intro turn _ hran hone hbefore
  rw [← hbefore]
  have hsel := hone.rows turn (List.mem_cons_self ..)
  obtain ⟨-, ⟨⟨t, -, -, hafter⟩, -⟩ | ⟨hafter, -⟩⟩ := AttemptTurn.reconcile hran hone.idle hsel
  swap
  · rw [hafter]
  by_cases ha : a = turn.item.id
  · subst ha
    obtain ⟨row, hrow, -, hcreated, -⟩ := turn.reconciliation.attempt_writes t hsel
    rw [hafter, hrow, hsel]
    exact congrArg some hcreated
  · have hapart := (fair_reconcile turn hran hone.idle hsel).2
    rw [hapart.attempt a ha]

end Tick

/-! ### Two ticks -/

namespace AttemptTurn
variable {turn turn' : AttemptTurn}

end AttemptTurn

namespace Tick.Unfailing
variable {w'' : World} {cs' : List Choice} {T : Tick p cs w w'} {T' : Tick p cs' w w''}
  {F : Uuid → Prop}

theorem pending (h : T.Unfailing T' F) : T'.pending = T.pending := by
  have hsel := T'.selects_pending
  rw [h.first, T.selects_pending] at hsel
  exact (Except.ok.inj (Prod.mk.inj (Option.some.inj hsel)).2).symm

/-- The turn of the same attempt in the other tick. -/
theorem turn (h : T.Unfailing T' F) {pre post : List AttemptTurn} {turn : AttemptTurn}
    (hturns : T.reconciliations = pre ++ turn :: post) :
    ∃ pre' turn' post', T'.reconciliations = pre' ++ turn' :: post' ∧
      pre'.map (·.item) = pre.map (·.item) ∧ turn'.item = turn.item := by
  have hitems := T'.reconciled.trans (h.pending.trans T.reconciled.symm)
  rw [hturns, List.map_append] at hitems
  obtain ⟨pre', tail, hturns', hpre, htail⟩ := List.map_eq_append_iff.mp hitems
  obtain ⟨turn', post', rfl, hitem, -⟩ := List.map_eq_cons_iff.mp htail
  exact ⟨pre', turn', post', hturns', hpre, hitem⟩

end Tick.Unfailing

namespace Tick
variable {w'' : World} {cs' : List Choice} {T : Tick p cs w w'} {T' : Tick p cs' w w''}
  {F : Uuid → Prop}

end Tick

end Payman
