import Payman.Schemes.Watch
import Payman.Safety.Turns

/-! Watches in the running system.

    `Lasts` is what no commit ever takes back; `Passed` is what the step of another process leaves to
    a process. A monitor watches every process that runs one of its jobs; the run lemma asks for its
    assertions when such a job starts, after each of its own operations, and across `Passed`. -/

namespace Payman
open Schemes

/-- What no commit takes back: nothing of `Grows`, no customer, no text of a delivery, no address of
    an endpoint, and no outcome of an attempt. -/
structure Lasts (db db' : Db) : Prop extends Grows db db' where
  customer : ∀ c r, db.customers.find c = some r → db'.customers.find c = some r
  letter : ∀ d row, db.delivery d = some row → ∃ row', db'.delivery d = some row' ∧
    row'.webhook_endpoint_id = row.webhook_endpoint_id ∧ row'.event_type = row.event_type ∧
    row'.payload = row.payload
  address : ∀ e r, db.endpoint e = some r → ∃ r', db'.endpoint e = some r' ∧
    r'.business_id = r.business_id ∧ r'.url = r.url ∧ r'.secret = r.secret
  final : ∀ a row, db.attempt a = some row → row.status ≠ .Pending →
    ∃ row', db'.attempt a = some row' ∧ row'.status ≠ .Pending

namespace Lasts
variable {db db' db'' : Db}

theorem refl (db : Db) : Lasts db db where
  toGrows := .refl db
  customer := fun _ _ h => h
  letter := fun _ row h => ⟨row, h, rfl, rfl, rfl⟩
  address := fun _ r h => ⟨r, h, rfl, rfl, rfl⟩
  final := fun _ row h hs => ⟨row, h, hs⟩

theorem trans (h : Lasts db db') (h' : Lasts db' db'') : Lasts db db'' where
  toGrows := h.toGrows.trans h'.toGrows
  customer := fun c r hr => h'.customer c r (h.customer c r hr)
  letter := fun d row hrow => by
    obtain ⟨row', hrow', he, ht, hp⟩ := h.letter d row hrow
    obtain ⟨row'', hrow'', he', ht', hp'⟩ := h'.letter d row' hrow'
    exact ⟨row'', hrow'', he'.trans he, ht'.trans ht, hp'.trans hp⟩
  address := fun e r hr => by
    obtain ⟨r', hr', hb, hu, hs⟩ := h.address e r hr
    obtain ⟨r'', hr'', hb', hu', hs'⟩ := h'.address e r' hr'
    exact ⟨r'', hr'', hb'.trans hb, hu'.trans hu, hs'.trans hs⟩
  final := fun a row hrow hs => by
    obtain ⟨row', hrow', hs'⟩ := h.final a row hrow hs
    exact h'.final a row' hrow' hs'

end Lasts

section
variable {K : Setting} {T : Pid} {past : List Commit} {db db' : Db} {j : Job} {ws : List Write}

/-- The three tables that a payment and an edit leave alone. -/
theorem Effect.tables (h : Effect K T past db j ws) :
    ((applyAll db ws).customers = db.customers ∨ ∃ r, db.customers.find r.id = none ∧
      (applyAll db ws).customers = db.customers.put r) ∧
    ((applyAll db ws).webhook_deliveries = db.webhook_deliveries ∨
      (∃ row, db.delivery row.id = none ∧
        (applyAll db ws).webhook_deliveries = db.webhook_deliveries.put row) ∨
      ∃ row s n at_ t, db.delivery row.id = some row ∧
        (applyAll db ws).webhook_deliveries = db.webhook_deliveries.put
          { row with status := s, attempt_count := n, next_retry_at := at_, updated_at := t }) ∧
    ((applyAll db ws).webhook_endpoints = db.webhook_endpoints ∨
      (∃ r, db.endpoint r.id = none ∧
        (applyAll db ws).webhook_endpoints = db.webhook_endpoints.put r) ∨
      ∃ r, db.endpoint r.id = some r ∧
        (applyAll db ws).webhook_endpoints = db.webhook_endpoints.put { r with active := false }) := by
  cases h with
  | create =>
    rw [applyAll_cons, Db.applyAll_put_line_items]
    exact ⟨.inl rfl, .inl rfl, .inl rfl⟩
  | @edit_items b i req r r' pre items gone lines t _ _ _ hpre =>
    rw [applyAll_edit (hpre.imp_right And.left)]
    rcases hpre with ⟨rfl, -⟩ | ⟨rfl, -⟩ <;> exact ⟨.inl rfl, .inl rfl, .inl rfl⟩
  | customer hfresh => exact ⟨.inr ⟨_, hfresh, rfl⟩, .inl rfl, .inl rfl⟩
  | endpoint hfresh => exact ⟨.inl rfl, .inl rfl, .inr (.inl ⟨_, hfresh, rfl⟩)⟩
  | deactivate hr =>
    refine ⟨.inl rfl, .inl rfl, .inr (.inr ⟨_, ?_, rfl⟩)⟩
    rw [Db.id_of_endpoint hr]
    exact hr
  | delivery hfresh => exact ⟨.inl rfl, .inr (.inl ⟨_, hfresh, rfl⟩), .inl rfl⟩
  | report hrow =>
    refine ⟨.inl rfl, .inr (.inr ⟨_, _, _, _, _, ?_, rfl⟩), .inl rfl⟩
    rw [Db.id_of_delivery hrow]
    exact hrow
  | _ => exact ⟨.inl rfl, .inl rfl, .inl rfl⟩

/-- A settled attempt stays settled. -/
theorem Ledger.Turn.final {I A : Type} [DecidableEq I] [DecidableEq A] {g g' : Ledger I A}
    (h : Ledger.Turn g g') {a : A} {i : I} {st : PaymentStatus} (ha : g.attempt a = some (i, st))
    (hst : st ≠ .Pending) : ∃ st', g'.attempt a = some (i, st') ∧ st' ≠ .Pending := by
  have hmark : ∀ {g' : Ledger I A} {b : A} {k : I} {st' : PaymentStatus}, g'.attempt a = some (i, st) →
      (∀ x, g.attempt b = some x → x.1 = k) → (b = a → st' ≠ .Pending) →
      ∃ st'', (g'.mark b k st').attempt a = some (i, st'') ∧ st'' ≠ .Pending :=
    fun {g' b k st'} hg' hk hst' => by
      rw [Ledger.mark_attempt]
      split
      · rename_i hab
        subst hab
        exact ⟨st', by rw [← hk _ ha], hst' rfl⟩
      · exact ⟨st, hg', hst⟩
  cases h with
  | stay | issue | finalize | void => exact ⟨st, ha, hst⟩
  | start k b hs hb =>
    refine hmark ha (fun x hx => ?_) fun hba => ?_
    · cases hb.symm.trans hx
    · subst hba
      cases hb.symm.trans ha
  | settle k b st' v hb =>
    refine hmark ha (fun x hx => ?_) fun _ => by cases v <;> nofun
    rw [Option.some.inj (hx.symm.trans hb)]
  | settle_only k b st' v hb =>
    refine hmark ha (fun x hx => ?_) fun _ => by cases v <;> nofun
    rw [Option.some.inj (hx.symm.trans hb)]

/-- CORRECT: no commit takes back what lasts. -/
theorem Effect.lasts (h : Effect K T past db j ws) : Lasts db (applyAll db ws) := by
  obtain ⟨hcustomers, hdeliveries, hendpoints⟩ := h.tables
  refine ⟨h.grows, fun c r hr => ?_, fun d row hrow => ?_, fun e r hr => ?_,
    fun a row hrow hs => ?_⟩
  · rcases hcustomers with heq | ⟨r', hnone, heq⟩
    · exact heq ▸ hr
    · rw [heq]
      refine (Table.find_put_ne _ fun hid => ?_).trans hr
      cases hnone.symm.trans (hid ▸ hr)
  · rcases hdeliveries with heq | ⟨row', hnone, heq⟩ | ⟨row', s, n, at_, t, hrow', heq⟩
    · exact ⟨row, by rw [Db.delivery, heq]; exact hrow, rfl, rfl, rfl⟩
    · refine ⟨row, ?_, rfl, rfl, rfl⟩
      rw [Db.delivery, heq]
      refine (Table.find_put_ne _ fun hid => ?_).trans hrow
      cases hnone.symm.trans (hid ▸ hrow)
    · rw [Db.delivery, heq]
      by_cases hid : row'.id = d
      · obtain rfl : row' = row := Option.some.inj (hrow'.symm.trans (hid ▸ hrow))
        exact ⟨_, (Table.find_put ..).trans (if_pos hid), rfl, rfl, rfl⟩
      · exact ⟨row, (Table.find_put_ne _ hid).trans hrow, rfl, rfl, rfl⟩
  · rcases hendpoints with heq | ⟨r', hnone, heq⟩ | ⟨r', hr', heq⟩
    · exact ⟨r, by rw [Db.endpoint, heq]; exact hr, rfl, rfl, rfl⟩
    · refine ⟨r, ?_, rfl, rfl, rfl⟩
      rw [Db.endpoint, heq]
      refine (Table.find_put_ne _ fun hid => ?_).trans hr
      cases hnone.symm.trans (hid ▸ hr)
    · rw [Db.endpoint, heq]
      by_cases hid : r'.id = e
      · obtain rfl : r' = r := Option.some.inj (hr'.symm.trans (hid ▸ hr))
        exact ⟨_, (Table.find_put ..).trans (if_pos hid), rfl, rfl, rfl⟩
      · exact ⟨r, (Table.find_put_ne _ hid).trans hr, rfl, rfl, rfl⟩
  · obtain ⟨st', hst', hne⟩ := h.turn.final (Db.ledger_attempt hrow) hs
    obtain ⟨row', hrow', heq⟩ := Option.map_eq_some_iff.mp hst'
    exact ⟨row', hrow', (Prod.mk.inj heq).2 ▸ hne⟩

end

/-! ### What a process sees of the others -/

/-- What the step of another process leaves to `q`. -/
structure Passed (q : Pid) (w w' : World) : Prop where
  clock : w.now ≤ w'.now
  frame : Sessions.Frame q w.sessions w'.sessions
  lasts : Lasts w.db w'.db
  history : ∀ c ∈ w.history, c ∈ w'.history
  spawned : ∀ t ∈ w.spawned, t ∈ w'.spawned

/-- Its transaction is as it was. -/
theorem Passed.tx {q : Pid} {w w' : World} (h : Passed q w w') : w'.tx q = w.tx q := h.frame.tx

theorem Guar.lasts {K : Setting} {T : Pid} {j : Job} {w w' : World} (h : Guar K T j w w') :
    Lasts w.db w'.db := by
  cases h with
  | quiet hdb _ _ => exact hdb ▸ .refl _
  | send _ _ hdb _ _ _ => exact hdb ▸ .refl _
  | commit ws hdb _ _ he => exact hdb ▸ he.lasts

variable {K : Setting} {σ σ' : Sys} {l : Sys.Label} {X : Type}

/-- An operation of `p` passes by `q`. -/
theorem Inv.passed (h : Inv K σ) {p q : Pid} {c : Choice} (hk : Honours K σ (.exec p c)) {j : Job}
    {e : Eff} {k : e.Reply → Prog payman (Except AppError Response)} {w : World} {r : e.Reply}
    (hp : σ.procs p = some ⟨j, some (.op e k)⟩) (hx : σ.world.exec p e c = some (w, r))
    (hne : q ≠ p) : Passed q σ.world w := by
  obtain ⟨⟨hg, hem⟩, -, -⟩ := h.exec_keeps hk hp hx
  refine ⟨World.exec_clock hx, World.exec_frame hx hne, hg.lasts, hg.history, fun t ht => ?_⟩
  rcases hem.spawned with heq | ⟨t', heq, -⟩
  · exact heq ▸ ht
  · exact heq ▸ List.mem_cons_of_mem _ ht

/-- A killed process passes by the others. -/
theorem Passed.kill {p q : Pid} (hne : q ≠ p) (w : World) :
    Passed q w { w with sessions := w.sessions.rollback p } :=
  ⟨Int.le_refl _, Sessions.frame_rollback hne, .refl _, fun _ h => h, fun _ h => h⟩

/-- A step that starts a process, which was at rest, and what that process is started for. -/
theorem Sys.start_of_step (h : σ.step l = some σ') (hl : l.started ≠ none) : ∃ p j,
    l.started = some p ∧ σ' = σ.start p j ∧ j.Fits p ∧ σ.head p = none ∧
      ∀ n t, p = .task n → j = .dispatch t → σ.world.spawned.reverse[n]? = some t := by
  have hrest : ∀ {p : Pid}, (σ.procs p).isNone = true → σ.head p = none := fun {p} hp => by
    rw [head, Option.isNone_iff_eq_none.mp hp, Option.bind_none]
  cases l with
  | arrive n q =>
    simp only [step] at h
    split at h <;> cases h
    rename_i hp
    exact ⟨_, _, rfl, rfl, trivial, hrest hp, fun n' t' hn => by cases hn⟩
  | background n =>
    simp only [step] at h
    split at h
    · cases h
    · rename_i t ht
      split at h <;> cases h
      rename_i hp
      exact ⟨_, _, rfl, rfl, trivial, hrest hp, fun n' t' hn ht' => by cases hn; cases ht'; exact ht⟩
  | tick =>
    simp only [step] at h
    split at h <;> cases h
    rename_i hp
    exact ⟨_, _, rfl, rfl, trivial, Option.isNone_iff_eq_none.mp hp, fun n t hn => by
      cases hn⟩
  | webhook_tick =>
    simp only [step] at h
    split at h <;> cases h
    rename_i hp
    exact ⟨_, _, rfl, rfl, trivial, Option.isNone_iff_eq_none.mp hp, fun n t hn => by
      cases hn⟩
  | exec p c => exact absurd rfl hl
  | kill p => exact absurd rfl hl

/-- A watch for every process. -/
abbrev Watches (X : Type) := Pid → Job → Watch payman World X (Except AppError Response)

variable {A : Watches X}

/-- Every process is in some phase of its watch, or was killed. -/
def Sys.Watched (A : Watches X) (σ : Sys) : Prop :=
  ∀ p j o, σ.procs p = some ⟨j, o⟩ → (A p j).Sees o σ.world

/-- What keeps the watches going: a process begins in a phase that holds, its own operations go from
    phase to phase, and what passes by disturbs none. -/
structure Sys.Upholds (A : Watches X) (σ : Sys) (l : Sys.Label) : Prop where
  start : ∀ p j, l.started = some p → j.Fits p → σ.head p = none →
    (∀ n t, p = .task n → j = .dispatch t → σ.world.spawned.reverse[n]? = some t) →
    (A p j).Sees (some j.program.run) σ.world
  own : ∀ p j e k c w r x x', l = .exec p c → σ.procs p = some ⟨j, some (.op e k)⟩ →
    σ.world.exec p e c = some (w, r) → (A p j).holds x σ.world → (A p j).next x e r x' →
    (A p j).holds x' w
  other : ∀ q j w x, Passed q σ.world w → (A q j).holds x σ.world → (A q j).holds x w

/-- CORRECT (step): a step under these obligations keeps every process watched. -/
theorem Sys.Watched.step (h : σ.Watched A) (hinv : Inv K σ) (hk : Honours K σ l)
    (hup : σ.Upholds A l) (hstep : σ.step l = some σ') : σ'.Watched A := by
  by_cases hl : l.started = none
  · cases l with
    | exec p c =>
      obtain ⟨j, e, k, w, r, hp, hx, rfl⟩ := Sys.set_of_exec hstep
      intro q j' o hq
      by_cases hqp : q = p
      · subst hqp
        rw [set_procs_self] at hq
        cases hq
        refine (h q j _ hp).exec fun x x' hx' hnext => ?_
        exact hup.own q j e k c w r x x' rfl hp hx hx' hnext
      · rw [set_procs_ne hqp] at hq
        refine (h q j' o hq).other fun x hx' => ?_
        exact hup.other q j' w x (hinv.passed hk hp hx hqp) hx'
    | kill p =>
      simp only [Sys.step] at hstep
      split at hstep <;> cases hstep
      intro q j' o hq
      by_cases hqp : q = p
      · subst hqp
        rw [set_procs_self] at hq
        cases hq
        trivial
      · rw [set_procs_ne hqp] at hq
        exact (h q j' o hq).other fun x => hup.other q j' _ x (.kill hqp _)
    | _ => cases hl
  · obtain ⟨p, j, hp, rfl, hfit, hhead, htask⟩ := Sys.start_of_step hstep hl
    intro q j' o hq
    by_cases hqp : q = p
    · subst hqp
      rw [start, set_procs_self] at hq
      cases hq
      exact hup.start q j hp hfit hhead htask
    · rw [start, set_procs_ne hqp] at hq
      exact h q j' o hq

/-- CORRECT (run): along a run under these obligations every process stays watched. -/
theorem Sys.Watched.run {ok : Sys → Sys.Label → Prop} (h : σ.Watched A) (hinv : Inv K σ)
    (hok : ∀ σ l, ok σ l → Honours K σ l) (hrun : Sys.Run ok σ σ')
    (hup : ∀ τ l, Inv K τ → Sys.Run ok σ τ → ok τ l → τ.Upholds A l) : σ'.Watched A := by
  induction hrun with
  | refl => exact h
  | @tail τ τ' hτ hs ih =>
    obtain ⟨l, hl, hstep⟩ := hs
    have hinv' := hinv.run hok hτ
    exact ih.step hinv' (hok τ l hl) (hup τ l hinv' hτ hl) hstep

/-- Nobody runs in a new installation. -/
theorem Sys.Watched.initial : Sys.initial.Watched A := nofun

/-- A watch that every step keeps going is kept in every run. -/
theorem Sys.Reachable.watched (h : σ.Reachable) (hup : ∀ τ l, Inv .any τ → τ.Upholds A l) :
    σ.Watched A :=
  Sys.Watched.initial.run (Inv.initial : Inv .any _) (fun _ _ _ => .any) h
    fun τ l hinv _ _ => hup τ l hinv

end Payman
