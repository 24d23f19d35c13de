import Payman.Schemes.Solo
import Payman.Safety.Twins

/-! A request that runs on its own, step by step.

    While nobody else moves, the database and the open transaction say everything. A rule gives for
    its operation what the reply was and where the rest goes on; a statement may fail as long as the
    choices that are allowed let it. -/

namespace Payman
open Schemes

variable {p : Pid} {allow : Choice → World → Prop} {w : World} {α β : Type}
  {err : AppError → World → Prop}

/-- What is durable: the committed data, how it came about, and the charges sent. -/
structure Durable where
  db : Db
  history : List Commit
  charges : List Charge

/-- `p` commits `ws`. -/
def Durable.commit (l : Durable) (p : Pid) (ws : List Write) : Durable :=
  ⟨applyAll l.db ws, ⟨p, l.db, ws⟩ :: l.history, l.charges⟩

/-- A statement outside a transaction commits what it writes. -/
def Durable.auto (l : Durable) (p : Pid) (ws : List Write) : Durable :=
  if ws = [] then l else l.commit p ws

/-- A charge is sent. -/
def Durable.send (l : Durable) (ch : Charge) : Durable := { l with charges := ch :: l.charges }

@[simp] theorem Durable.commit_db (l : Durable) (p : Pid) (ws : List Write) :
    (l.commit p ws).db = applyAll l.db ws := rfl

@[simp] theorem Durable.auto_nil (l : Durable) (p : Pid) : l.auto p [] = l := if_pos rfl

theorem Durable.auto_of_ne {l : Durable} {ws : List Write} (h : ws ≠ []) :
    l.auto p ws = l.commit p ws := if_neg h

def World.durable (w : World) : Durable := ⟨w.db, w.history, w.charges⟩

/-- `p` is in the transaction `tx` on top of the durable state `l`, at `since` or later. -/
structure Stage (p : Pid) (l : Durable) (tx : Option (Tx DateTime Write)) (since : DateTime)
    (w : World) : Prop where
  durable : w.durable = l
  tx : w.tx p = tx
  clock : since ≤ w.now

/-- `x`, run by `p` alone from `w`, ends in `ok` when it succeeds and in `err` when it fails. -/
abbrev Leaves {α : Type} (p : Pid) (allow : Choice → World → Prop) (ok : α → World → Prop)
    (err : AppError → World → Prop) (x : App α) (w : World) : Prop :=
  Solo (World.exec p) allow (Upon ok err) x.run w

/-- Why a statement fails. -/
def Stmt.Refused (s : Stmt) (now : DateTime) (c : Choice) (db : Db) (e : DbError) : Prop :=
  c.fail = true ∨ s.run now c db = .error e

/-- No database call fails. -/
abbrev Calm (allow : Choice → World → Prop) : Prop := ∀ c w, allow c w → c.fail = false

/-- The UUIDs that are drawn are new. -/
abbrev Draws (p : Pid) (allow : Choice → World → Prop) : Prop := ∀ c w, allow c w → Unseen p c w

theorem Calm.never {c : Choice} {q : Prop} (h : Calm allow) (hc : allow c w)
    (hf : c.fail = true) : q := by
  cases (h c w hc).symm.trans hf

/-- Only the database itself refuses a statement then. -/
theorem Calm.refused {c : Choice} {s : Stmt} {now : DateTime} {db : Db} {e : DbError}
    (h : Calm allow) (hc : allow c w) (hbad : s.Refused now c db e) :
    s.run now c db = .error e := hbad.resolve_left fun hf => h.never hc hf

/-! ### Nobody waits -/

/-- Alone, a process waits for nobody. -/
theorem World.Only.exec_some (h : w.Only p) (e : Eff) (c : Choice) :
    ∃ x, w.exec p e c = some x ∧ x.1.Only p := by
  have hsome : ∃ x, w.exec p e c = some x := by
    cases e
    case sql s =>
      simp only [World.exec, World.act]
      split
      · exact ⟨_, rfl⟩
      · split
        · exact ⟨_, rfl⟩
        · rename_i ws r _
          have hfree : (w.elapse c.elapsed).sessions.Free p ws := fun k _ => h.unlocked k
          unfold World.record
          rw [dif_pos hfree]
          split
          · exact ⟨_, rfl⟩
          · split <;> exact ⟨_, rfl⟩
    all_goals simp only [World.exec, World.act]
    case begin | rollback => split <;> exact ⟨_, rfl⟩
    case commit =>
      split
      · exact ⟨_, rfl⟩
      · split <;> exact ⟨_, rfl⟩
    all_goals exact ⟨_, rfl⟩
  obtain ⟨x, hx⟩ := hsome
  exact ⟨x, hx, h.exec hx⟩

/-- Where nobody is in a transaction, a request that runs on its own has an answer, whatever the
    choices. -/
theorem World.Quiet.returns (h : w.Quiet) (x : App α) (f : ℕ → Choice) :
    ∃ n w' r, x.run.run (World.exec p) ((List.range n).map f) w = some (w', r) := by
  have hstep : ∀ (e : Eff) (c : Choice) (v : World), v.Only p →
      ∃ x, v.exec p e c = some x ∧ x.1.Only p := fun e c _ hv => hv.exec_some e c
  obtain ⟨n, w', r, hrun, -⟩ := Prog.returns hstep x.run w (h.only p) f
  exact ⟨n, w', r, hrun⟩

namespace Stage
variable {l : Durable} {tx : Option (Tx DateTime Write)} {since : DateTime} {t : DateTime}
  {vs : List Write}

theorem db (h : Stage p l tx since w) : w.db = l.db := congrArg Durable.db h.durable

theorem history (h : Stage p l tx since w) : w.history = l.history := congrArg Durable.history h.durable

theorem elapse (h : Stage p l tx since w) (d : ℕ) :
    Stage p l tx since (w.elapse d) := ⟨h.durable, h.tx, Int.le_trans h.clock (w.le_elapse d)⟩

theorem view (h : Stage p l (some ⟨t, vs⟩) since w) : w.sessions.view p = applyAll l.db vs := by
  rw [Sessions.view, show w.sessions.txs p = some ⟨t, vs⟩ from h.tx, ← h.db]

theorem view_idle (h : Stage p l none since w) : w.sessions.view p = l.db := by
  rw [World.view_idle h.tx, h.db]

end Stage

namespace Leaves

theorem bind {mid : α → World → Prop} {ok : β → World → Prop} {x : App α} {f : α → App β}
    (hx : Leaves p allow mid err x w) (hf : ∀ a w', mid a w' → Leaves p allow ok err (f a) w') :
    Leaves p allow ok err (x >>= f) w := Solo.bindE hx hf

/-- Sequence, read forwards. -/
theorem seq {ok : β → World → Prop} {x : App α} {f : α → App β}
    (hx : Leaves p allow (fun a w' => Leaves p allow ok err (f a) w') err x w) :
    Leaves p allow ok err (x >>= f) w := bind hx fun _ _ h => h

theorem map {ok : β → World → Prop} {x : App α} {f : α → β}
    (hx : Leaves p allow (fun a => ok (f a)) err x w) : Leaves p allow ok err (f <$> x) w :=
  Solo.mapE hx

theorem imp {ok ok' : α → World → Prop} {err' : AppError → World → Prop} {x : App α}
    (hx : Leaves p allow ok err x w) (hok : ∀ a w', ok a w' → ok' a w')
    (herr : ∀ e w', err e w' → err' e w') : Leaves p allow ok' err' x w := by
  refine Solo.imp (fun r w' h => ?_) hx
  cases r with
  | ok a => exact hok a w' h
  | error e => exact herr e w' h

theorem pure {ok : α → World → Prop} {a : α} (h : ok a w) :
    Leaves p allow ok err (Pure.pure a : App α) w := h

theorem throw {ok : α → World → Prop} {e : AppError} (h : err e w) :
    Leaves p allow ok err (MonadExcept.throw e : App α) w := h

theorem ok_or {ok : α → World → Prop} {o : Option α} {e : AppError} (herr : o = none → err e w)
    (h : ∀ a, o = some a → ok a w) : Leaves p allow ok err (ok_or o e) w := by
  cases o with
  | none => exact herr rfl
  | some a => exact h a rfl

theorem reject_if {ok : Unit → World → Prop} {bad : Prop} [Decidable bad] {e : AppError}
    (herr : bad → err e w) (h : ¬bad → ok () w) : Leaves p allow ok err (reject_if bad e) w := by
  unfold Payman.reject_if
  split
  · rename_i hb
    exact herr hb
  · rename_i hb
    exact h hb

/-- A run that has returned. -/
theorem of_run {ok : α → World → Prop} {x : App α} {cs : List Choice} {w' : World}
    {r : Except AppError α} (h : Leaves p allow ok err x w)
    (hcs : x.run.Along (World.exec p) allow cs w)
    (hrun : x.run.run (World.exec p) cs w = some (w', r)) : Upon ok err r w' := Solo.of_run h hcs hrun

/-! ### Operations -/

section
variable {l : Durable} {tx : Option (Tx DateTime Write)} {since : DateTime}

theorem new_v4 {ok : Uuid → World → Prop} (h : Stage p l tx since w)
    (hok : ∀ c w', allow c w → Stage p l tx since w' → ok c.uuid w') :
    Leaves p allow ok err new_v4 w := by
  intro c w' r hc hx
  cases hx
  exact hok c _ hc (h.elapse _)

theorem utc_now {ok : DateTime → World → Prop} (h : Stage p l tx since w)
    (hok : ∀ c w', allow c w → since ≤ w.now + c.elapsed →
      Stage p l tx (w.now + c.elapsed) w' → ok (w.now + c.elapsed) w') :
    Leaves p allow ok err utc_now w := by
  intro c w' r hc hx
  cases hx
  exact hok c _ hc (h.elapse c.elapsed).clock ⟨h.durable, h.tx, Int.le_refl _⟩

theorem spawn_dispatch {ok : Unit → World → Prop} {b i : Uuid} {event_type : String}
    (h : Stage p l tx since w) (hok : ∀ w', Stage p l tx since w' → ok () w') :
    Leaves p allow ok err (spawn_dispatch b i event_type) w := by
  intro c w' r hc hx
  cases hx
  exact hok _ ⟨h.durable, h.tx, (h.elapse c.elapsed).clock⟩

theorem send_charge {ok : Unit → World → Prop} {a : Uuid} {card_token : String}
    (h : Stage p l tx since w) (hok : ∀ w', Stage p (l.send ⟨p, a, card_token⟩) tx since w' →
      ok () w') : Leaves p allow ok err (send_charge a card_token) w := by
  intro c w' r hc hx
  cases hx
  refine hok _ ⟨?_, h.tx, (h.elapse c.elapsed).clock⟩
  rw [← h.durable]
  rfl

theorem recv_charge {ok : Answer → World → Prop} {a : Uuid} (h : Stage p l tx since w)
    (hok : ∀ ans w', Stage p l tx since w' → ok ans w') :
    Leaves p allow ok err (recv_charge a) w := by
  intro c w' r hc hx
  cases hx
  exact hok _ _ (h.elapse _)

theorem begin_tx {ok : Unit → World → Prop} (h : Stage p l none since w)
    (hok : ∀ t w', since ≤ t → Stage p l (some ⟨t, []⟩) since w' → ok () w')
    (herr : ∀ c e w', allow c w → c.fail = true → Stage p l none since w' →
      err (.Database e) w') : Leaves p allow ok err begin_tx w := by
  intro c w' r hc hx
  change (w.elapse c.elapsed).act p c .begin = _ at hx
  simp only [World.act] at hx
  split at hx
  · rename_i hfail
    cases hx
    exact herr c _ _ hc hfail (h.elapse _)
  · cases hx
    have he := h.elapse c.elapsed
    exact hok _ _ he.clock ⟨h.durable, Function.update_self .., he.clock⟩

theorem commit_tx {ok : Unit → World → Prop} {t : DateTime} {ws : List Write}
    (h : Stage p l (some ⟨t, ws⟩) since w)
    (hok : ∀ w', Stage p (l.commit p ws) none since w' → ok () w')
    (herr : ∀ c e w', allow c w → c.fail = true → Stage p l (some ⟨t, ws⟩) since w' →
      err (.Database e) w') : Leaves p allow ok err commit_tx w := by
  intro c w' r hc hx
  have htx : (w.elapse c.elapsed).tx p = some ⟨t, ws⟩ := h.tx
  change (w.elapse c.elapsed).act p c .commit = _ at hx
  simp only [World.act, htx] at hx
  split at hx
  · rename_i hfail
    cases hx
    exact herr c _ _ hc hfail (h.elapse _)
  · cases hx
    refine hok _ ⟨?_, Function.update_self .., (h.elapse c.elapsed).clock⟩
    have hview : (w.elapse c.elapsed).sessions.view p = applyAll w.db ws := by
      rw [Sessions.view, show (w.elapse c.elapsed).sessions.txs p = some ⟨t, ws⟩ from htx]
      rfl
    rw [Durable.commit, ← h.durable]
    show (⟨(w.elapse c.elapsed).sessions.view p, _, _⟩ : Durable) = _
    rw [hview]
    rfl

theorem drop_tx {ok : Unit → World → Prop} (h : Stage p l tx since w)
    (hok : ∀ w', Stage p l none since w' → ok () w') : Leaves p allow ok err drop_tx w := by
  intro c w' r hc hx
  cases hx
  exact hok _ ⟨h.durable, Function.update_self .., (h.elapse c.elapsed).clock⟩

/-- A statement in a transaction adds its writes to it. -/
theorem sql_within {s : Stmt} {ok : s.Result → World → Prop} {t : DateTime} {vs : List Write}
    (h : Stage p l (some ⟨t, vs⟩) since w)
    (herr : ∀ c e w', allow c w → s.Refused t c (applyAll l.db vs) e →
      Stage p l (some ⟨t, vs⟩) since w' → err (.Database e) w')
    (hok : ∀ c ws r w', allow c w → s.run t c (applyAll l.db vs) = .ok (ws, r) →
      Stage p l (some ⟨t, vs ++ ws⟩) since w' → ok r w') : Leaves p allow ok err (sql s) w := by
  intro c w' r hc hx
  have he := h.elapse c.elapsed
  have hnow : (w.elapse c.elapsed).sql_now p = t := by rw [World.sql_now, he.tx]
  cases r with
  | error e =>
    obtain ⟨rfl, hbad⟩ := World.act_sql_error hx
    rw [he.view, hnow] at hbad
    exact herr c e _ hc hbad he
  | ok r =>
    obtain ⟨e, hr, -⟩ | ⟨ws, r', hrun, hrec, hr⟩ := World.act_sql_cases hx
    · cases hr
    · cases hr
      rw [he.view, hnow] at hrun
      refine hok c ws r w' hc hrun ?_
      obtain ⟨-, hch, ⟨tx, htx, htx', hdb, hh⟩ | ⟨htx, -⟩ | ⟨htx, -⟩⟩ := World.record_cases hrec
      · obtain rfl := Option.some.inj (he.tx.symm.trans htx)
        refine ⟨?_, htx', (World.record_now hrec) ▸ he.clock⟩
        rw [← he.durable, World.durable, World.durable, hdb, hh, hch]
      · cases he.tx.symm.trans htx
      · cases he.tx.symm.trans htx

/-- A statement in a transaction that nothing but the environment can refuse. -/
theorem sql_known {s : Stmt} {ok : s.Result → World → Prop} {t : DateTime} {vs ws : List Write}
    {o : s.Result} (h : Stage p l (some ⟨t, vs⟩) since w)
    (hrun : ∀ c, s.run t c (applyAll l.db vs) = .ok (ws, o))
    (herr : ∀ e w', ¬Calm allow → Stage p l (some ⟨t, vs⟩) since w' → err (.Database e) w')
    (hok : ∀ w', Stage p l (some ⟨t, vs ++ ws⟩) since w' → ok o w') :
    Leaves p allow ok err (sql s) w := by
  refine sql_within h (fun c e w' hc href h' => herr e w' (fun hcalm => ?_) h')
    fun c ws' r w' _ hrun' h' => ?_
  · cases (hrun c).symm.trans (hcalm.refused hc href)
  · cases (hrun c).symm.trans hrun'
    exact hok w' h'

/-- A query in a transaction. -/
theorem query_within {s : Stmt} {ok : s.Result → World → Prop} {t : DateTime} {vs : List Write}
    {o : s.Result} (h : Stage p l (some ⟨t, vs⟩) since w)
    (hread : ∀ c, s.run t c (applyAll l.db vs) = .ok ([], o))
    (herr : ∀ e w', ¬Calm allow → Stage p l (some ⟨t, vs⟩) since w' → err (.Database e) w')
    (hok : ∀ w', Stage p l (some ⟨t, vs⟩) since w' → ok o w') : Leaves p allow ok err (sql s) w := by
  refine sql_known h hread herr fun w' h' => ?_
  rw [List.append_nil] at h'
  exact hok w' h'

/-- A statement outside a transaction commits its writes. -/
theorem sql_outside {s : Stmt} {ok : s.Result → World → Prop} (h : Stage p l none since w)
    (herr : ∀ now c e w', allow c w → s.Refused now c l.db e → Stage p l none since w' →
      err (.Database e) w')
    (hok : ∀ now c ws r w', allow c w → since ≤ now → s.run now c l.db = .ok (ws, r) →
      Stage p (l.auto p ws) none since w' → ok r w') : Leaves p allow ok err (sql s) w := by
  intro c w' r hc hx
  have he := h.elapse c.elapsed
  have hnow : (w.elapse c.elapsed).sql_now p = w.now + c.elapsed := World.sql_now_idle he.tx
  cases r with
  | error e =>
    obtain ⟨rfl, hbad⟩ := World.act_sql_error hx
    rw [he.view_idle] at hbad
    exact herr _ c e _ hc hbad he
  | ok r =>
    obtain ⟨e, hr, -⟩ | ⟨ws, r', hrun, hrec, hr⟩ := World.act_sql_cases hx
    · cases hr
    · cases hr
      rw [he.view_idle, hnow] at hrun
      refine hok _ c ws r w' hc he.clock hrun ?_
      obtain ⟨-, hch, ⟨tx, htx, -⟩ | ⟨-, htx, rfl, hdb, hh⟩ | ⟨-, htx, hne, hdb, hh⟩⟩ :=
        World.record_cases hrec
      · cases he.tx.symm.trans htx
      · refine ⟨?_, htx, (World.record_now hrec) ▸ he.clock⟩
        rw [Durable.auto_nil, ← he.durable, World.durable, World.durable, hdb, hh, hch]
      · refine ⟨?_, htx, (World.record_now hrec) ▸ he.clock⟩
        rw [Durable.auto_of_ne hne, Durable.commit, ← he.durable, World.durable, World.durable, hdb, hh,
          hch]

/-- A query outside a transaction. -/
theorem query {s : Stmt} {ok : s.Result → World → Prop} {o : s.Result} (h : Stage p l none since w)
    (hread : ∀ now c, s.run now c l.db = .ok ([], o))
    (herr : ∀ c e w', allow c w → c.fail = true → Stage p l none since w' → err (.Database e) w')
    (hok : ∀ w', Stage p l none since w' → ok o w') : Leaves p allow ok err (sql s) w := by
  refine sql_outside h (fun now c e w' hc hbad h' => ?_) fun now c ws r w' _ _ hrun h' => ?_
  · rcases hbad with hfail | hrun
    · exact herr c e w' hc hfail h'
    · cases (hread now c).symm.trans hrun
  · cases (hread now c).symm.trans hrun
    rw [Durable.auto_nil] at h'
    exact hok w' h'

/-- A scope that owns the transaction: an error drops it. -/
theorem or_drop {ok : α → World → Prop} (bad : AppError → Prop) {body : App α}
    (herr : ∀ e w', bad e → Stage p l none since w' → err e w')
    (hbody : Leaves p allow ok (fun e w' => bad e ∧ ∃ tx, Stage p l tx since w') body w) :
    Leaves p allow ok err (or_drop body) w := by
  refine Solo.bind (fun r w' h => ?_) hbody
  cases r with
  | ok a => exact h
  | error e =>
    obtain ⟨hbad, tx, h⟩ := h
    have hdrop : Leaves p allow (fun _ w'' => err e w'') (fun _ _ => False) Payman.drop_tx w' :=
      drop_tx h fun w'' h'' => herr e w'' hbad h''
    refine Solo.bind (fun r w'' h => ?_) hdrop
    cases r with
    | ok _ => exact h
    | error _ => exact h.elim

/-- `begin`, a body, `commit`: an error on the way undoes everything. -/
theorem transaction {ok : α → World → Prop} (bad : AppError → Prop) {body : App α}
    (h : Stage p l none since w) (herr : ∀ e w', bad e → Stage p l none since w' → err e w')
    (hfail : ∀ c e w', allow c w' → c.fail = true → bad (.Database e))
    (hbody : ∀ t w', since ≤ t → Stage p l (some ⟨t, []⟩) since w' →
      Leaves p allow (fun a w'' => ∃ ws, Stage p l (some ⟨t, ws⟩) since w'' ∧
        ∀ w₃, Stage p (l.commit p ws) none since w₃ → ok a w₃)
        (fun e w'' => bad e ∧ ∃ tx, Stage p l tx since w'') body w') :
    Leaves p allow ok err (transaction body) w := by
  refine seq (begin_tx h (fun t w' ht h' => ?_) fun c e w' hc hf h' =>
    herr _ _ (hfail c e w hc hf) h')
  refine or_drop bad herr (bind (hbody t w' ht h') fun a w'' ⟨ws, h'', hok⟩ => ?_)
  exact seq (commit_tx h'' (fun w₃ h₃ => hok w₃ h₃) fun c e w₃ hc hf h₃ =>
    ⟨hfail c e w'' hc hf, _, h₃⟩)

end

end Leaves

end Payman
