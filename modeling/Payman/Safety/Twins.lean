import Payman.Safety.Estates
import Payman.Safety.Exec

/-! One request in two worlds.

    A request of business `b` runs alone in two worlds that show the same estate of `b`. Each rule
    says that its operation does the same in both, and leaves them alike. -/

namespace Payman
open Schemes

variable {p : Pid} {b : Uuid} {tx : Option (Tx DateTime Write)} {α β : Type}

/-! ### One world -/

/-- Nobody is in a transaction, and no lock is held. -/
structure World.Quiet (w : World) : Prop where
  txs : ∀ q, w.tx q = none
  owner : ∀ k, w.sessions.owner k = none

/-- Nobody but `p` is in a transaction or holds a lock, and `p` only while it is in one. -/
structure World.Only (p : Pid) (w : World) : Prop where
  txs : ∀ q, q ≠ p → w.tx q = none
  unlocked : ∀ k, w.Unlocked p k
  tidy : w.tx p = none → ∀ k, w.sessions.owner k ≠ some p

theorem World.Quiet.only {w : World} (h : w.Quiet) (p : Pid) : w.Only p where
  txs := fun q _ => h.txs q
  unlocked := fun k => .inl (h.owner k)
  tidy := fun _ k hk => by cases (h.owner k).symm.trans hk

theorem World.Only.quiet {w : World} (h : w.Only p) (htx : w.tx p = none) : w.Quiet where
  txs := fun q => by
    by_cases hq : q = p
    · exact hq ▸ htx
    · exact h.txs q hq
  owner := fun k => (h.unlocked k).resolve_right (h.tidy htx k)

theorem World.record_tidy {w w' : World} {ws : List Write} (h : w.record p ws = some w')
    (ht : w.tx p = none → ∀ k, w.sessions.owner k ≠ some p) :
    w'.tx p = none → ∀ k, w'.sessions.owner k ≠ some p := by
  intro hnone
  unfold record at h
  split at h
  · split at h
    · cases h
      simp [World.tx, Sessions.stage] at hnone
    · rename_i htx
      split at h <;> cases h <;> exact ht htx
  · cases h

theorem World.Only.exec {w w' : World} {e : Eff} {c : Choice} {r : e.Reply} (h : w.Only p)
    (hx : w.exec p e c = some (w', r)) : w'.Only p := by
  refine ⟨fun q hq => (World.exec_frame hx hq).tx.trans (h.txs q hq),
    fun k => (World.exec_unlocked hx).mpr (h.unlocked k), ?_⟩
  have hreleased : ∀ k, w.sessions.released p k ≠ some p := fun k => by
    unfold Sessions.released
    split
    · rintro ⟨⟩
    · assumption
  cases e
  case sql s =>
    obtain ⟨_, -, rfl⟩ | ⟨_, _, -, hrec, -⟩ := World.act_sql_cases hx
    · exact h.tidy
    · exact World.record_tidy (w := w.elapse c.elapsed) hrec h.tidy
  all_goals simp only [World.exec, World.act] at hx
  case begin =>
    split at hx <;> cases hx
    · exact h.tidy
    · exact fun _ => hreleased
  case commit =>
    split at hx
    · cases hx; exact h.tidy
    · split at hx <;> cases hx
      · exact h.tidy
      · exact fun _ => hreleased
  case rollback =>
    split at hx <;> cases hx
    · exact h.tidy
    · exact fun _ => hreleased
  case drop => cases hx; exact fun _ => hreleased
  all_goals cases hx; exact h.tidy

/-- A database that a request of `b` has made of `u`. -/
structure Db.Kept (db : Db) (b : Uuid) (u : Db) : Prop where
  sound : db.Sound
  others : db.others b = u.others b

theorem Db.Kept.apply {db u : Db} {w : Write} (h : db.Kept b u) (hw : w.Mine db b) :
    (w.apply db).Kept b u := ⟨hw.sound h.sound, hw.own.others.trans h.others⟩

/-- One row version of `b`, or nothing. -/
def Modest (db : Db) (b : Uuid) (ws : List Write) : Prop := ws = [] ∨ ∃ w, ws = [w] ∧ w.Mine db b

theorem Db.Kept.applyAll {db u : Db} {ws : List Write} (h : db.Kept b u) (hws : Modest db b ws) :
    (applyAll db ws).Kept b u := by
  rcases hws with rfl | ⟨w, rfl, hw⟩
  · exact h
  · exact h.apply hw

/-- The transaction after a statement. -/
def grown (tx : Option (Tx DateTime Write)) (ws : List Write) : Option (Tx DateTime Write) :=
  tx.map fun t => ⟨t.began, t.writes ++ ws⟩

/-- A request of `b` that began on the database `u`, in the transaction `tx`. -/
structure Sided (p : Pid) (b : Uuid) (u : Db) (tx : Option (Tx DateTime Write)) (w : World) :
    Prop where
  only : w.Only p
  tx : w.tx p = tx
  db : w.db.Kept b u
  view : (w.sessions.view p).Kept b u

namespace Sided
variable {u : Db} {w w' : World}

theorem elapse (h : Sided p b u tx w) (d : ℕ) : Sided p b u tx (w.elapse d) :=
  ⟨⟨h.only.txs, h.only.unlocked, h.only.tidy⟩, h.tx, h.db, h.view⟩

/-- A statement's writes never wait. -/
theorem record (h : Sided p b u tx w) {ws : List Write}
    (hws : Modest (w.sessions.view p) b ws) : ∃ w', w.record p ws = some w' ∧
      (w'.Only p → Sided p b u (grown tx ws) w') ∧
      w'.sessions.view p = applyAll (w.sessions.view p) ws ∧
      w'.db = if tx.isNone then applyAll w.db ws else w.db := by
  have hfree : w.sessions.Free p ws := fun k _ => h.only.unlocked k
  obtain ⟨w', hrec⟩ : ∃ w', w.record p ws = some w' := by
    unfold World.record
    rw [dif_pos hfree]
    split
    · exact ⟨_, rfl⟩
    · split <;> exact ⟨_, rfl⟩
  refine ⟨w', hrec, ?_⟩
  have hkept := h.view.applyAll hws
  obtain ⟨-, -, ⟨t, htx, htx', hdb, -⟩ | ⟨htx, htx', rfl, hdb, -⟩ | ⟨htx, htx', -, hdb, -⟩⟩ :=
    World.record_cases hrec
  · obtain rfl := h.tx.symm.trans htx
    have hview : w'.sessions.view p = Schemes.applyAll (w.sessions.view p) ws := by
      have htx : w.sessions.txs p = some t := htx
      have htx' : w'.sessions.txs p = some ⟨t.began, t.writes ++ ws⟩ := htx'
      rw [Sessions.view, Sessions.view, htx, htx']
      show Schemes.applyAll w'.db _ = _
      rw [hdb, applyAll_append]
    exact ⟨fun ho => ⟨ho, htx', hdb ▸ h.db, hview ▸ hkept⟩, hview, hdb⟩
  · obtain rfl := h.tx.symm.trans htx
    have hview := World.view_idle htx
    have hview' := World.view_idle htx'
    rw [hview', hdb, hview]
    exact ⟨fun ho => ⟨ho, htx', hdb ▸ h.db, by rw [hview', hdb]; exact h.db⟩, rfl, rfl⟩
  · obtain rfl := h.tx.symm.trans htx
    have hview := World.view_idle htx
    have hview' := World.view_idle htx'
    rw [hview] at hkept
    rw [hview', hdb, hview]
    exact ⟨fun ho => ⟨ho, htx', hdb ▸ hkept, by rw [hview', hdb]; exact hkept⟩, rfl, rfl⟩

/-- `BEGIN`. -/
theorem start (h : Sided p b u none w)
    (ho : World.Only p { w with sessions := w.sessions.start p w.now }) :
    Sided p b u (some ⟨w.now, []⟩) { w with sessions := w.sessions.start p w.now } ∧
      (w.sessions.start p w.now).view p = w.sessions.view p := by
  have htx : (w.sessions.start p w.now).txs p = some ⟨w.now, []⟩ := Function.update_self ..
  have hview : (w.sessions.start p w.now).view p = w.sessions.view p := by
    rw [World.view_idle h.tx, Sessions.view, htx]
    rfl
  refine ⟨⟨ho, htx, h.db, ?_⟩, hview⟩
  show ((w.sessions.start p w.now).view p).Kept b u
  rw [hview]
  exact h.view

end Sided

/-! ### Two worlds -/

/-- A request of `b` that began on the databases `u` of two worlds and shows the same of them. -/
structure Paired (p : Pid) (b : Uuid) (u : Db × Db) (tx : Option (Tx DateTime Write))
    (w : World × World) : Prop where
  fst : Sided p b u.1 tx w.1
  snd : Sided p b u.2 tx w.2
  now : w.1.now = w.2.now
  estate : w.1.db.estate b = w.2.db.estate b
  view : (w.1.sessions.view p).estate b = (w.2.sessions.view p).estate b

/-- What `p` sees has not changed. -/
structure Still (p : Pid) (w w' : World × World) : Prop where
  fst : w'.1.sessions.view p = w.1.sessions.view p
  snd : w'.2.sessions.view p = w.2.sessions.view p

/-- The UUID that a choice holds is no id of a row that `p` sees. -/
def Unseen (p : Pid) (c : Choice) (w : World) : Prop := (w.sessions.view p).Unused c.uuid

instance (p : Pid) (c : Choice) (w : World) : Decidable (Unseen p c w) :=
  inferInstanceAs (Decidable ((w.sessions.view p).Unused c.uuid))

/-- In both worlds `x` does the same, and ends in `ok` when it succeeds and in `err` when it
    fails. -/
abbrev Twins {α : Type} (p : Pid) (ok : α → World × World → Prop) (err : World × World → Prop)
    (x : App α) (w : World × World) : Prop :=
  Twin (World.exec p) (Unseen p) (Safe.Either ok err) x.run w

variable {u : Db × Db} {w w' : World × World} {err : World × World → Prop}

theorem Paired.elapse (h : Paired p b u tx w) (d : ℕ) :
    Paired p b u tx (w.1.elapse d, w.2.elapse d) :=
  ⟨h.fst.elapse d, h.snd.elapse d, congrArg (· + (d : ℤ)) h.now, h.estate, h.view⟩

theorem Paired.sql_now (h : Paired p b u tx w) : w.1.sql_now p = w.2.sql_now p := by
  rw [World.sql_now, World.sql_now, h.fst.tx, h.snd.tx]
  cases tx with
  | none => exact h.now
  | some t => rfl

theorem grown_nil (tx : Option (Tx DateTime Write)) : grown tx [] = tx := by
  cases tx with
  | none => rfl
  | some t => simp [grown]

/-- The same write on both sides keeps the estates the same. -/
theorem estate_applyAll {db₁ db₂ : Db} {ws : List Write} (he : db₁.estate b = db₂.estate b)
    (hs₁ : db₁.Sound) (hs₂ : db₂.Sound) (h₁ : Modest db₁ b ws) (h₂ : Modest db₂ b ws) :
    (applyAll db₁ ws).estate b = (applyAll db₂ ws).estate b := by
  rcases h₁ with rfl | ⟨v, rfl, hv₁⟩
  · exact he
  · obtain hnil | ⟨v', hv', hv₂⟩ := h₂
    · cases hnil
    · cases hv'
      show (v.apply db₁).estate b = (v.apply db₂).estate b
      rw [hv₁.estate hs₁, hv₂.estate hs₂, he]

namespace Twins

theorem bind {mid : α → World × World → Prop} {ok : β → World × World → Prop} {x : App α}
    {f : α → App β} (hx : Twins p mid err x w) (hf : ∀ a w', mid a w' → Twins p ok err (f a) w') :
    Twins p ok err (x >>= f) w := Twin.bindE hx hf

/-- Sequence, read forwards. -/
theorem seq {ok : β → World × World → Prop} {x : App α} {f : α → App β}
    (hx : Twins p (fun a w' => Twins p ok err (f a) w') err x w) :
    Twins p ok err (x >>= f) w := bind hx fun _ _ h => h

theorem pure {ok : α → World × World → Prop} {a : α} (h : ok a w) :
    Twins p ok err (Pure.pure a : App α) w := h

theorem throw {ok : α → World × World → Prop} {e : AppError} (h : err w) :
    Twins p ok err (MonadExcept.throw e : App α) w := h

theorem ok_or {ok : α → World × World → Prop} {o : Option α} {e : AppError} (herr : err w)
    (h : ∀ a, o = some a → ok a w) : Twins p ok err (ok_or o e) w := by
  cases o with
  | none => exact herr
  | some a => exact h a rfl

theorem reject_if {ok : Unit → World × World → Prop} {bad : Prop} [Decidable bad] {e : AppError}
    (herr : err w) (h : ok () w) : Twins p ok err (reject_if bad e) w := by
  unfold Payman.reject_if
  split
  · exact herr
  · exact h

theorem map {ok : β → World × World → Prop} {x : App α} {f : α → β}
    (hx : Twins p (fun a => ok (f a)) err x w) : Twins p ok err (f <$> x) w := Twin.mapE hx

/-- Another error value. -/
theorem adapt {ok : α → World × World → Prop} {x : App α} {f : AppError → AppError}
    (hx : Twins p ok err x w) : Twins p ok err (x.adapt f) w := by
  refine Twin.map (Twin.imp (fun r w' h => ?_) hx)
  cases r <;> exact h

/-! ### Operations -/

theorem new_v4 {ok : Uuid → World × World → Prop} (h : Paired p b u tx w)
    (hok : ∀ id w', Paired p b u tx w' → Still p w w' → (w.1.sessions.view p).Unused id →
      (w.2.sessions.view p).Unused id → ok id w') : Twins p ok err new_v4 w := by
  intro c w₁ r hu₁ hu₂ hx
  cases hx
  exact ⟨_, rfl, hok c.uuid _ (h.elapse _) ⟨rfl, rfl⟩ hu₁ hu₂⟩

theorem utc_now {ok : DateTime → World × World → Prop} (h : Paired p b u tx w)
    (hok : ∀ t w', Paired p b u tx w' → Still p w w' → ok t w') : Twins p ok err utc_now w := by
  intro c w₁ r hu₁ hu₂ hx
  cases hx
  have hnow : (w.2.elapse c.elapsed).now = (w.1.elapse c.elapsed).now := (h.elapse _).now.symm
  refine ⟨w.2.elapse c.elapsed, ?_, hok _ _ (h.elapse _) ⟨rfl, rfl⟩⟩
  show some (_, (w.2.elapse c.elapsed).now) = some (_, (w.1.elapse c.elapsed).now)
  rw [hnow]

theorem spawn_dispatch {ok : Unit → World × World → Prop} {b' i : Uuid} {event_type : String}
    (h : Paired p b u tx w) (hok : ∀ w', Paired p b u tx w' → ok () w') :
    Twins p ok err (spawn_dispatch b' i event_type) w := by
  intro c w₁ r hu₁ hu₂ hx
  have h₁ := h.fst.only.exec hx
  cases hx
  have he := h.elapse c.elapsed
  have hx₂ : w.2.exec p (.spawn_dispatch ⟨b', i, event_type⟩) c = some (_, ()) := rfl
  exact ⟨_, hx₂, hok _ ⟨⟨h₁, he.fst.tx, he.fst.db, he.fst.view⟩,
    ⟨h.snd.only.exec hx₂, he.snd.tx, he.snd.db, he.snd.view⟩, he.now, he.estate, he.view⟩⟩

/-- A statement that is scoped in both worlds. -/
theorem sql {s : Stmt} {ok : s.Result → World × World → Prop} (h : Paired p b u tx w)
    (h₁ : s.Scoped b (w.1.sessions.view p)) (h₂ : s.Scoped b (w.2.sessions.view p))
    (hok : ∀ now c ws r w', Paired p b u (grown tx ws) w' →
      s.run now c (w.1.sessions.view p) = .ok (ws, r) →
      w'.1.sessions.view p = applyAll (w.1.sessions.view p) ws →
      w'.2.sessions.view p = applyAll (w.2.sessions.view p) ws → ok r w')
    (herr : ∀ w', Paired p b u tx w' → err w') : Twins p ok err (sql s) w := by
  intro c w₁ r hu₁ hu₂ hx
  have he := h.elapse c.elapsed
  have hnow := he.sql_now
  have hrun : s.run ((w.1.elapse c.elapsed).sql_now p) c (w.1.sessions.view p) =
      s.run ((w.1.elapse c.elapsed).sql_now p) c (w.2.sessions.view p) :=
    s.run_congr h₁ h₂ h.view hu₁ hu₂
  have hx₁ := hx
  have hview₁ : (w.1.elapse c.elapsed).sessions.view p = w.1.sessions.view p := rfl
  have hview₂ : (w.2.elapse c.elapsed).sessions.view p = w.2.sessions.view p := rfl
  simp only [World.exec, World.act, hview₁] at hx
  cases hc : c.fail with
  | true =>
    rw [hc] at hx
    cases hx
    refine ⟨w.2.elapse c.elapsed, ?_, herr _ he⟩
    simp only [World.exec, World.act, hc, if_true]
  | false =>
    rw [hc] at hx
    cases hs : s.run ((w.1.elapse c.elapsed).sql_now p) c (w.1.sessions.view p) with
    | error e =>
      rw [hs] at hx
      cases hx
      refine ⟨w.2.elapse c.elapsed, ?_, herr _ he⟩
      simp only [World.exec, World.act, hc, hview₂, ← hnow, ← hrun, hs]
      rfl
    | ok res =>
      obtain ⟨ws, a⟩ := res
      rw [hs] at hx
      have hm₁ : Modest (w.1.sessions.view p) b ws := Stmt.run_mine h₁ hs
      have hm₂ : Modest (w.2.sessions.view p) b ws := Stmt.run_mine h₂ (hrun ▸ hs)
      obtain ⟨w₂, hrec₂, hside₂, hgrown₂, hdb₂⟩ := he.snd.record hm₂
      obtain ⟨w₁', hrec₁, hside₁, hgrown₁, hdb₁⟩ := he.fst.record hm₁
      have hx₂ : w.2.exec p (.sql s) c = some (w₂, .ok a) := by
        simp only [World.exec, World.act, hc, hview₂, ← hnow, ← hrun, hs, hrec₂]
        rfl
      have hw : w₁' = w₁ ∧ r = .ok a := by
        simp only [hrec₁] at hx
        cases hx
        exact ⟨rfl, rfl⟩
      obtain ⟨rfl, rfl⟩ := hw
      have hestate := estate_applyAll h.view h.fst.view.sound h.snd.view.sound hm₁ hm₂
      refine ⟨w₂, hx₂, hok _ _ _ _ _ ⟨hside₁ (h.fst.only.exec hx₁), hside₂ (h.snd.only.exec hx₂),
        ?_, ?_, ?_⟩ hs hgrown₁ hgrown₂⟩
      · rw [World.record_now hrec₁, World.record_now hrec₂]
        exact he.now
      · rw [hdb₁, hdb₂]
        cases tx with
        | none =>
          rw [World.view_idle h.fst.tx, World.view_idle h.snd.tx] at hestate
          exact hestate
        | some t => exact h.estate
      · rw [hgrown₁, hgrown₂]
        exact hestate

/-- A query that is scoped in both worlds. -/
theorem query {s : Stmt} {ok : s.Result → World × World → Prop} (h : Paired p b u tx w)
    (h₁ : s.Scoped b (w.1.sessions.view p)) (h₂ : s.Scoped b (w.2.sessions.view p))
    (hread : ∀ now c ws r, s.run now c (w.1.sessions.view p) = .ok (ws, r) → ws = [])
    (hok : ∀ now c r w', Paired p b u tx w' → Still p w w' →
      s.run now c (w.1.sessions.view p) = .ok ([], r) → ok r w')
    (herr : ∀ w', Paired p b u tx w' → err w') : Twins p ok err (Payman.sql s) w := by
  refine sql h h₁ h₂ (fun now c ws r w' h' hrun hv₁ hv₂ => ?_) herr
  obtain rfl := hread now c ws r hrun
  rw [grown_nil] at h'
  exact hok now c r w' h' ⟨hv₁, hv₂⟩ hrun

theorem begin_tx {ok : Unit → World × World → Prop} (h : Paired p b u none w)
    (hok : ∀ t w', Paired p b u (some ⟨t, []⟩) w' → Still p w w' → ok () w')
    (herr : ∀ w', Paired p b u none w' → err w') : Twins p ok err begin_tx w := by
  intro c w₁ r hu₁ hu₂ hx
  have he := h.elapse c.elapsed
  have ho₁ := h.fst.only.exec hx
  cases hc : c.fail with
  | true =>
    simp only [World.exec, World.act, hc] at hx
    cases hx
    refine ⟨w.2.elapse c.elapsed, ?_, herr _ he⟩
    simp only [World.exec, World.act, hc, if_true]
  | false =>
    simp only [World.exec, World.act, hc] at hx
    cases hx
    have hx₂ : w.2.exec p .begin c = some ({ w.2.elapse c.elapsed with
        sessions := (w.2.elapse c.elapsed).sessions.start p (w.2.elapse c.elapsed).now },
        .ok ()) := by
      simp only [World.exec, World.act, hc]
      rfl
    obtain ⟨hs₁, hv₁⟩ := he.fst.start ho₁
    obtain ⟨hs₂, hv₂⟩ := he.snd.start (h.snd.only.exec hx₂)
    have hnow : (w.2.elapse c.elapsed).now = (w.1.elapse c.elapsed).now := he.now.symm
    have htx : (some ⟨(w.2.elapse c.elapsed).now, []⟩ : Option (Tx DateTime Write)) =
        some ⟨(w.1.elapse c.elapsed).now, []⟩ := by rw [hnow]
    rw [htx] at hs₂
    refine ⟨_, hx₂, hok _ _ ⟨hs₁, hs₂, he.now, h.estate, ?_⟩ ⟨hv₁, hv₂⟩⟩
    exact (congrArg (Db.estate · b) hv₁).trans (h.view.trans (congrArg (Db.estate · b) hv₂.symm))

theorem commit_tx {ok : Unit → World × World → Prop} {t : Tx DateTime Write}
    (h : Paired p b u (some t) w) (hok : ∀ w', Paired p b u none w' → ok () w')
    (herr : ∀ w', Paired p b u (some t) w' → err w') : Twins p ok err commit_tx w := by
  intro c w₁ r hu₁ hu₂ hx
  have he := h.elapse c.elapsed
  have ho₁ := h.fst.only.exec hx
  have hopen₁ : (w.1.elapse c.elapsed).tx p = some t := h.fst.tx
  have hopen₂ : (w.2.elapse c.elapsed).tx p = some t := h.snd.tx
  cases hc : c.fail with
  | true =>
    simp only [World.exec, World.act, hopen₁, hc] at hx
    cases hx
    refine ⟨w.2.elapse c.elapsed, ?_, herr _ he⟩
    simp only [World.exec, World.act, hopen₂, hc, if_true]
  | false =>
    simp only [World.exec, World.act, hopen₁, hc] at hx
    cases hx
    have hx₂ : w.2.exec p .commit c = some ((w.2.elapse c.elapsed).commit p t, .ok ()) := by
      simp only [World.exec, World.act, hopen₂, hc]
      rfl
    have htx₁ : ((w.1.elapse c.elapsed).commit p t).tx p = none := Function.update_self ..
    have htx₂ : ((w.2.elapse c.elapsed).commit p t).tx p = none := Function.update_self ..
    have hv₁ := World.view_idle htx₁
    have hv₂ := World.view_idle htx₂
    refine ⟨_, hx₂, hok _ ⟨⟨ho₁, htx₁, h.fst.view, hv₁ ▸ h.fst.view⟩,
      ⟨h.snd.only.exec hx₂, htx₂, h.snd.view, hv₂ ▸ h.snd.view⟩, he.now, h.view, ?_⟩⟩
    show (((w.1.elapse c.elapsed).commit p t).sessions.view p).estate b =
      (((w.2.elapse c.elapsed).commit p t).sessions.view p).estate b
    rw [hv₁, hv₂]
    exact h.view

theorem drop_tx {ok : Unit → World × World → Prop} (h : Paired p b u tx w)
    (hok : ∀ w', Paired p b u none w' → ok () w') : Twins p ok err drop_tx w := by
  intro c w₁ r hu₁ hu₂ hx
  have he := h.elapse c.elapsed
  have ho₁ := h.fst.only.exec hx
  cases hx
  have hx₂ : w.2.exec p .drop c = some (_, ()) := rfl
  have htx : ∀ w : World, (w.sessions.rollback p).txs p = none := fun _ =>
    Function.update_self ..
  have hv : ∀ w : World, (w.sessions.rollback p).view p = w.db := fun w => by
    rw [Sessions.view, htx]
    rfl
  refine ⟨_, hx₂, hok _ ⟨⟨ho₁, htx _, h.fst.db, ?_⟩,
    ⟨h.snd.only.exec hx₂, htx _, h.snd.db, ?_⟩, he.now, h.estate, ?_⟩⟩
  · show (((w.1.elapse c.elapsed).sessions.rollback p).view p).Kept b u.1
    rw [hv]
    exact h.fst.db
  · show (((w.2.elapse c.elapsed).sessions.rollback p).view p).Kept b u.2
    rw [hv]
    exact h.snd.db
  · show (((w.1.elapse c.elapsed).sessions.rollback p).view p).estate b =
      (((w.2.elapse c.elapsed).sessions.rollback p).view p).estate b
    rw [hv, hv]
    exact h.estate

/-- A transaction whose body stays in it. -/
theorem transaction {body : App α} (h : Paired p b u none w)
    (hbody : ∀ t w', Paired p b u (some ⟨t, []⟩) w' → Still p w w' →
      Twins p (fun _ w₁ => ∃ t', Paired p b u (some t') w₁)
        (fun w₁ => ∃ t', Paired p b u (some t') w₁) body w') :
    Twins p (fun _ => Paired p b u none) (Paired p b u none) (transaction body) w := by
  refine seq (begin_tx h (fun t w' h' hs => ?_) fun _ h' => h')
  have hinner : Twins p (fun _ => Paired p b u none) (fun w₁ => ∃ t', Paired p b u (some t') w₁)
      (do
        let a ← body
        Payman.commit_tx
        Pure.pure a) w' := by
    refine bind (hbody t w' h' hs) fun a w₁ ⟨t', h₁⟩ => seq (commit_tx h₁ ?_ ?_)
    · exact fun w₂ h₂ => h₂
    · exact fun w₂ h₂ => ⟨t', h₂⟩
  refine Twin.bind (fun r w₁ hr => ?_) hinner
  cases r with
  | ok a => exact hr
  | error e =>
    obtain ⟨t', h₁⟩ := hr
    have hdrop : Twins p (fun _ => Paired p b u none) (Paired p b u none) Payman.drop_tx w₁ :=
      drop_tx h₁ fun _ h₂ => h₂
    refine Twin.bind (fun r w₂ hr => ?_) hdrop
    cases r <;> exact hr

end Twins

end Payman
