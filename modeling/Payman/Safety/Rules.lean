import Payman.Safety.Contract

/-! One rule for each operation of a program.

    A rule gives the facts with which the rest of the program goes on: `Later` carries what was
    known before, `Held` what the transaction has locked, and the result is the statement's own on
    the data that it saw. -/

namespace Payman
open Schemes

variable {K : Setting} {T : Pid} {j : Job} {w : World} {α β : Type} {err : World → Prop}

/-- `x` keeps its contract from `w` on, ends in `ok` when it succeeds and in `err` when it fails. -/
abbrev Keeps {α : Type} (K : Setting) (T : Pid) (j : Job) (ok : α → World → Prop)
    (err : World → Prop) (x : App α) (w : World) : Prop :=
  Safe (contract K T j) (Safe.Either ok err) x.run w

/-- A commit of `ws` by `T`. -/
structure Settled (T : Pid) (ws : List Write) (w w' : World) : Prop where
  tx : w'.tx T = none
  db : w'.db = applyAll w.db ws
  history : w'.history = ⟨T, w.db, ws⟩ :: w.history
  charges : w'.charges = w.charges
  clock : w.now ≤ w'.now

/-- The open transaction of `T` may be committed, with `ok` afterwards, as its locks hold until
    then. -/
def Ready (K : Setting) (T : Pid) (j : Job) (w : World) (ok : World → Prop) : Prop :=
  ∃ tx, w.tx T = some tx ∧ ∀ w', Next K T j .commit w w' →
    Effect K T w'.history w'.db j tx.writes ∧ ∀ w'', Settled T tx.writes w' w'' → ok w''

namespace Keeps

theorem bind {mid : α → World → Prop} {ok : β → World → Prop} {x : App α} {f : α → App β}
    (hx : Keeps K T j mid err x w) (hf : ∀ a w', mid a w' → Keeps K T j ok err (f a) w') :
    Keeps K T j ok err (x >>= f) w := Safe.bindE hx hf

/-- Sequence, read forwards: after `x` the rest has to keep the contract. -/
theorem seq {ok : β → World → Prop} {x : App α} {f : α → App β}
    (hx : Keeps K T j (fun a w' => Keeps K T j ok err (f a) w') err x w) :
    Keeps K T j ok err (x >>= f) w := bind hx fun _ _ h => h

theorem map {ok : β → World → Prop} {x : App α} {f : α → β}
    (hx : Keeps K T j (fun a => ok (f a)) err x w) : Keeps K T j ok err (f <$> x) w := Safe.mapE hx

theorem pure {ok : α → World → Prop} {a : α} (h : ok a w) :
    Keeps K T j ok err (Pure.pure a : App α) w := h

theorem throw {ok : α → World → Prop} {e : AppError} (h : err w) :
    Keeps K T j ok err (MonadExcept.throw e : App α) w := h

theorem imp {ok ok' : α → World → Prop} {err' : World → Prop} {x : App α}
    (hx : Keeps K T j ok err x w) (hok : ∀ a w', ok a w' → ok' a w')
    (herr : ∀ w', err w' → err' w') : Keeps K T j ok' err' x w := by
  refine Safe.imp (fun r w' h => ?_) hx
  cases r with
  | ok a => exact hok a w' h
  | error e => exact herr w' h

/-- What the process has committed stays committed. -/
theorem committed {ok : α → World → Prop} {x : App α} (hx : Keeps K T j ok err x w)
    (h : ∃ c ∈ w.history, c.pid = T) :
    Keeps K T j (fun a w' => ok a w' ∧ ∃ c ∈ w'.history, c.pid = T) err x w := by
  have hframe := Safe.frame (φ := fun w' => ∃ c ∈ w'.history, c.pid = T)
    (fun _ _ _ hr ⟨c, hc, hT⟩ => ⟨c, hr.history c hc, hT⟩)
    (fun _ _ hg ⟨c, hc, hT⟩ => ⟨c, hg.1.history c hc, hT⟩) hx h
  refine Safe.imp (fun r w' hr => ?_) hframe
  cases r with
  | ok a => exact hr
  | error e => exact hr.1

/-- Another error value. -/
theorem adapt {ok : α → World → Prop} {x : App α} {f : AppError → AppError}
    (hx : Keeps K T j ok err x w) : Keeps K T j ok err (x.adapt f) w := by
  refine Safe.map (Safe.imp (fun r w' h => ?_) hx)
  cases r <;> exact h

theorem reject_if {ok : Unit → World → Prop} {bad : Prop} [Decidable bad] {e : AppError}
    (herr : err w) (h : ¬bad → ok () w) : Keeps K T j ok err (reject_if bad e) w := by
  unfold Payman.reject_if
  split
  · exact herr
  · rename_i hn; exact h hn

theorem ok_or {ok : α → World → Prop} {o : Option α} {e : AppError} (herr : err w)
    (h : ∀ a, o = some a → ok a w) : Keeps K T j ok err (ok_or o e) w := by
  cases o with
  | none => exact herr
  | some a => exact h a rfl

theorem fetch_one {ok : α → World → Prop} {o : Option α} (herr : err w)
    (h : ∀ a, o = some a → ok a w) : Keeps K T j ok err (fetch_one o) w := ok_or herr h

/-! ### Operations that touch no data -/

theorem new_v4 {ok : Uuid → World → Prop}
    (h : ∀ u w', Next K T j .new_v4 w w' → w'.tx T = w.tx T → ok u w') :
    Keeps K T j ok err new_v4 w := by
  intro w₁ hr c w₂ u _ hx
  cases hx
  exact ⟨⟨.quiet rfl rfl rfl, .of_eq rfl rfl⟩,
    h _ _ (hr.next (w₁.le_elapse c.elapsed) rfl rfl rfl) hr.frame.tx⟩

theorem utc_now {ok : DateTime → World → Prop}
    (h : ∀ t w', Next K T j .utc_now w w' → w'.tx T = w.tx T → ok t w') :
    Keeps K T j ok err utc_now w := by
  intro w₁ hr c w₂ t _ hx
  cases hx
  exact ⟨⟨.quiet rfl rfl rfl, .of_eq rfl rfl⟩,
    h _ _ (hr.next (w₁.le_elapse c.elapsed) rfl rfl rfl) hr.frame.tx⟩

theorem recv_charge {ok : Answer → World → Prop} {a : Uuid}
    (h : ∀ ans w', Next K T j (.recv_charge a) w w' → w'.tx T = w.tx T → K.answer true a ans →
      ok ans w') : Keeps K T j ok err (recv_charge a) w := by
  intro w₁ hr c w₂ ans hans hx
  cases hx
  exact ⟨⟨.quiet rfl rfl rfl, .of_eq rfl rfl⟩,
    h _ _ (hr.next (w₁.le_elapse c.elapsed) rfl rfl rfl) hr.frame.tx hans⟩

theorem get_charge {ok : Answer → World → Prop} {a : Uuid}
    (h : ∀ ans w', Next K T j (.get_charge a) w w' → w'.tx T = w.tx T → K.answer false a ans →
      ok ans w') : Keeps K T j ok err (get_charge a) w := by
  intro w₁ hr c w₂ ans hans hx
  cases hx
  exact ⟨⟨.quiet rfl rfl rfl, .of_eq rfl rfl⟩,
    h _ _ (hr.next (w₁.le_elapse c.elapsed) rfl rfl rfl) hr.frame.tx hans⟩

theorem spawn_dispatch {ok : Unit → World → Prop} {b i : Uuid} {event_type : String}
    (hs : j.Spawns ⟨b, i, event_type⟩)
    (h : ∀ w', Next K T j (.spawn_dispatch ⟨b, i, event_type⟩) w w' → w'.tx T = w.tx T →
      ok () w') : Keeps K T j ok err (spawn_dispatch b i event_type) w := by
  intro w₁ hr c w₂ _ _ hx
  cases hx
  exact ⟨⟨.quiet rfl rfl rfl, .inl rfl, .inr ⟨_, rfl, hs⟩⟩,
    h _ (hr.next (w₁.le_elapse c.elapsed) rfl rfl rfl) hr.frame.tx⟩

theorem post_webhook {ok : Answer → World → Prop} {d : Uuid} {url secret : String} {payload : Json}
    {t : ℤ} (hj : j = .deliveries) (h : ∀ ans w', w'.tx T = w.tx T → ok ans w') :
    Keeps K T j ok err (post_webhook d url secret payload t) w := by
  intro w₁ hr c w₂ ans _ hx
  cases hx
  exact ⟨⟨.quiet rfl rfl rfl, .inr hj, .inl rfl⟩, h _ _ hr.frame.tx⟩

theorem send_charge {ok : Unit → World → Prop} {a : Uuid} {card_token : String}
    (hs : ∀ w', Next K T j (.send_charge a card_token) w w' → Sends K T w' j a card_token)
    (h : ∀ w₁ w', Next K T j (.send_charge a card_token) w w₁ → w'.tx T = w.tx T →
      w'.db = w₁.db → w'.history = w₁.history → ok () w') :
    Keeps K T j ok err (send_charge a card_token) w := by
  intro w₁ hr c w₂ _ _ hx
  cases hx
  exact ⟨⟨.send a card_token rfl rfl rfl (hs w₁ ⟨hr.toLater, fun _ htx => hr.held htx⟩),
    .of_eq rfl rfl⟩,
    h w₁ _ ⟨hr.toLater, fun _ htx => hr.held htx⟩ hr.frame.tx rfl rfl⟩

/-! ### Statements -/

/-- A statement inside a transaction only adds to the transaction's writes. -/
theorem sql_within {s : Stmt} {ok : s.Result → World → Prop} {t : DateTime} {vs : List Write}
    (htx : w.tx T = some ⟨t, vs⟩) (herr : ∀ w', Next K T j (.sql s) w w' → err w')
    (h : ∀ c ws r w', Next K T j (.sql s) w w' → w'.tx T = some ⟨t, vs ++ ws⟩ →
      Stmt.run t c (applyAll w'.db vs) s = .ok (ws, r) → ok r w') :
    Keeps K T j ok err (sql s) w := by
  intro w₁ hr c w₂ r _ hx
  have htx₁ : w₁.tx T = some ⟨t, vs⟩ := hr.frame.tx.trans htx
  have hn := hr.next (w₁.le_elapse c.elapsed) rfl rfl rfl
  obtain ⟨e, rfl, rfl⟩ | ⟨ws, r', hrun, hrec, rfl⟩ := World.act_sql_cases hx
  · exact ⟨⟨.quiet rfl rfl rfl, .of_eq rfl rfl⟩, herr _ hn⟩
  · have hnow : w₁.now ≤ w₂.now := by rw [World.record_now hrec]; exact w₁.le_elapse _
    have hemits : Emits j w₁ w₂ := .of_eq (World.record_emits hrec).1 (World.record_emits hrec).2
    obtain ⟨-, hc, ⟨tx, ht, ht', hdb, hh⟩ | ⟨ht, -⟩ | ⟨ht, -⟩⟩ := World.record_cases hrec
    · obtain rfl : tx = ⟨t, vs⟩ := Option.some.inj (ht.symm.trans htx₁)
      refine ⟨⟨.quiet hdb hh hc, hemits⟩, h c ws r' w₂ (hr.next hnow hdb hh hc) ht' ?_⟩
      rw [← hrun, hdb]
      simp only [World.sql_now, Sessions.view, ht]
    · cases ht.symm.trans htx₁
    · cases ht.symm.trans htx₁

/-- A statement outside a transaction commits what it writes. -/
theorem sql_outside {s : Stmt} {ok : s.Result → World → Prop} (htx : w.tx T = none)
    (herr : ∀ w', Next K T j (.sql s) w w' → w'.tx T = none → err w')
    (h : ∀ c ws r w', Next K T j (.sql s) w w' → Stmt.run w'.now c w'.db s = .ok (ws, r) →
      (ws = [] → w'.tx T = none → ok r w') ∧
      (ws ≠ [] → Effect K T w'.history w'.db j ws ∧ ∀ w'', Settled T ws w' w'' → ok r w'')) :
    Keeps K T j ok err (sql s) w := by
  intro w₁ hr c w₂ r _ hx
  have htx₁ : w₁.tx T = none := hr.frame.tx.trans htx
  have hn := hr.next (w₁.le_elapse c.elapsed) rfl rfl rfl
  obtain ⟨e, rfl, rfl⟩ | ⟨ws, r', hrun, hrec, rfl⟩ := World.act_sql_cases hx
  · exact ⟨⟨.quiet rfl rfl rfl, .of_eq rfl rfl⟩, herr _ hn htx₁⟩
  · have htx₁' : (w₁.elapse c.elapsed).sessions.txs T = none := htx₁
    have hview : (w₁.elapse c.elapsed).sessions.view T = w₁.db := by
      rw [Sessions.view, htx₁']; rfl
    have hsql : (w₁.elapse c.elapsed).sql_now T = (w₁.elapse c.elapsed).now := by
      rw [World.sql_now, World.tx, htx₁']
    rw [hview, hsql] at hrun
    have hnow := World.record_now hrec
    have hemits : Emits j w₁ w₂ := .of_eq (World.record_emits hrec).1 (World.record_emits hrec).2
    obtain ⟨-, hc, ⟨t, ht, -⟩ | ⟨-, ht, rfl, hdb, hh⟩ | ⟨-, ht, hne, hdb, hh⟩⟩ :=
      World.record_cases hrec
    · cases ht.symm.trans htx₁
    · refine ⟨⟨.quiet hdb hh hc, hemits⟩, (h c [] r' w₂ (hr.next ?_ hdb hh hc) ?_).1 rfl ht⟩
      · rw [hnow]; exact w₁.le_elapse _
      · rw [hnow, hdb]; exact hrun
    · obtain ⟨he, hok⟩ := (h c ws r' (w₁.elapse c.elapsed) hn hrun).2 hne
      exact ⟨⟨.commit ws hdb hh hc he, hemits⟩, hok w₂ ⟨ht, hdb, hh, hc, Int.le_of_eq hnow.symm⟩⟩

/-- A query outside a transaction. -/
theorem sql_read {s : Stmt} {ok : s.Result → World → Prop} (htx : w.tx T = none)
    (herr : ∀ w', Next K T j (.sql s) w w' → w'.tx T = none → err w')
    (hread : ∀ now c db ws r, Stmt.run now c db s = .ok (ws, r) → ws = [])
    (h : ∀ c r w', Next K T j (.sql s) w w' → w'.tx T = none →
      Stmt.run w'.now c w'.db s = .ok ([], r) → ok r w') :
    Keeps K T j ok err (sql s) w := by
  refine sql_outside htx herr fun c ws r w' hn hrun => ?_
  obtain rfl := hread _ _ _ _ _ hrun
  exact ⟨fun _ htx' => h c r w' hn htx' hrun, fun hne => absurd rfl hne⟩

/-! ### Transactions -/

theorem begin_tx {ok : Unit → World → Prop} (htx : w.tx T = none)
    (herr : ∀ w', Next K T j .begin w w' → w'.tx T = none → err w')
    (h : ∀ w', Next K T j .begin w w' → w'.tx T = some ⟨w'.now, []⟩ → ok () w') :
    Keeps K T j ok err begin_tx w := by
  intro w₁ hr c w₂ r _ hx
  have htx₁ : w₁.tx T = none := hr.frame.tx.trans htx
  have hn := hr.next (w₁.le_elapse c.elapsed) rfl rfl rfl
  change (w₁.elapse c.elapsed).act T c .begin = _ at hx
  simp only [World.act] at hx
  split at hx
  · cases hx; exact ⟨⟨.quiet rfl rfl rfl, .of_eq rfl rfl⟩, herr _ hn htx₁⟩
  · cases hx
    exact ⟨⟨.quiet rfl rfl rfl, .of_eq rfl rfl⟩,
      h _ (hr.next (w₁.le_elapse c.elapsed) rfl rfl rfl) (Function.update_self ..)⟩

theorem rollback_tx {ok : Unit → World → Prop} (herr : ∀ w', err w')
    (h : ∀ w', Next K T j .rollback w w' → w'.tx T = none → ok () w') :
    Keeps K T j ok err rollback_tx w := by
  intro w₁ hr c w₂ r _ hx
  change (w₁.elapse c.elapsed).act T c .rollback = _ at hx
  simp only [World.act] at hx
  split at hx
  · cases hx; exact ⟨⟨.quiet rfl rfl rfl, .of_eq rfl rfl⟩, herr _⟩
  · cases hx
    exact ⟨⟨.quiet rfl rfl rfl, .of_eq rfl rfl⟩,
      h _ (hr.next (w₁.le_elapse c.elapsed) rfl rfl rfl) (Function.update_self ..)⟩

theorem rollback_if {ok : Unit → World → Prop} {bad : Prop} [Decidable bad] {e : AppError}
    (herr : ∀ w', err w') (h : ¬bad → ok () w) : Keeps K T j ok err (rollback_if bad e) w := by
  unfold Payman.rollback_if
  split
  · exact .seq (.rollback_tx herr fun w' _ _ => herr w')
  · rename_i hn; exact h hn

theorem drop_tx {ok : Unit → World → Prop}
    (h : ∀ w', Next K T j .drop w w' → w'.tx T = none → ok () w') :
    Keeps K T j ok err drop_tx w := by
  intro w₁ hr c w₂ r _ hx
  cases hx
  exact ⟨⟨.quiet rfl rfl rfl, .of_eq rfl rfl⟩,
    h _ (hr.next (w₁.le_elapse c.elapsed) rfl rfl rfl) (Function.update_self ..)⟩

theorem commit_tx {ok : Unit → World → Prop} (herr : ∀ w', Next K T j .commit w w' → err w')
    (h : Ready K T j w (ok ())) : Keeps K T j ok err commit_tx w := by
  intro w₁ hr c w₂ r _ hx
  obtain ⟨tx, htx, hready⟩ := h
  have htx₁ : (w₁.elapse c.elapsed).tx T = some tx := hr.frame.tx.trans htx
  change (w₁.elapse c.elapsed).act T c .commit = _ at hx
  have hn := hr.next (w₁.le_elapse c.elapsed) rfl rfl rfl
  simp only [World.act, htx₁] at hx
  split at hx
  · cases hx; exact ⟨⟨.quiet rfl rfl rfl, .of_eq rfl rfl⟩, herr _ hn⟩
  · cases hx
    obtain ⟨he, hok⟩ := hready (w₁.elapse c.elapsed) hn
    have hdb : ((w₁.elapse c.elapsed).commit T tx).db = applyAll w₁.db tx.writes := by
      show (w₁.elapse c.elapsed).sessions.view T = _
      rw [Sessions.view, show (w₁.elapse c.elapsed).sessions.txs T = some tx from htx₁]; rfl
    exact ⟨⟨.commit tx.writes hdb rfl rfl he, .of_eq rfl rfl⟩,
      hok _ ⟨Function.update_self .., hdb, rfl, rfl, Int.le_refl _⟩⟩

/-- A scope that owns the transaction ends without one, whatever happens in it. -/
theorem or_drop {ok : α → World → Prop} (err' : World → Prop) {body : App α}
    (herr : ∀ w' w'', err' w' → Next K T j .drop w' w'' → w''.tx T = none → err w'')
    (hbody : Keeps K T j ok err' body w) : Keeps K T j ok err (or_drop body) w := by
  refine Safe.bind (fun r w' h => ?_) hbody
  cases r with
  | ok a => exact h
  | error e =>
    have hdrop : Keeps K T j (fun _ => err) err Payman.drop_tx w' :=
      Keeps.drop_tx fun w'' hn htx => herr w' w'' h hn htx
    refine Safe.bind (fun r w'' h => ?_) hdrop
    cases r <;> exact h

/-- `begin`, a body, `commit`: the body's facts make the transaction ready to commit. -/
theorem transaction {ok : α → World → Prop} {body : App α} (htx : w.tx T = none)
    (herr : ∀ w', w'.tx T = none → err w')
    (hbody : ∀ w', Next K T j .begin w w' → w'.tx T = some ⟨w'.now, []⟩ →
      Keeps K T j (fun a w'' => Ready K T j w'' (ok a)) (fun _ => True) body w') :
    Keeps K T j ok err (transaction body) w := by
  refine seq (begin_tx htx (fun w' _ h => herr w' h) fun w' hn htx' => ?_)
  refine or_drop _ (fun _ w'' _ _ h => herr w'' h) (bind (hbody w' hn htx') fun a w'' hready => ?_)
  have hcommit : Keeps K T j (fun _ => ok a) (fun _ => True) Payman.commit_tx w'' :=
    commit_tx (fun _ _ => trivial) hready
  exact bind hcommit fun _ w₃ hok => hok

end Keeps

end Payman
