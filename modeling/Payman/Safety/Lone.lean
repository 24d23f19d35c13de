import Payman.Schemes.Total
import Payman.Safety.Contract
import Payman.Safety.Statements

/-! Programs of a process that is not disturbed.

    The counterpart of the contract's rules for a process that runs alone, whose database calls do
    not fail and whose calls to the PSP are all answered `ans`: every operation can be executed, and
    a rule gives the state in which the rest of the program goes on. -/

namespace Payman
open Schemes

variable {p : Pid} {ans : Answer} {w : World} {α β : Type} {err : World → Prop}

/-- No database call fails, and the PSP answers `ans`. -/
def Steady (ans : Answer) (c : Choice) : Prop := c.fail = false ∧ c.answer = ans

/-- Alone from `w`, `x` ends in `ok` when it succeeds and in `err` when it fails. -/
abbrev Lone {α : Type} (p : Pid) (ans : Answer) (ok : α → World → Prop) (err : World → Prop)
    (x : App α) (w : World) : Prop :=
  Ends (World.exec p) (Steady ans) (Safe.Either ok err) x.run w

/-- From `w` to `w'` nothing was committed, and what `p` may lock is the same. -/
structure Along (p : Pid) (w w' : World) : Prop where
  db : w'.db = w.db
  unlocked : ∀ k, w'.Unlocked p k ↔ w.Unlocked p k

theorem Along.trans {w' w'' : World} (h : Along p w w') (h' : Along p w' w'') : Along p w w'' :=
  ⟨h'.db.trans h.db, fun k => (h'.unlocked k).trans (h.unlocked k)⟩

theorem Along.of_exec {e : Eff} {c : Choice} {w' : World} {r : e.Reply}
    (hx : w.exec p e c = some (w', r)) (hdb : w'.db = w.db) : Along p w w' :=
  ⟨hdb, fun _ => World.exec_unlocked hx⟩

namespace Lone

theorem bind {mid : α → World → Prop} {ok : β → World → Prop} {x : App α} {f : α → App β}
    (hx : Lone p ans mid err x w) (hf : ∀ a w', mid a w' → Lone p ans ok err (f a) w') :
    Lone p ans ok err (x >>= f) w := Ends.bindE hx hf

/-- Sequence, read forwards. -/
theorem seq {ok : β → World → Prop} {x : App α} {f : α → App β}
    (hx : Lone p ans (fun a w' => Lone p ans ok err (f a) w') err x w) :
    Lone p ans ok err (x >>= f) w := bind hx fun _ _ h => h

theorem pure {ok : α → World → Prop} {a : α} (h : ok a w) :
    Lone p ans ok err (Pure.pure a : App α) w := h

theorem fetch_one {ok : α → World → Prop} {a : α} (h : ok a w) :
    Lone p ans ok err (fetch_one (some a)) w := h

theorem rollback_if {ok : Unit → World → Prop} {bad : Prop} [Decidable bad] {e : AppError}
    (hbad : ¬bad) (h : ok () w) : Lone p ans ok err (rollback_if bad e) w := by
  unfold Payman.rollback_if
  rw [if_neg hbad]
  exact h

/-! ### Operations -/

theorem begin_tx {ok : Unit → World → Prop}
    (h : ∀ t w', Along p w w' → w'.tx p = some ⟨t, []⟩ → ok () w') :
    Lone p ans ok err begin_tx w := by
  intro c hc
  obtain ⟨w', t, hx, htx, hdb⟩ := World.exec_begin (p := p) (w := w) hc.1
  exact ⟨w', _, hx, h t w' (.of_exec hx hdb) htx⟩

/-- A statement of a transaction that waits for nobody. -/
theorem sql_within {s : Stmt} {ok : s.Result → World → Prop} {t : DateTime} {vs ws : List Write}
    {r : s.Result} (htx : w.tx p = some ⟨t, vs⟩) (hfree : w.sessions.Free p ws)
    (hrun : ∀ c, s.run t c (applyAll w.db vs) = .ok (ws, r))
    (h : ∀ w', Along p w w' → w'.tx p = some ⟨t, vs ++ ws⟩ → ok r w') :
    Lone p ans ok err (sql s) w := by
  intro c hc
  obtain ⟨w', hx, htx', hdb⟩ := World.exec_stage htx hc.1 hfree (hrun c)
  exact ⟨w', _, hx, h w' (.of_exec hx hdb) htx'⟩

/-- A statement of a transaction that the database refuses. -/
theorem sql_refused {s : Stmt} {ok : s.Result → World → Prop} {t : DateTime} {vs : List Write}
    {e : DbError} (htx : w.tx p = some ⟨t, vs⟩)
    (hrun : ∀ c, s.run t c (applyAll w.db vs) = .error e)
    (h : ∀ w', Along p w w' → err w') : Lone p ans ok err (sql s) w := by
  intro c hc
  have hx := World.exec_refused htx hc.1 (hrun c)
  exact ⟨_, _, hx, h _ (.of_exec hx rfl)⟩

/-- A query outside a transaction. -/
theorem sql_read {s : Stmt} {ok : s.Result → World → Prop} {r : s.Result} (htx : w.tx p = none)
    (hrun : ∀ now c, s.run now c w.db = .ok ([], r)) (h : ∀ w', Along p w w' → ok r w') :
    Lone p ans ok err (sql s) w := by
  intro c hc
  have hx := World.exec_query htx hc.1 (hrun (w.now + c.elapsed) c)
  exact ⟨_, _, hx, h _ (.of_exec hx rfl)⟩

theorem commit_tx {ok : Unit → World → Prop} {t : DateTime} {ws : List Write}
    (htx : w.tx p = some ⟨t, ws⟩)
    (h : ∀ w', w'.db = applyAll w.db ws → w'.tx p = none → ok () w') :
    Lone p ans ok err commit_tx w := by
  intro c hc
  obtain ⟨w', hx, htx', hdb⟩ := World.exec_commit htx hc.1
  exact ⟨w', _, hx, h w' hdb htx'⟩

theorem drop_tx {ok : Unit → World → Prop} (h : ∀ w', w'.db = w.db → ok () w') :
    Lone p ans ok err drop_tx w := fun _ _ => ⟨_, _, rfl, h _ rfl⟩

/-- A scope that owns the transaction: an error drops it. -/
theorem or_drop {ok : α → World → Prop} (err' : World → Prop) {body : App α}
    (herr : ∀ w' w'', err' w' → w''.db = w'.db → err w'')
    (hbody : Lone p ans ok err' body w) : Lone p ans ok err (or_drop body) w := by
  refine Ends.bind (fun r w' h => ?_) hbody
  cases r with
  | ok a => exact h
  | error e =>
    have hdrop : Lone p ans (fun _ => err) err Payman.drop_tx w' :=
      drop_tx fun w'' hdb => herr w' w'' h hdb
    refine Ends.bind (fun r w'' h => ?_) hdrop
    cases r <;> exact h

theorem spawn_dispatch {ok : Unit → World → Prop} {b i : Uuid} {event_type : String}
    (h : ∀ w', w'.db = w.db → ok () w') :
    Lone p ans ok err (spawn_dispatch b i event_type) w := fun _ _ => ⟨_, _, rfl, h _ rfl⟩

theorem send_charge {ok : Unit → World → Prop} {a : Uuid} {card_token : String}
    (h : ∀ w', Along p w w' → w'.tx p = w.tx p → ok () w') :
    Lone p ans ok err (send_charge a card_token) w := by
  intro c _
  have hx : w.exec p (.send_charge a card_token) c = some _ := rfl
  exact ⟨_, _, hx, h _ (.of_exec hx rfl) rfl⟩

theorem recv_charge {ok : Answer → World → Prop} {a : Uuid}
    (h : ∀ w', Along p w w' → w'.tx p = w.tx p → ok ans w') :
    Lone p ans ok err (recv_charge a) w := by
  intro c hc
  have hx : w.exec p (.recv_charge a) c = some (w.elapse c.elapsed, ans) := by rw [← hc.2]; rfl
  exact ⟨_, _, hx, h _ (.of_exec hx rfl) rfl⟩

theorem get_charge {ok : Answer → World → Prop} {a : Uuid}
    (h : ∀ w', Along p w w' → w'.tx p = w.tx p → ok ans w') :
    Lone p ans ok err (get_charge a) w := by
  intro c hc
  have hx : w.exec p (.get_charge a) c = some (w.elapse c.elapsed, ans) := by rw [← hc.2]; rfl
  exact ⟨_, _, hx, h _ (.of_exec hx rfl) rfl⟩

end Lone

end Payman
