import Mathlib.Data.Nat.Notation
import Payman.Schemes.Twin

/-! One run of a program that runs alone.

    `Solo post p s` says that whenever the program, run alone from `s` with choices that are each
    allowed where they are made, returns, `post` holds of its result and the final state. Nothing is
    said of an operation that cannot be executed; `Prog.returns` is for states in which all can. -/

namespace Schemes

variable {S : Signature} {σ χ α β ε : Type}

/-- Run alone from `s`, the program can only return with `post`. -/
def Solo (exec : (e : S.Op) → χ → σ → Option (σ × S.Reply e)) (allow : χ → σ → Prop)
    (post : α → σ → Prop) : Prog S α → σ → Prop
  | .ret a, s => post a s
  | .op e k, s => ∀ c s' r, allow c s → exec e c s = some (s', r) →
      Solo exec allow post (k r) s'

/-- `ok` of a result and `err` of an error. -/
def Upon (ok : α → σ → Prop) (err : ε → σ → Prop) : Except ε α → σ → Prop
  | .ok a, s => ok a s
  | .error e, s => err e s

namespace Solo
variable {exec : (e : S.Op) → χ → σ → Option (σ × S.Reply e)} {allow : χ → σ → Prop}
  {post : α → σ → Prop}

/-- Consequence. -/
theorem imp {post' : α → σ → Prop} (himp : ∀ a s, post a s → post' a s) :
    ∀ {p : Prog S α} {s : σ}, Solo exec allow post p s → Solo exec allow post' p s
  | .ret a, s, h => himp a s h
  | .op _ _, _, h => fun c s' r hc hx => imp himp (h c s' r hc hx)

/-- Sequence. -/
theorem bind {mid : α → σ → Prop} {post : β → σ → Prop} {f : α → Prog S β}
    (hf : ∀ a s, mid a s → Solo exec allow post (f a) s) :
    ∀ {p : Prog S α} {s : σ}, Solo exec allow mid p s → Solo exec allow post (p >>= f) s
  | .ret a, s, h => hf a s h
  | .op _ _, _, h => fun c s' r hc hx => bind hf (h c s' r hc hx)

theorem map {post : β → σ → Prop} {f : α → β} {p : Prog S α} {s : σ}
    (h : Solo exec allow (fun a => post (f a)) p s) : Solo exec allow post (f <$> p) s := by
  rw [← bind_pure_comp]
  exact bind (fun _ _ ha => ha) h

/-- Sequence for programs that may fail: an error skips the rest. -/
theorem bindE {mid : α → σ → Prop} {ok : β → σ → Prop} {err : ε → σ → Prop}
    {x : ExceptT ε (Prog S) α} {f : α → ExceptT ε (Prog S) β} {s : σ}
    (hx : Solo exec allow (Upon mid err) x.run s)
    (hf : ∀ a s, mid a s → Solo exec allow (Upon ok err) (f a).run s) :
    Solo exec allow (Upon ok err) (x >>= f).run s := by
  rw [ExceptT.run_bind]
  refine bind (fun r t hm => ?_) hx
  cases r with
  | ok a => exact hf a t hm
  | error e => exact hm

theorem mapE {ok : β → σ → Prop} {err : ε → σ → Prop} {x : ExceptT ε (Prog S) α} {f : α → β}
    {s : σ} (hx : Solo exec allow (Upon (fun a => ok (f a)) err) x.run s) :
    Solo exec allow (Upon ok err) (f <$> x).run s := by
  rw [← bind_pure_comp]
  exact bindE hx fun a t ha => ha

/-- A run that has returned ends in the postcondition. -/
theorem of_run : ∀ {p : Prog S α} {cs : List χ} {s s' : σ} {a : α}, Solo exec allow post p s →
    p.Along exec allow cs s → p.run exec cs s = some (s', a) → post a s'
  | .ret a, cs, s, s', a', h, _, hrun => by
    simp only [Prog.run, Option.some.injEq, Prod.mk.injEq] at hrun
    obtain ⟨rfl, rfl⟩ := hrun
    exact h
  | .op e k, [], s, s', a', _, _, hrun => by simp [Prog.run] at hrun
  | .op e k, c :: cs, s, s', a', h, ⟨hc, hrest⟩, hrun => by
    rw [Prog.run] at hrun
    split at hrun
    · cases hrun
    · rename_i s₁ r hx
      exact of_run (h c s₁ r hc hx) (hrest (s₁, r) hx) hrun

end Solo

/-- A condition on the choices alone. -/
theorem Prog.Along.of_all {exec : (e : S.Op) → χ → σ → Option (σ × S.Reply e)} {φ : χ → Prop} :
    ∀ {p : Prog S α} {cs : List χ} {s : σ}, (∀ c ∈ cs, φ c) → p.Along exec (fun c _ => φ c) cs s
  | .ret _, _, _, _ => trivial
  | .op _ _, [], _, _ => trivial
  | .op _ _, _ :: _, _, h =>
    have h := List.forall_mem_cons.mp h
    ⟨h.1, fun _ _ => of_all h.2⟩

/-- Where every operation can be executed, a program returns, and the clock of choices need only run
    long enough. -/
theorem Prog.returns {exec : (e : S.Op) → χ → σ → Option (σ × S.Reply e)} {inv : σ → Prop}
    (hstep : ∀ e c s, inv s → ∃ x, exec e c s = some x ∧ inv x.1) :
    ∀ (p : Prog S α) (s : σ), inv s → ∀ f : ℕ → χ,
      ∃ n s' a, p.run exec ((List.range n).map f) s = some (s', a) ∧ inv s'
  | .ret a, s, hs, _ => ⟨0, s, a, rfl, hs⟩
  | .op e k, s, hs, f => by
    obtain ⟨⟨t, r⟩, hx, ht⟩ := hstep e (f 0) s hs
    obtain ⟨n, s', a, hrun, hs'⟩ := returns hstep (k r) t ht fun n => f (n + 1)
    refine ⟨n + 1, s', a, ?_, hs'⟩
    rw [List.range_succ_eq_map, List.map_cons, List.map_map, Prog.run, hx]
    exact hrun

end Schemes
