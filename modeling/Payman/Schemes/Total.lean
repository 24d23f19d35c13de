import Mathlib.Data.Nat.Notation
import Payman.Schemes.Rely

/-! Total correctness of a program that runs alone.

    `Ends post p s` says that from `s` on, whatever the environment chooses among the choices that
    are allowed, every operation can be executed, the program returns, and `post` holds of its
    result. -/

namespace Schemes

variable {S : Signature} {σ χ α β ε : Type}

/-- Run alone from `s`, the program returns with `post`. -/
def Ends (exec : (e : S.Op) → χ → σ → Option (σ × S.Reply e)) (allow : χ → Prop)
    (post : α → σ → Prop) : Prog S α → σ → Prop
  | .ret a, s => post a s
  | .op e k, s => ∀ c, allow c →
      ∃ s' r, exec e c s = some (s', r) ∧ Ends exec allow post (k r) s'

namespace Ends
variable {exec : (e : S.Op) → χ → σ → Option (σ × S.Reply e)} {allow : χ → Prop}
  {post : α → σ → Prop}

/-- Sequence. -/
theorem bind {mid : α → σ → Prop} {post : β → σ → Prop} {f : α → Prog S β}
    (hf : ∀ a s, mid a s → Ends exec allow post (f a) s) :
    ∀ {p : Prog S α} {s : σ}, Ends exec allow mid p s → Ends exec allow post (p >>= f) s
  | .ret a, s, h => hf a s h
  | .op _ _, _, h => fun c hc =>
    let ⟨s', r, hx, hk⟩ := h c hc
    ⟨s', r, hx, bind hf hk⟩

/-- Sequence for programs that may fail: an error skips the rest. -/
theorem bindE {mid : α → σ → Prop} {ok : β → σ → Prop} {err : σ → Prop} {x : ExceptT ε (Prog S) α}
    {f : α → ExceptT ε (Prog S) β} {s : σ} (hx : Ends exec allow (Safe.Either mid err) x.run s)
    (hf : ∀ a s, mid a s → Ends exec allow (Safe.Either ok err) (f a).run s) :
    Ends exec allow (Safe.Either ok err) (x >>= f).run s := by
  rw [ExceptT.run_bind]
  refine bind (fun r t hm => ?_) hx
  cases r with
  | ok a => exact hf a t hm
  | error e => exact hm

/-- A run that has returned ends in the postcondition. -/
theorem of_run : ∀ {p : Prog S α} {cs : List χ} {s s' : σ} {a : α}, Ends exec allow post p s →
    (∀ c ∈ cs, allow c) → p.run exec cs s = some (s', a) → post a s'
  | .ret a, cs, s, s', a', h, _, hrun => by
    simp only [Prog.run, Option.some.injEq, Prod.mk.injEq] at hrun
    obtain ⟨rfl, rfl⟩ := hrun
    exact h
  | .op e k, [], s, s', a', _, _, hrun => by simp [Prog.run] at hrun
  | .op e k, c :: cs, s, s', a', h, hall, hrun => by
    rw [List.forall_mem_cons] at hall
    obtain ⟨t, r, hx, hk⟩ := h c hall.1
    rw [Prog.run, hx] at hrun
    exact of_run hk hall.2 hrun

/-- Every sequence of choices is long enough at some point. -/
theorem returns : ∀ {p : Prog S α} {s : σ}, Ends exec allow post p s → ∀ f : ℕ → χ,
    (∀ n, allow (f n)) → ∃ n s' a, p.run exec ((List.range n).map f) s = some (s', a)
  | .ret a, s, _, f, _ => ⟨0, s, a, rfl⟩
  | .op e k, s, h, f, hf => by
    obtain ⟨t, r, hx, hk⟩ := h (f 0) (hf 0)
    obtain ⟨n, s', a, hrun⟩ := returns hk (fun n => f (n + 1)) fun n => hf (n + 1)
    refine ⟨n + 1, s', a, ?_⟩
    rw [List.range_succ_eq_map, List.map_cons, List.map_map, Prog.run, hx]
    exact hrun

end Ends

end Schemes
