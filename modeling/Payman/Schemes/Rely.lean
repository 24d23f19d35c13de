import Payman.Schemes.Program
import Mathlib.Logic.Relation

/-! Rely-guarantee reasoning for programs that share a state.

    Between two operations of a program its surroundings may change the shared state. `rely` bounds
    what they may do while a given operation is the next one; `guar` bounds what the program's own
    operations do. `Safe post p s` says that from `s` on, under any interference within `rely`,
    every operation that `p` issues keeps to `guar`, and a result is returned only in a state where
    `post` holds from then on.

    The assertion is about a state, not about all states that satisfy a precondition: a proof
    follows the program forwards and carries the facts it has read across `rely` as needed. -/

namespace Schemes

/-- What a process may count on and what it owes. `exec` is the meaning of an operation for one
    choice `χ` of the environment; `allow` limits the choices the environment may make; `rely` is
    indexed by the operation the process is about to issue, `none` once it has returned. -/
structure Contract (S : Signature) (σ χ : Type) where
  exec : (e : S.Op) → χ → σ → Option (σ × S.Reply e)
  allow : S.Op → χ → Prop
  rely : Option S.Op → σ → σ → Prop
  guar : σ → σ → Prop
  refl : ∀ e s, rely e s s
  trans : ∀ e s s' s'', rely e s s' → rely e s' s'' → rely e s s''

variable {S : Signature} {σ χ α β : Type} {C : Contract S σ χ}

/-- From state `s` the program keeps to its contract whatever the surroundings do. -/
def Safe (C : Contract S σ χ) (post : α → σ → Prop) : Prog S α → σ → Prop
  | .ret a, s => post a s
  | .op e k, s => ∀ s', C.rely (some e) s s' → ∀ c s'' r, C.allow e c →
      C.exec e c s' = some (s'', r) → C.guar s' s'' ∧ Safe C post (k r) s''

namespace Safe
variable {post : α → σ → Prop}

/-- Interference within `rely` does not harm a program that waits, nor a result whose postcondition
    is stable. -/
theorem mono (hstable : ∀ a s s', C.rely none s s' → post a s → post a s') {p : Prog S α} {s s' : σ}
    (h : Safe C post p s) (hr : C.rely p.head s s') : Safe C post p s' := by
  cases p with
  | ret a => exact hstable a s s' hr h
  | op e k => exact fun t ht => h t (C.trans _ _ _ _ hr ht)

/-- One operation of a safe program. -/
theorem next {e : S.Op} {k : S.Reply e → Prog S α} {s s' : σ} {c : χ} {r : S.Reply e}
    (h : Safe C post (.op e k) s) (ha : C.allow e c) (hx : C.exec e c s = some (s', r)) :
    C.guar s s' ∧ Safe C post (k r) s' :=
  h s (C.refl _ s) c s' r ha hx

/-- Consequence. -/
theorem imp {post' : α → σ → Prop} (himp : ∀ a s, post a s → post' a s) :
    ∀ {p : Prog S α} {s : σ}, Safe C post p s → Safe C post' p s
  | .ret a, s, h => himp a s h
  | .op _ _, _, h => fun t ht c t' r ha hx =>
    ⟨(h t ht c t' r ha hx).1, imp himp (h t ht c t' r ha hx).2⟩

/-- What everybody preserves still holds in the end. -/
theorem frame {φ : σ → Prop} (hrely : ∀ e s s', C.rely e s s' → φ s → φ s')
    (hguar : ∀ s s', C.guar s s' → φ s → φ s') : ∀ {p : Prog S α} {s : σ}, Safe C post p s → φ s →
    Safe C (fun a s => post a s ∧ φ s) p s
  | .ret _, _, h, hφ => ⟨h, hφ⟩
  | .op e _, s, h, hφ => fun t ht c t' r ha hx => by
    obtain ⟨hg, hk⟩ := h t ht c t' r ha hx
    exact ⟨hg, frame hrely hguar hk (hguar t t' hg (hrely (some e) s t ht hφ))⟩

/-- Sequence. -/
theorem bind {mid : α → σ → Prop} {post : β → σ → Prop} {f : α → Prog S β}
    (hf : ∀ a s, mid a s → Safe C post (f a) s) :
    ∀ {p : Prog S α} {s : σ}, Safe C mid p s → Safe C post (p >>= f) s
  | .ret a, s, h => hf a s h
  | .op _ _, _, h => fun t ht c t' r ha hx =>
    ⟨(h t ht c t' r ha hx).1, bind hf (h t ht c t' r ha hx).2⟩

theorem map {post : β → σ → Prop} {f : α → β} {p : Prog S α} {s : σ}
    (h : Safe C (fun a => post (f a)) p s) : Safe C post (f <$> p) s := by
  rw [← bind_pure_comp]
  exact bind (fun _ _ hp => hp) h

/-- A program that runs alone keeps to its contract throughout and ends in its postcondition. -/
theorem run : ∀ {p : Prog S α} {cs : List χ} {s s' : σ} {a : α}, Safe C post p s →
    (∀ e, ∀ c ∈ cs, C.allow e c) → p.run C.exec cs s = some (s', a) →
    Relation.ReflTransGen C.guar s s' ∧ post a s'
  | .ret a, cs, s, s', a', h, _, hrun => by
    simp only [Prog.run, Option.some.injEq, Prod.mk.injEq] at hrun
    obtain ⟨rfl, rfl⟩ := hrun
    exact ⟨.refl, h⟩
  | .op e k, [], s, s', a', _, _, hrun => by simp [Prog.run] at hrun
  | .op e k, c :: cs, s, s', a', h, hall, hrun => by
    rw [Prog.run] at hrun
    split at hrun
    · cases hrun
    · rename_i t r hx
      obtain ⟨hg, hk⟩ := h.next (hall e c (List.mem_cons_self ..)) hx
      have hrest := run hk (fun e' c' hc' => hall e' c' (List.mem_cons_of_mem _ hc')) hrun
      exact ⟨.head hg hrest.1, hrest.2⟩

/-! ### Programs that may fail -/

variable {ε : Type}

/-- What holds after a program that may fail: `ok a` after a result, `err` after an error. -/
def Either (ok : α → σ → Prop) (err : σ → Prop) : Except ε α → σ → Prop
  | .ok a, s => ok a s
  | .error _, s => err s

/-- Sequence for programs that may fail: an error skips the rest. -/
theorem bindE {mid : α → σ → Prop} {ok : β → σ → Prop} {err : σ → Prop} {x : ExceptT ε (Prog S) α}
    {f : α → ExceptT ε (Prog S) β} {s : σ} (hx : Safe C (Either mid err) x.run s)
    (hf : ∀ a s, mid a s → Safe C (Either ok err) (f a).run s) :
    Safe C (Either ok err) (x >>= f).run s := by
  rw [ExceptT.run_bind]
  refine bind (fun r t hm => ?_) hx
  cases r with
  | ok a => exact hf a t hm
  | error e => exact hm

theorem mapE {ok : β → σ → Prop} {err : σ → Prop} {x : ExceptT ε (Prog S) α} {f : α → β} {s : σ}
    (hx : Safe C (Either (fun a => ok (f a)) err) x.run s) :
    Safe C (Either ok err) (f <$> x).run s := by
  rw [← bind_pure_comp]
  exact bindE hx fun a t ha => ha

end Safe

end Schemes
