import Payman.Schemes.Rely

/-! Programs that follow a protocol.

    A protocol is an automaton over operations and their replies. A program follows it from a phase
    if the automaton can take every operation that the program issues, whatever the reply, and is in
    a final phase when the program returns. The phase then says where a process is in its program,
    in terms of what it has done and not of the text that is left. -/

namespace Schemes

variable {S : Signature} {X α β ε : Type}

/-- From phase `x` on, the program does what `R` allows and ends in a phase that `fin` admits. -/
def Follows (R : X → (e : S.Op) → S.Reply e → X → Prop) (fin : α → X → Prop) : Prog S α → X → Prop
  | .ret a, x => fin a x
  | .op e k, x => ∀ r, ∃ x', R x e r x' ∧ Follows R fin (k r) x'

namespace Follows
variable {R : X → (e : S.Op) → S.Reply e → X → Prop}

theorem imp {fin fin' : α → X → Prop} (himp : ∀ a x, fin a x → fin' a x) :
    ∀ {p : Prog S α} {x : X}, Follows R fin p x → Follows R fin' p x
  | .ret a, x, h => himp a x h
  | .op _ _, _, h => fun r =>
    let ⟨x', hR, hk⟩ := h r
    ⟨x', hR, imp himp hk⟩

/-- In a phase that every operation may leave as it is, every program stays. -/
theorem stays {x : X} (hx : ∀ e r, R x e r x) : ∀ p : Prog S α, Follows R (fun _ y => y = x) p x
  | .ret _ => rfl
  | .op e k => fun r => ⟨x, hx e r, stays hx (k r)⟩

/-- Sequence. -/
theorem bind {mid : α → X → Prop} {fin : β → X → Prop} {f : α → Prog S β}
    (hf : ∀ a x, mid a x → Follows R fin (f a) x) :
    ∀ {p : Prog S α} {x : X}, Follows R mid p x → Follows R fin (p >>= f) x
  | .ret a, x, h => hf a x h
  | .op _ _, _, h => fun r =>
    let ⟨x', hR, hk⟩ := h r
    ⟨x', hR, bind hf hk⟩

/-- Sequence for programs that may fail: an error skips the rest. -/
theorem bindE {mid : α → X → Prop} {ok : β → X → Prop} {err : X → Prop}
    {m : ExceptT ε (Prog S) α} {f : α → ExceptT ε (Prog S) β} {x : X}
    (hm : Follows R (Safe.Either mid err) m.run x)
    (hf : ∀ a x, mid a x → Follows R (Safe.Either ok err) (f a).run x) :
    Follows R (Safe.Either ok err) (m >>= f).run x := by
  rw [ExceptT.run_bind]
  refine bind (fun r t hr => ?_) hm
  cases r with
  | ok a => exact hf a t hr
  | error e => exact hr

/-- Sequence, read forwards: after `m` the rest has to follow the protocol. -/
theorem seqE {ok : β → X → Prop} {err : X → Prop} {m : ExceptT ε (Prog S) α}
    {f : α → ExceptT ε (Prog S) β} {x : X}
    (hm : Follows R (Safe.Either (fun a x => Follows R (Safe.Either ok err) (f a).run x) err)
      m.run x) : Follows R (Safe.Either ok err) (m >>= f).run x := bindE hm fun _ _ h => h

/-- Sequence after a program that ends in the phase `y` whether it fails or not. -/
theorem thenE {ok : β → X → Prop} {err : X → Prop} {m : ExceptT ε (Prog S) α}
    {f : α → ExceptT ε (Prog S) β} {x y : X} (hm : Follows R (fun _ z => z = y) m.run x)
    (herr : err y) (hf : ∀ a, Follows R (Safe.Either ok err) (f a).run y) :
    Follows R (Safe.Either ok err) (m >>= f).run x := by
  rw [ExceptT.run_bind]
  refine bind (fun r z hz => ?_) hm
  subst hz
  cases r with
  | ok a => exact hf a
  | error e => exact herr

/-- Sequence after a program that ends in the phase `y`, or in `z` if it fails. -/
theorem elseE {ok : β → X → Prop} {err : X → Prop} {m : ExceptT ε (Prog S) α}
    {f : α → ExceptT ε (Prog S) β} {x y z : X}
    (hm : Follows R (Safe.Either (fun _ t => t = y) fun t => t = z) m.run x) (herr : err z)
    (hf : ∀ a, Follows R (Safe.Either ok err) (f a).run y) :
    Follows R (Safe.Either ok err) (m >>= f).run x := by
  rw [ExceptT.run_bind]
  refine bind (fun r t ht => ?_) hm
  cases r with
  | ok a =>
    obtain rfl : t = y := ht
    exact hf a
  | error e =>
    obtain rfl : t = z := ht
    exact herr

/-- A check stays in its phase, and has made sure of `φ` if it does not fail. -/
abbrev Ensures (x : X) (φ : Prop) : Except ε α → X → Prop :=
  Safe.Either (fun _ y => y = x ∧ φ) fun _ => True

/-- What a check makes sure of may be weakened. -/
theorem ensures {φ ψ : Prop} {m : ExceptT ε (Prog S) α} {x : X} (himp : φ → ψ)
    (hm : Follows R (Ensures x φ) m.run x) : Follows R (Ensures x ψ) m.run x := by
  refine imp (fun r y hy => ?_) hm
  cases r with
  | ok a => exact ⟨hy.1, himp hy.2⟩
  | error e => trivial

/-- Sequence after a check: the rest may rely on it. -/
theorem checkE {φ : Prop} {ok : β → X → Prop} {m : ExceptT ε (Prog S) α}
    {f : α → ExceptT ε (Prog S) β} {x : X} (hm : Follows R (Ensures x φ) m.run x)
    (hf : φ → ∀ a, Follows R (Safe.Either ok fun _ => True) (f a).run x) :
    Follows R (Safe.Either ok fun _ => True) (m >>= f).run x :=
  bindE hm fun a y ⟨hy, hφ⟩ => by
    subst hy
    exact hf hφ a

/-- A program that ends in the phase `y` after a result and after an error. -/
theorem ends {m : ExceptT ε (Prog S) α} {x y : X}
    (hm : Follows R (Safe.Either (fun _ z => z = y) fun z => z = y) m.run x) :
    Follows R (fun _ z => z = y) m.run x := by
  refine imp (fun r z hz => ?_) hm
  cases r <;> exact hz

/-- The same, read backwards. -/
theorem either {m : ExceptT ε (Prog S) α} {x y : X} (hm : Follows R (fun _ z => z = y) m.run x) :
    Follows R (Safe.Either (fun _ z => z = y) fun z => z = y) m.run x := by
  refine imp (fun r z hz => ?_) hm
  cases r <;> exact hz

theorem mapE {ok : β → X → Prop} {err : X → Prop} {m : ExceptT ε (Prog S) α} {f : α → β} {x : X}
    (hm : Follows R (Safe.Either (fun a => ok (f a)) err) m.run x) :
    Follows R (Safe.Either ok err) (f <$> m).run x := by
  rw [← bind_pure_comp]
  exact bindE hm fun a t ha => ha

/-- The result of a program may be mapped where the last phase does not depend on it. -/
theorem map {fin : X → Prop} {m : ExceptT ε (Prog S) α} {f : α → β} {x : X}
    (hm : Follows R (fun _ => fin) m.run x) : Follows R (fun _ => fin) (f <$> m).run x := by
  have hboth : Follows R (Safe.Either (fun _ => fin) fin) m.run x := hm.imp fun r _ h => by
    cases r <;> exact h
  have hmap : Follows R (Safe.Either (fun _ => fin) fin) (f <$> m).run x := mapE hboth
  refine hmap.imp fun r _ h => ?_
  cases r <;> exact h

end Follows

end Schemes
