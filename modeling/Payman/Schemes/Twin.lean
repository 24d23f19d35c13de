import Payman.Schemes.Rely

/-! Two runs of one program.

    `Twin post p (s, t)` says that whenever the program is run alone from `s` and from `t` with the
    same choices, each allowed where it is made, the run from `t` does what the run from `s` does:
    every operation gets the same reply, the same result is returned, and `post` holds of it and
    the two final states. -/

namespace Schemes

variable {S : Signature} {σ χ α β ε : Type}

/-- Every choice of a run is allowed in the state in which it is made. -/
def Prog.Along (exec : (e : S.Op) → χ → σ → Option (σ × S.Reply e)) (allow : χ → σ → Prop) :
    Prog S α → List χ → σ → Prop
  | .ret _, _, _ => True
  | .op _ _, [], _ => True
  | .op e k, c :: cs, s => allow c s ∧ ∀ x ∈ exec e c s, (k x.2).Along exec allow cs x.1

instance Prog.decidableAlong (exec : (e : S.Op) → χ → σ → Option (σ × S.Reply e))
    (allow : χ → σ → Prop) [∀ c s, Decidable (allow c s)] :
    ∀ (p : Prog S α) (cs : List χ) (s : σ), Decidable (p.Along exec allow cs s)
  | .ret _, _, _ => .isTrue trivial
  | .op _ _, [], _ => .isTrue trivial
  | .op e k, c :: cs, s =>
    have : ∀ x : σ × S.Reply e, Decidable ((k x.2).Along exec allow cs x.1) := fun x =>
      decidableAlong exec allow (k x.2) cs x.1
    inferInstanceAs (Decidable (allow c s ∧ ∀ x ∈ exec e c s, (k x.2).Along exec allow cs x.1))

/-- The run from the second state follows the run from the first one. -/
def Twin (exec : (e : S.Op) → χ → σ → Option (σ × S.Reply e)) (allow : χ → σ → Prop)
    (post : α → σ × σ → Prop) : Prog S α → σ × σ → Prop
  | .ret a, s => post a s
  | .op e k, s => ∀ c s' r, allow c s.1 → allow c s.2 → exec e c s.1 = some (s', r) →
      ∃ t', exec e c s.2 = some (t', r) ∧ Twin exec allow post (k r) (s', t')

namespace Twin
variable {exec : (e : S.Op) → χ → σ → Option (σ × S.Reply e)} {allow : χ → σ → Prop}
  {post : α → σ × σ → Prop}

/-- Consequence. -/
theorem imp {post' : α → σ × σ → Prop} (himp : ∀ a s, post a s → post' a s) :
    ∀ {p : Prog S α} {s : σ × σ}, Twin exec allow post p s → Twin exec allow post' p s
  | .ret a, s, h => himp a s h
  | .op _ _, _, h => fun c s' r h₁ h₂ hx =>
    let ⟨t', ht, hk⟩ := h c s' r h₁ h₂ hx
    ⟨t', ht, imp himp hk⟩

/-- Sequence. -/
theorem bind {mid : α → σ × σ → Prop} {post : β → σ × σ → Prop} {f : α → Prog S β}
    (hf : ∀ a s, mid a s → Twin exec allow post (f a) s) :
    ∀ {p : Prog S α} {s : σ × σ}, Twin exec allow mid p s → Twin exec allow post (p >>= f) s
  | .ret a, s, h => hf a s h
  | .op _ _, _, h => fun c s' r h₁ h₂ hx =>
    let ⟨t', ht, hk⟩ := h c s' r h₁ h₂ hx
    ⟨t', ht, bind hf hk⟩

theorem map {post : β → σ × σ → Prop} {f : α → β} {p : Prog S α} {s : σ × σ}
    (h : Twin exec allow (fun a => post (f a)) p s) : Twin exec allow post (f <$> p) s := by
  rw [← bind_pure_comp]
  exact bind (fun _ _ ha => ha) h

/-- Sequence for programs that may fail: an error skips the rest. -/
theorem bindE {mid : α → σ × σ → Prop} {ok : β → σ × σ → Prop} {err : σ × σ → Prop}
    {x : ExceptT ε (Prog S) α} {f : α → ExceptT ε (Prog S) β} {s : σ × σ}
    (hx : Twin exec allow (Safe.Either mid err) x.run s)
    (hf : ∀ a s, mid a s → Twin exec allow (Safe.Either ok err) (f a).run s) :
    Twin exec allow (Safe.Either ok err) (x >>= f).run s := by
  rw [ExceptT.run_bind]
  refine bind (fun r t hm => ?_) hx
  cases r with
  | ok a => exact hf a t hm
  | error e => exact hm

theorem mapE {ok : β → σ × σ → Prop} {err : σ × σ → Prop} {x : ExceptT ε (Prog S) α} {f : α → β}
    {s : σ × σ} (hx : Twin exec allow (Safe.Either (fun a => ok (f a)) err) x.run s) :
    Twin exec allow (Safe.Either ok err) (f <$> x).run s := by
  rw [← bind_pure_comp]
  exact bindE hx fun a t ha => ha

/-- A run that returns has a twin that returns the same. -/
theorem run : ∀ {p : Prog S α} {cs : List χ} {s t s' : σ} {a : α}, Twin exec allow post p (s, t) →
    p.Along exec allow cs s → p.Along exec allow cs t → p.run exec cs s = some (s', a) →
    ∃ t', p.run exec cs t = some (t', a) ∧ post a (s', t')
  | .ret a, cs, s, t, s', a', h, _, _, hrun => by
    simp only [Prog.run, Option.some.injEq, Prod.mk.injEq] at hrun
    obtain ⟨rfl, rfl⟩ := hrun
    exact ⟨t, rfl, h⟩
  | .op e k, [], s, t, s', a', _, _, _, hrun => by simp [Prog.run] at hrun
  | .op e k, c :: cs, s, t, s', a', h, ⟨hs, hs'⟩, ⟨ht, ht'⟩, hrun => by
    rw [Prog.run] at hrun
    split at hrun
    · cases hrun
    · rename_i s₁ r hx
      obtain ⟨t₁, hy, hk⟩ := h c s₁ r hs ht hx
      obtain ⟨t', hrest, hpost⟩ := run hk (hs' (s₁, r) hx) (ht' (t₁, r) hy) hrun
      refine ⟨t', ?_, hpost⟩
      rw [Prog.run, hy]
      exact hrest

end Twin

end Schemes
