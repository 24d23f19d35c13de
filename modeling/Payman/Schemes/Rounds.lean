import Payman.Schemes.Program

/-! The rounds of a loop in a program that runs alone.

    `play` is `run` with the choices that are left over. A loop runs `body` on one item after the
    other until a result tells it to stop; a run of it is a chain of rounds, one an item, in which
    the states and the choices are handed on. -/

namespace Schemes

variable {S : Signature} {ι σ χ α β ε : Type}
  {exec : (e : S.Op) → χ → σ → Option (σ × S.Reply e)}

namespace Prog

/-- Execute a program alone: the final state, the result, and the choices it has not used. -/
def play (exec : (e : S.Op) → χ → σ → Option (σ × S.Reply e)) :
    Prog S α → List χ → σ → Option (σ × α × List χ)
  | .ret a, cs, s => some (s, a, cs)
  | .op _ _, [], _ => none
  | .op e k, c :: cs, s =>
    match exec e c s with
    | none => none
    | some (s', r) => play exec (k r) cs s'

theorem run_iff_play : ∀ {p : Prog S α} {cs : List χ} {s s' : σ} {a : α},
    p.run exec cs s = some (s', a) ↔ ∃ rest, p.play exec cs s = some (s', a, rest)
  | .ret _, _, _, _, _ => by simp [run, play]
  | .op _ _, [], _, _, _ => by simp [run, play]
  | .op e k, c :: cs, s, s', a => by
    rw [run, play]
    cases exec e c s with
    | none => simp
    | some x => exact run_iff_play

theorem play_op {e : S.Op} {k : S.Reply e → Prog S α} {cs rest : List χ} {s s' : σ} {a : α}
    (h : (Prog.op e k).play exec cs s = some (s', a, rest)) :
    ∃ c cs' s₁ r, cs = c :: cs' ∧ exec e c s = some (s₁, r) ∧
      (k r).play exec cs' s₁ = some (s', a, rest) := by
  cases cs with
  | nil => cases h
  | cons c cs' =>
    rw [play] at h
    split at h
    · cases h
    · rename_i s₁ r hx
      exact ⟨c, cs', s₁, r, rfl, hx, h⟩

/-- Sequence. -/
theorem play_bind_eq {f : α → Prog S β} : ∀ (p : Prog S α) (cs : List χ) (s : σ),
    (p >>= f).play exec cs s = (p.play exec cs s).bind fun x => (f x.2.1).play exec x.2.2 x.1
  | .ret _, _, _ => rfl
  | .op _ _, [], _ => rfl
  | .op e k, c :: cs, s => by
    rw [op_bind, play, play]
    cases exec e c s with
    | none => rfl
    | some x => exact play_bind_eq (k x.2) cs x.1

theorem play_bind {p : Prog S α} {f : α → Prog S β} {cs rest : List χ} {s s' : σ} {b : β}
    (h : (p >>= f).play exec cs s = some (s', b, rest)) :
    ∃ s₁ a cs₁, p.play exec cs s = some (s₁, a, cs₁) ∧
      (f a).play exec cs₁ s₁ = some (s', b, rest) := by
  rw [play_bind_eq] at h
  obtain ⟨x, hp, hf⟩ := Option.bind_eq_some_iff.mp h
  exact ⟨x.1, x.2.1, x.2.2, hp, hf⟩

/-- Sequence for programs that may fail: an error skips the rest. -/
theorem play_bindE {x : ExceptT ε (Prog S) α} {f : α → ExceptT ε (Prog S) β} {cs rest : List χ}
    {s s' : σ} {b : Except ε β} (h : (x >>= f).run.play exec cs s = some (s', b, rest)) :
    ∃ s₁ a cs₁, x.run.play exec cs s = some (s₁, a, cs₁) ∧
      ((∃ v, a = .ok v ∧ (f v).run.play exec cs₁ s₁ = some (s', b, rest)) ∨
        ∃ e, a = .error e ∧ b = .error e ∧ s' = s₁ ∧ rest = cs₁) := by
  rw [ExceptT.run_bind] at h
  obtain ⟨s₁, a, cs₁, hx, hf⟩ := play_bind h
  refine ⟨s₁, a, cs₁, hx, ?_⟩
  cases a with
  | ok v => exact .inl ⟨v, rfl, hf⟩
  | error e =>
    cases hf
    exact .inr ⟨e, rfl, rfl, rfl, rfl⟩

/-- A preorder that every operation respects. -/
theorem play_mono {R : σ → σ → Prop} (hrefl : ∀ s, R s s)
    (htrans : ∀ s t u, R s t → R t u → R s u)
    (hstep : ∀ e c s s' r, exec e c s = some (s', r) → R s s') :
    ∀ {p : Prog S α} {cs rest : List χ} {s s' : σ} {a : α},
      p.play exec cs s = some (s', a, rest) → R s s'
  | .ret _, _, _, s, _, _, h => by
    cases h
    exact hrefl s
  | .op _ _, _, _, s, s', _, h => by
    obtain ⟨c, cs', s₁, r, rfl, hx, h⟩ := play_op h
    exact htrans s s₁ s' (hstep _ c s s₁ r hx) (play_mono hrefl htrans hstep h)

/-- The two cases of `play_bindE` when the result of the first program is known. -/
theorem rest_of_ok {v : α} {P : α → Prop} {Q : ε → Prop}
    (h : (∃ u, (.ok v : Except ε α) = .ok u ∧ P u) ∨ ∃ e, (.ok v : Except ε α) = .error e ∧ Q e) :
    P v := by
  obtain ⟨u, hu, h⟩ | ⟨e, hno, -⟩ := h
  · cases hu
    exact h
  · cases hno

theorem rest_of_error {e : ε} {P : α → Prop} {Q : ε → Prop}
    (h : (∃ u, (.error e : Except ε α) = .ok u ∧ P u) ∨
      ∃ e', (.error e : Except ε α) = .error e' ∧ Q e') : Q e := by
  obtain ⟨u, hno, -⟩ | ⟨e', he, h⟩ := h
  · cases hno
  · cases he
    exact h

theorem play_bindE_ok {x : ExceptT ε (Prog S) α} {f : α → ExceptT ε (Prog S) β} {cs cs₁ : List χ}
    {s s₁ : σ} {v : α} (h : x.run.play exec cs s = some (s₁, .ok v, cs₁)) :
    (x >>= f).run.play exec cs s = (f v).run.play exec cs₁ s₁ := by
  rw [ExceptT.run_bind, play_bind_eq, h]
  rfl

/-- Run `body` on the items in order until a result is a reason to stop; `b` if none is. -/
def loop (body : ι → Prog S α) (stop : α → Option β) (b : β) : List ι → Prog S β
  | [] => .ret b
  | x :: xs => body x >>= fun a => (stop a).elim (loop body stop b xs) .ret

end Prog

/-- One round of a loop. -/
structure Round (ι χ σ α : Type) where
  item : ι
  /-- The choices from this round on. -/
  choices : List χ
  before : σ
  result : α
  after : σ
  rest : List χ

/-- In the round `body` was run on the item. -/
def Round.Ran (exec : (e : S.Op) → χ → σ → Option (σ × S.Reply e)) (body : ι → Prog S α)
    (r : Round ι χ σ α) : Prop :=
  (body r.item).play exec r.choices r.before = some (r.after, r.result, r.rest)

/-- The rounds lead from `s` with the choices `cs` to `s'` with the choices `cs'`. -/
def Rounds (exec : (e : S.Op) → χ → σ → Option (σ × S.Reply e)) (body : ι → Prog S α) :
    List (Round ι χ σ α) → List χ → σ → List χ → σ → Prop
  | [], cs, s, cs', s' => cs' = cs ∧ s' = s
  | r :: rs, cs, s, cs', s' =>
    r.choices = cs ∧ r.before = s ∧ r.Ran exec body ∧ Rounds exec body rs r.rest r.after cs' s'

namespace Rounds
variable {body : ι → Prog S α} {rs rs' : List (Round ι χ σ α)} {r : Round ι χ σ α}
  {cs cs' : List χ} {s s' : σ}

theorem append_iff : ∀ {rs : List (Round ι χ σ α)} {cs : List χ} {s : σ},
    Rounds exec body (rs ++ rs') cs s cs' s' ↔
      ∃ cs₁ s₁, Rounds exec body rs cs s cs₁ s₁ ∧ Rounds exec body rs' cs₁ s₁ cs' s'
  | [], cs, s => by
    constructor
    · exact fun h => ⟨cs, s, ⟨rfl, rfl⟩, h⟩
    · rintro ⟨_, _, ⟨rfl, rfl⟩, h⟩
      exact h
  | r :: rs, cs, s => by
    rw [List.cons_append, Rounds, append_iff]
    constructor
    · rintro ⟨hc, hb, hr, cs₁, s₁, h, h'⟩
      exact ⟨cs₁, s₁, ⟨hc, hb, hr, h⟩, h'⟩
    · rintro ⟨cs₁, s₁, ⟨hc, hb, hr, h⟩, h'⟩
      exact ⟨hc, hb, hr, cs₁, s₁, h, h'⟩

/-- Before and after one of the rounds. -/
theorem split (h : Rounds exec body (rs ++ r :: rs') cs s cs' s') :
    Rounds exec body rs cs s r.choices r.before ∧ r.Ran exec body ∧
      Rounds exec body rs' r.rest r.after cs' s' := by
  obtain ⟨cs₁, s₁, h₁, hc, hb, hr, h₂⟩ := append_iff.mp h
  subst hc hb
  exact ⟨h₁, hr, h₂⟩

/-- CORRECT: a run of a loop is a chain of rounds on its items in order. All items have had theirs,
    or the last round was a reason to stop. -/
theorem of_loop {stop : α → Option β} {b b' : β} : ∀ {xs : List ι} {cs : List χ} {s : σ},
    (Prog.loop body stop b xs).play exec cs s = some (s', b', cs') →
    ∃ rs, Rounds exec body rs cs s cs' s' ∧
      ((b' = b ∧ rs.map (·.item) = xs ∧ ∀ r ∈ rs, stop r.result = none) ∨
        ∃ pre r post, rs = pre ++ [r] ∧ xs = pre.map (·.item) ++ r.item :: post ∧
          (∀ q ∈ pre, stop q.result = none) ∧ stop r.result = some b')
  | [], cs, s, h => by
    cases h
    exact ⟨[], ⟨rfl, rfl⟩, .inl ⟨rfl, rfl, by simp⟩⟩
  | x :: xs, cs, s, h => by
    obtain ⟨s₁, a, cs₁, hx, hrest⟩ := Prog.play_bind h
    cases hstop : stop a with
    | some b₁ =>
      rw [hstop] at hrest
      cases hrest
      exact ⟨[⟨x, cs, s, a, s', cs'⟩], ⟨rfl, rfl, hx, rfl, rfl⟩,
        .inr ⟨[], _, xs, rfl, rfl, by simp, hstop⟩⟩
    | none =>
      rw [hstop] at hrest
      obtain ⟨rs, hrs, hall | ⟨pre, r, post, rfl, rfl, hpre, hr⟩⟩ := of_loop hrest
      · refine ⟨⟨x, cs, s, a, s₁, cs₁⟩ :: rs, ⟨rfl, rfl, hx, hrs⟩, .inl ⟨hall.1, ?_, ?_⟩⟩
        · rw [List.map_cons, hall.2.1]
        · exact List.forall_mem_cons.mpr ⟨hstop, hall.2.2⟩
      · exact ⟨⟨x, cs, s, a, s₁, cs₁⟩ :: (pre ++ [r]), ⟨rfl, rfl, hx, hrs⟩,
          .inr ⟨_ :: pre, r, post, rfl, rfl, List.forall_mem_cons.mpr ⟨hstop, hpre⟩, hr⟩⟩

end Rounds

end Schemes
