import Payman.Schemes.Protocol

/-! Watching the processes of a concurrent run.

    A watch is a protocol with an assertion for each of its phases. What is seen of a process is that
    it is in some phase whose assertion holds of the shared state. Two obligations keep a watch
    going: an operation of the process establishes the assertion of its next phase, and the steps of
    others disturb no assertion. A process that was killed is watched no more. -/

namespace Schemes

/-- A protocol, the phases in which a program may return, and what each phase asserts. -/
structure Watch (S : Signature) (W X α : Type) where
  next : X → (e : S.Op) → S.Reply e → X → Prop
  fin : α → X → Prop
  holds : X → W → Prop

variable {S : Signature} {W X α : Type} {A : Watch S W X α}

namespace Watch

/-- What is left of the program is in a phase whose assertion holds. -/
def Sees (A : Watch S W X α) : Option (Prog S α) → W → Prop
  | none, _ => True
  | some p, w => ∃ x, Follows A.next A.fin p x ∧ A.holds x w

/-- The watch that asserts nothing. -/
def any : Watch S W X α := ⟨fun _ _ _ _ => True, fun _ _ => True, fun _ _ => True⟩

theorem any_sees (x : X) (o : Option (Prog S α)) (w : W) : (any : Watch S W X α).Sees o w := by
  cases o with
  | none => trivial
  | some p => exact ⟨x, .imp (fun _ _ _ => trivial) (Follows.stays (fun _ _ => trivial) p), trivial⟩

/-- An operation of the process. -/
theorem Sees.exec {e : S.Op} {k : S.Reply e → Prog S α} {r : S.Reply e} {w w' : W}
    (h : A.Sees (some (.op e k)) w)
    (hown : ∀ x x', A.holds x w → A.next x e r x' → A.holds x' w') : A.Sees (some (k r)) w' := by
  obtain ⟨x, hin, hx⟩ := h
  obtain ⟨x', hstep, hk⟩ := hin r
  exact ⟨x', hk, hown x x' hx hstep⟩

/-- A step of others. -/
theorem Sees.other {o : Option (Prog S α)} {w w' : W} (h : A.Sees o w)
    (hstable : ∀ x, A.holds x w → A.holds x w') : A.Sees o w' := by
  cases o with
  | none => trivial
  | some p =>
    obtain ⟨x, hin, hx⟩ := h
    exact ⟨x, hin, hstable x hx⟩

/-- A process that has returned is in a phase in which it may. -/
theorem Sees.returned {a : α} {w : W} (h : A.Sees (some (.ret a)) w) :
    ∃ x, A.fin a x ∧ A.holds x w := h

/-- A process that is about to issue `e` is in a phase that admits `e`, whatever the reply. -/
theorem Sees.admits {e : S.Op} {k : S.Reply e → Prog S α} {w : W}
    (h : A.Sees (some (.op e k)) w) (r : S.Reply e) : ∃ x x', A.holds x w ∧ A.next x e r x' := by
  obtain ⟨x, hin, hx⟩ := h
  obtain ⟨x', hstep, -⟩ := hin r
  exact ⟨x, x', hx, hstep⟩

end Watch

end Schemes
