import Mathlib.Control.Lawful

/-! Programs over a signature of operations.

    A program either returns, or issues one operation and goes on with its reply. The residual
    program is the whole local state of a process: which operation comes next and what is done with
    each possible answer. `run` executes a program alone, one environment choice an operation. -/

namespace Schemes

/-- The operations a program may issue and the type of each one's reply. -/
structure Signature where
  Op : Type
  Reply : Op → Type

/-- A program: a result, or an operation and what to do with its reply. -/
inductive Prog (S : Signature) (α : Type) : Type where
  | ret (a : α) : Prog S α
  | op (e : S.Op) (k : S.Reply e → Prog S α) : Prog S α

namespace Prog
variable {S : Signature} {α β γ : Type}

protected def bind : Prog S α → (α → Prog S β) → Prog S β
  | .ret a, f => f a
  | .op e k, f => .op e fun r => (k r).bind f

instance : Monad (Prog S) where
  pure := .ret
  bind := Prog.bind

/-- The program that issues `e` and returns its reply. -/
def call (e : S.Op) : Prog S (S.Reply e) := .op e .ret

@[simp] theorem ret_bind (a : α) (f : α → Prog S β) : (Prog.ret a : Prog S α) >>= f = f a := rfl

@[simp] theorem pure_eq (a : α) : (pure a : Prog S α) = .ret a := rfl

@[simp] theorem op_bind (e : S.Op) (k : S.Reply e → Prog S α) (f : α → Prog S β) :
    Prog.op e k >>= f = .op e fun r => k r >>= f := rfl

@[simp] theorem call_bind (e : S.Op) (f : S.Reply e → Prog S β) : call e >>= f = .op e f := rfl

theorem bind_ret : ∀ p : Prog S α, p >>= (fun a => Prog.ret a) = p
  | .ret _ => rfl
  | .op e k => by rw [op_bind]; exact congrArg (Prog.op e) (funext fun r => bind_ret (k r))

theorem bind_assoc' : ∀ (p : Prog S α) (f : α → Prog S β) (g : β → Prog S γ),
    (p >>= f) >>= g = p >>= fun a => f a >>= g
  | .ret _, _, _ => rfl
  | .op e k, f, g => by
    rw [op_bind, op_bind, op_bind]
    exact congrArg (Prog.op e) (funext fun r => bind_assoc' (k r) f g)

instance : LawfulMonad (Prog S) :=
  LawfulMonad.mk' (Prog S) bind_ret (fun _ _ => rfl) bind_assoc'

/-- The operation a program issues next; `none` once it has returned. -/
def head : Prog S α → Option S.Op
  | .ret _ => none
  | .op e _ => some e

/-- Execute a program alone: each operation takes one choice of the environment. There is no result
    when the choices run out or an operation cannot be executed. -/
def run {σ χ : Type} (exec : (e : S.Op) → χ → σ → Option (σ × S.Reply e)) :
    Prog S α → List χ → σ → Option (σ × α)
  | .ret a, _, s => some (s, a)
  | .op _ _, [], _ => none
  | .op e k, c :: cs, s =>
    match exec e c s with
    | none => none
    | some (s', r) => run exec (k r) cs s'

end Prog

end Schemes
