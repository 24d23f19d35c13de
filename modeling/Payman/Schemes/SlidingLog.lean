import Mathlib.Data.List.Induction
import Mathlib.Data.List.Basic
import Mathlib.Data.Int.Notation
import Mathlib.Data.Nat.Notation

/-! Rate limiting by a sliding log.

    A policy admits a request if fewer than `limit` admitted requests on its key lie in the window
    that ends with it. The rule looks at the whole history of admitted requests; how an
    implementation remembers enough of it is its own affair. -/

namespace Schemes

/-- Requests `ρ` on keys `κ`: at most `limit` of one key in any window. -/
structure Policy (ρ κ : Type) where
  key : ρ → κ
  time : ρ → ℤ
  window : ℕ
  limit : ℕ

namespace Policy
variable {ρ κ : Type} [DecidableEq κ] (P : Policy ρ κ)

/-- The requests of `h` on key `k` in the window (t, t + window]. -/
def span (h : List ρ) (k : κ) (t : ℤ) : List ρ :=
  h.filter fun a => decide (P.key a = k ∧ t < P.time a ∧ P.time a ≤ t + P.window)

/-- Fewer requests than the limit on the key of `r` are in the window that ends with `r`. -/
def admits (h : List ρ) (r : ρ) : Bool :=
  decide ((P.span h (P.key r) (P.time r - P.window)).length < P.limit)

/-- The admitted requests after `r`, oldest first. -/
def push (h : List ρ) (r : ρ) : List ρ := if P.admits h r then h ++ [r] else h

/-- The admitted requests of a sequence. -/
def allowed (rs : List ρ) : List ρ := rs.foldl P.push []

/-- Each request with its decision, after the admitted requests `h`. -/
def log : List ρ → List ρ → List (ρ × Bool)
  | _, [] => []
  | h, r :: rs => (r, P.admits h r) :: log (P.push h r) rs

/-- No request is earlier than one before it. -/
def Ordered (rs : List ρ) : Prop := rs.Pairwise fun a b => P.time a ≤ P.time b

variable {P}

theorem log_append : ∀ (rs rs' h : List ρ),
    P.log h (rs ++ rs') = P.log h rs ++ P.log (rs.foldl P.push h) rs'
  | [], _, _ => rfl
  | r :: rs, rs', h => congrArg ((r, P.admits h r) :: ·) (log_append rs rs' (P.push h r))

/-- The admitted requests are those that the log says were. -/
theorem foldl_push : ∀ rs h : List ρ,
    rs.foldl P.push h = h ++ ((P.log h rs).filter (·.2)).map (·.1)
  | [], h => by simp [log]
  | r :: rs, h => by
    rw [List.foldl_cons, foldl_push rs (P.push h r), log]
    unfold push
    cases hadm : P.admits h r <;> simp

theorem allowed_concat (rs : List ρ) (r : ρ) :
    P.allowed (rs ++ [r]) = P.push (P.allowed rs) r := by
  rw [allowed, allowed, List.foldl_append]
  rfl

theorem mem_push {h : List ρ} {r a : ρ} (ha : a ∈ P.push h r) : a ∈ h ∨ a = r := by
  unfold push at ha
  split at ha
  · simpa using ha
  · exact .inl ha

theorem mem_of_allowed {rs : List ρ} {a : ρ} (ha : a ∈ P.allowed rs) : a ∈ rs := by
  induction rs using List.reverseRecOn with
  | nil => simp [allowed] at ha
  | append_singleton rs r ih =>
    rw [allowed_concat] at ha
    rcases mem_push ha with ha | rfl
    · exact List.mem_append_left _ (ih ha)
    · simp

/-- A request that is not admitted leaves no trace. -/
theorem push_refused {h : List ρ} {r : ρ} (hr : P.admits h r = false) : P.push h r = h := by
  rw [push, hr]
  rfl

theorem span_append (h h' : List ρ) (k : κ) (t : ℤ) :
    P.span (h ++ h') k t = P.span h k t ++ P.span h' k t := List.filter_append ..

/-- The requests of `h` on the key of `r` that some window contains together with `r`. -/
def near (P : Policy ρ κ) (h : List ρ) (r : ρ) : List ρ :=
  h.filter fun a => decide (P.key a = P.key r ∧ P.time r - P.window < P.time a ∧
    P.time a < P.time r + P.window)

/-- In whatever order the times come: a request with fewer than the limit near it makes no window too
    full. -/
theorem length_span_concat {h : List ρ} {r : ρ} (hr : (P.near h r).length < P.limit) (k : κ)
    (t : ℤ) (hle : (P.span h k t).length ≤ P.limit) :
    (P.span (h ++ [r]) k t).length ≤ P.limit := by
  rw [span_append, List.length_append]
  by_cases hmem : P.key r = k ∧ t < P.time r ∧ P.time r ≤ t + P.window
  · obtain ⟨rfl, hlo, hhi⟩ := hmem
    have hsub : (P.span h (P.key r) t).length ≤ (P.near h r).length := by
      unfold span near
      rw [← List.countP_eq_length_filter, ← List.countP_eq_length_filter]
      refine List.countP_mono_left fun a _ hspan => ?_
      simp only [decide_eq_true_eq] at hspan ⊢
      refine ⟨hspan.1, ?_, ?_⟩ <;> omega
    have hone : (P.span [r] (P.key r) t).length ≤ 1 := List.length_filter_le ..
    omega
  · have hnone : P.span [r] k t = [] := by simp [span, hmem]
    rw [hnone]
    exact hle

/-- CORRECT: no window contains more admitted requests of one key than the limit. -/
theorem length_span_allowed {rs : List ρ} (h : P.Ordered rs) (k : κ) (t : ℤ) :
    (P.span (P.allowed rs) k t).length ≤ P.limit := by
  induction rs using List.reverseRecOn with
  | nil => simp [allowed, span]
  | append_singleton rs r ih =>
    obtain ⟨hrs, -, hlast⟩ := List.pairwise_append.mp h
    have ih := ih hrs
    rw [allowed_concat, push]
    split
    · rename_i hadm
      refine length_span_concat ?_ k t ih
      -- what is near the latest request is in the window that ends with it
      have hsub : (P.near (P.allowed rs) r).length ≤
          (P.span (P.allowed rs) (P.key r) (P.time r - P.window)).length := by
        unfold span near
        rw [← List.countP_eq_length_filter, ← List.countP_eq_length_filter]
        refine List.countP_mono_left fun a ha hnear => ?_
        have hle := hlast a (mem_of_allowed ha) r (by simp)
        simp only [decide_eq_true_eq] at hnear ⊢
        refine ⟨hnear.1, ?_, ?_⟩ <;> omega
      exact Nat.lt_of_le_of_lt hsub (of_decide_eq_true hadm)
    · exact ih

theorem span_filter_key (h : List ρ) (k : κ) (t : ℤ) :
    P.span (h.filter fun a => decide (P.key a = k)) k t = P.span h k t := by
  unfold span
  rw [List.filter_filter]
  refine List.filter_congr fun a _ => ?_
  by_cases ha : P.key a = k <;> simp [ha]

/-- CORRECT: the decisions on one key depend on the requests for that key only. -/
theorem log_filter_key (k : κ) : ∀ rs h : List ρ,
    (P.log h rs).filter (fun x => decide (P.key x.1 = k)) =
      P.log (h.filter fun a => decide (P.key a = k)) (rs.filter fun r => decide (P.key r = k))
  | [], _ => rfl
  | r :: rs, h => by
    have ih := log_filter_key k rs (P.push h r)
    by_cases hr : P.key r = k
    · subst hr
      have hadm : P.admits (h.filter fun a => decide (P.key a = P.key r)) r = P.admits h r := by
        rw [admits, admits, span_filter_key]
      have hpush : (P.push h r).filter (fun a => decide (P.key a = P.key r)) =
          P.push (h.filter fun a => decide (P.key a = P.key r)) r := by
        rw [push, push, hadm]
        split <;> simp
      rw [hpush] at ih
      simp [log, hadm, ih]
    · have hpush : (P.push h r).filter (fun a => decide (P.key a = k)) =
          h.filter fun a => decide (P.key a = k) := by
        unfold push
        split <;> simp [hr]
      rw [hpush] at ih
      simp [log, hr, ih]

end Policy

end Schemes
