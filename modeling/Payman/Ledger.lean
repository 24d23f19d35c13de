import Payman.Model.Types

/-! What the service keeps, seen as a ledger.

    A ledger says in which state each invoice is, and of each payment attempt which invoice it pays
    and how it stands. `Entry` lists the ways in which a ledger should change. Entries keep invoices
    and attempts in step, change states along legal edges only, and never let an invoice be paid
    twice. `Turn` is what the code does: the same changes without all of their conditions. -/

namespace Payman

/-- How an attempt ends. -/
inductive Verdict where | paid | declined
  deriving DecidableEq

namespace Verdict

def status : Verdict → PaymentStatus
  | .paid => .Succeeded
  | .declined => .Failed

def state : Verdict → InvoiceState
  | .paid => .Paid
  | .declined => .Open

end Verdict

@[ext] structure Ledger (I A : Type) where
  state : I → Option InvoiceState
  attempt : A → Option (I × PaymentStatus)

namespace Ledger

variable {I A : Type} {g g' : Ledger I A}

/-! ### Invoices and attempts in step -/

/-- An attempt pays an invoice that exists and is no draft. -/
def Known (g : Ledger I A) : Prop :=
  ∀ a i st, g.attempt a = some (i, st) → ∃ s, g.state i = some s ∧ s ≠ .Draft

/-- What the attempts of invoice `i` are like when it is in a state. Nothing ever makes an invoice
    uncollectible. -/
def Fits (g : Ledger I A) (i : I) : InvoiceState → Prop
  | .Draft => ∀ a st, g.attempt a ≠ some (i, st)
  | .Void => ∀ a st, g.attempt a = some (i, st) → st = .Failed
  | .Open => ∀ a st, g.attempt a = some (i, st) → st = .Failed
  | .Processing => ∃ a, g.attempt a = some (i, .Pending) ∧
      ∀ b st, b ≠ a → g.attempt b = some (i, st) → st = .Failed
  | .Paid => ∃ a, g.attempt a = some (i, .Succeeded) ∧
      ∀ b st, b ≠ a → g.attempt b = some (i, st) → st = .Failed
  | .Uncollectible => False

structure InStep (g : Ledger I A) : Prop where
  known : g.Known
  fits : ∀ i s, g.state i = some s → g.Fits i s

/-- Whether a state fits depends on the invoice's own attempts only. -/
theorem Fits.congr {i : I} {s : InvoiceState}
    (heq : ∀ a st, g'.attempt a = some (i, st) ↔ g.attempt a = some (i, st)) (h : g.Fits i s) :
    g'.Fits i s := by
  cases s <;> simp only [Fits, ne_eq, heq] at h ⊢ <;> exact h

/-- An invoice with a pending attempt is being processed, and its other attempts have failed. -/
theorem InStep.processing (h : g.InStep) {a : A} {i : I} (ha : g.attempt a = some (i, .Pending)) :
    g.state i = some .Processing ∧
      ∀ b st, b ≠ a → g.attempt b = some (i, st) → st = .Failed := by
  obtain ⟨s, hs, -⟩ := h.known a i _ ha
  have hfits := h.fits i s hs
  cases s with
  | Draft => exact absurd ha (hfits a _)
  | Void => cases hfits a _ ha
  | Open => cases hfits a _ ha
  | Uncollectible => exact hfits.elim
  | Processing =>
    obtain ⟨a', ha', hrest⟩ := hfits
    have haa : a = a' := by
      by_contra hne
      cases hrest a _ hne ha
    exact ⟨hs, haa ▸ hrest⟩
  | Paid =>
    obtain ⟨a', ha', hrest⟩ := hfits
    by_cases haa : a = a'
    · subst haa; cases ha.symm.trans ha'
    · cases hrest a _ haa ha

/-- An invoice is paid at most once. -/
theorem InStep.succeeded_unique (h : g.InStep) {a b : A} {i : I}
    (ha : g.attempt a = some (i, .Succeeded)) (hb : g.attempt b = some (i, .Succeeded)) :
    a = b := by
  obtain ⟨s, hs, -⟩ := h.known a i _ ha
  have hfits := h.fits i s hs
  cases s with
  | Draft => exact absurd ha (hfits a _)
  | Void => cases hfits a _ ha
  | Open => cases hfits a _ ha
  | Uncollectible => exact hfits.elim
  | Processing =>
    obtain ⟨c, hc, hrest⟩ := hfits
    by_cases hac : a = c
    · subst hac; cases ha.symm.trans hc
    · cases hrest a _ hac ha
  | Paid =>
    obtain ⟨c, hc, hrest⟩ := hfits
    by_contra hne
    by_cases hac : a = c
    · exact absurd (hrest b _ (fun hbc => hne (hac.trans hbc.symm)) hb) nofun
    · exact absurd (hrest a _ hac ha) nofun

/-! ### Changes of a ledger -/

section
variable [DecidableEq I]

/-- Invoice `i` goes to state `s`. -/
def move (g : Ledger I A) (i : I) (s : InvoiceState) : Ledger I A :=
  { g with state := Function.update g.state i (some s) }

@[simp] theorem move_attempt (i : I) (s : InvoiceState) : (g.move i s).attempt = g.attempt := rfl

theorem move_state (i j : I) (s : InvoiceState) :
    (g.move i s).state j = if j = i then some s else g.state j := Function.update_apply ..

/-- Going to the state it is in changes nothing. -/
theorem move_self {i : I} {s : InvoiceState} (h : g.state i = some s) : g.move i s = g := by
  ext1
  · rw [move, ← h, Function.update_eq_self]
  · rfl

theorem Known.move (h : g.Known) {i : I} {s : InvoiceState}
    (hs : (∃ a st, g.attempt a = some (i, st)) → s ≠ .Draft) : (g.move i s).Known := by
  intro a j st ha
  rw [move_state]
  split
  · rename_i hji
    subst hji
    exact ⟨s, rfl, hs ⟨a, st, ha⟩⟩
  · exact h a j st ha

end

section
variable [DecidableEq A]

/-- Attempt `a` pays invoice `i` and stands at `st`. -/
def mark (g : Ledger I A) (a : A) (i : I) (st : PaymentStatus) : Ledger I A :=
  { g with attempt := Function.update g.attempt a (some (i, st)) }

@[simp] theorem mark_state (a : A) (i : I) (st : PaymentStatus) :
    (g.mark a i st).state = g.state := rfl

theorem mark_attempt (a b : A) (i : I) (st : PaymentStatus) :
    (g.mark a i st).attempt b = if b = a then some (i, st) else g.attempt b :=
  Function.update_apply ..

theorem mark_self {a : A} {i : I} {st : PaymentStatus} (h : g.attempt a = some (i, st)) :
    g.mark a i st = g := by
  ext1
  · rfl
  · rw [mark, ← h, Function.update_eq_self]

theorem Known.mark (h : g.Known) {a : A} {i : I} {st : PaymentStatus}
    (hi : ∃ s, g.state i = some s ∧ s ≠ .Draft) : (g.mark a i st).Known := by
  intro b j st' hb
  rw [mark_attempt] at hb
  split at hb
  · cases hb; exact hi
  · exact h b j st' hb

/-- Marking an attempt leaves the attempts of the other invoices alone. -/
theorem mark_attempt_iff {a b : A} {i j : I} {st st' : PaymentStatus}
    (ha : ∀ k s, g.attempt a = some (k, s) → k = i) (hj : j ≠ i) :
    (g.mark a i st).attempt b = some (j, st') ↔ g.attempt b = some (j, st') := by
  rw [mark_attempt]
  split
  · rename_i hba
    subst hba
    refine ⟨fun h => ?_, fun h => absurd (ha j st' h) hj⟩
    cases h; exact absurd rfl hj
  · exact Iff.rfl

/-- The marked attempt is the one of its status; the others stand as before. -/
theorem Fits.mark {a : A} {i : I} {st : PaymentStatus} {s : InvoiceState}
    (hrest : ∀ b st', b ≠ a → g.attempt b = some (i, st') → st' = .Failed)
    (hs : (s = .Processing ∧ st = .Pending) ∨ (s = .Paid ∧ st = .Succeeded) ∨
      (s = .Open ∧ st = .Failed)) : (g.mark a i st).Fits i s := by
  have hself : (g.mark a i st).attempt a = some (i, st) := Function.update_self ..
  have hothers : ∀ b st', b ≠ a → (g.mark a i st).attempt b = some (i, st') → st' = .Failed :=
    fun b st' hb h => hrest b st' hb (by rwa [mark_attempt, if_neg hb] at h)
  rcases hs with ⟨rfl, rfl⟩ | ⟨rfl, rfl⟩ | ⟨rfl, rfl⟩
  · exact ⟨a, hself, hothers⟩
  · exact ⟨a, hself, hothers⟩
  · intro b st' hb
    by_cases hba : b = a
    · subst hba
      rw [hself] at hb
      cases hb; rfl
    · exact hothers b st' hba hb

end

variable [DecidableEq I] [DecidableEq A]

/-- The ways in which a ledger should change. -/
inductive Entry (g : Ledger I A) : Ledger I A → Prop where
  | stay : Entry g g
  | issue (i : I) (hs : g.state i = none) : Entry g (g.move i .Draft)
  | finalize (i : I) (hs : g.state i = some .Draft) : Entry g (g.move i .Open)
  | void (i : I) (hs : g.state i = some .Draft) : Entry g (g.move i .Void)
  | start (i : I) (a : A) (hs : g.state i = some .Open) (ha : g.attempt a = none) :
      Entry g ((g.move i .Processing).mark a i .Pending)
  | settle (i : I) (a : A) (v : Verdict) (ha : g.attempt a = some (i, .Pending)) :
      Entry g ((g.move i v.state).mark a i v.status)

/-- The ways in which the code changes it. -/
inductive Turn (g : Ledger I A) : Ledger I A → Prop where
  | stay : Turn g g
  | issue (i : I) (hs : g.state i = none) : Turn g (g.move i .Draft)
  | finalize (i : I) (s : InvoiceState) (hs : g.state i = some s) : Turn g (g.move i .Open)
  | void (i : I) (s : InvoiceState) (hs : g.state i = some s) : Turn g (g.move i .Void)
  | start (i : I) (a : A) (hs : g.state i = some .Open) (ha : g.attempt a = none) :
      Turn g ((g.move i .Processing).mark a i .Pending)
  | settle (i : I) (a : A) (st : PaymentStatus) (v : Verdict) (ha : g.attempt a = some (i, st)) :
      Turn g ((g.move i v.state).mark a i v.status)
  | settle_only (i : I) (a : A) (st : PaymentStatus) (v : Verdict)
      (ha : g.attempt a = some (i, st)) : Turn g (g.mark a i v.status)

theorem Entry.of_eq {g'' : Ledger I A} (h : Entry g g'') (heq : g' = g'') : Entry g g' := heq ▸ h

theorem Entry.turn (h : Entry g g') : Turn g g' := by
  cases h with
  | stay => exact .stay
  | issue i hs => exact .issue i hs
  | finalize i hs => exact .finalize i _ hs
  | void i hs => exact .void i _ hs
  | start i a hs ha => exact .start i a hs ha
  | settle i a v ha => exact .settle i a _ v ha

/-! ### What the changes preserve -/

theorem Known.turn (h : g.Known) (ht : Turn g g') : g'.Known := by
  cases ht with
  | stay => exact h
  | issue i hs =>
    refine h.move fun ⟨a, st, ha⟩ => ?_
    obtain ⟨s, hs', -⟩ := h a i st ha
    cases hs.symm.trans hs'
  | finalize i s hs => exact h.move fun _ => nofun
  | void i s hs => exact h.move fun _ => nofun
  | start i a hs ha =>
    have hp : InvoiceState.Processing ≠ .Draft := nofun
    exact (h.move fun _ => hp).mark ⟨_, (move_state ..).trans (if_pos rfl), hp⟩
  | settle i a st v ha =>
    have hv : v.state ≠ .Draft := by cases v <;> nofun
    exact (h.move fun _ => hv).mark ⟨_, (move_state ..).trans (if_pos rfl), hv⟩
  | settle_only i a st v ha => exact h.mark (h a i st ha)

/-- CORRECT: every entry keeps the ledger in step. -/
theorem InStep.entry (h : g.InStep) (he : Entry g g') : g'.InStep := by
  cases he with
  | stay => exact h
  | issue i hs =>
    refine ⟨h.known.turn (.issue i hs), fun j s hj => ?_⟩
    rw [move_state] at hj
    split at hj
    · cases hj
      rename_i hji
      subst hji
      intro a st ha
      obtain ⟨s, hs', -⟩ := h.known a j st ha
      cases hs.symm.trans hs'
    · exact (h.fits j s hj).congr fun _ _ => Iff.rfl
  | finalize i hs =>
    refine ⟨h.known.turn (.finalize i _ hs), fun j s hj => ?_⟩
    rw [move_state] at hj
    split at hj
    · cases hj
      rename_i hji
      subst hji
      exact fun a st ha => absurd ha (h.fits j _ hs a st)
    · exact (h.fits j s hj).congr fun _ _ => Iff.rfl
  | void i hs =>
    refine ⟨h.known.turn (.void i _ hs), fun j s hj => ?_⟩
    rw [move_state] at hj
    split at hj
    · cases hj
      rename_i hji
      subst hji
      exact fun a st ha => absurd ha (h.fits j _ hs a st)
    · exact (h.fits j s hj).congr fun _ _ => Iff.rfl
  | start i a hs ha =>
    refine ⟨h.known.turn (.start i a hs ha), fun j s hj => ?_⟩
    rw [mark_state, move_state] at hj
    split at hj
    · cases hj
      rename_i hji
      subst hji
      exact .mark (fun b st _ hb => h.fits j _ hs b st hb) (.inl ⟨rfl, rfl⟩)
    · rename_i hji
      refine (h.fits j s hj).congr fun b st => mark_attempt_iff (fun k st hk => ?_) hji
      cases ha.symm.trans hk
  | settle i a v ha =>
    obtain ⟨hproc, hrest⟩ := h.processing ha
    refine ⟨h.known.turn (.settle i a _ v ha), fun j s hj => ?_⟩
    rw [mark_state, move_state] at hj
    split at hj
    · cases hj
      rename_i hji
      subst hji
      refine .mark hrest ?_
      cases v with
      | paid => exact .inr (.inl ⟨rfl, rfl⟩)
      | declined => exact .inr (.inr ⟨rfl, rfl⟩)
    · rename_i hji
      refine (h.fits j s hj).congr fun b st => mark_attempt_iff (fun k st hk => ?_) hji
      cases ha.symm.trans hk; rfl

/-- An edge of the transition table, or the revert of a payment that did not go through. -/
def Legal (s t : InvoiceState) : Prop :=
  s.can_transition_to t = true ∨ (s = .Processing ∧ t = .Open)

/-- An entry changes states along legal edges. -/
theorem InStep.legal (h : g.InStep) (he : Entry g g') {i : I} {s t : InvoiceState}
    (hs : g.state i = some s) (ht : g'.state i = some t) (hst : t ≠ s) : Legal s t := by
  have hmove : ∀ j u, (g.move j u).state i = some t → i = j ∧ t = u := fun j u hu => by
    rw [move_state] at hu
    split at hu
    · rename_i hij; cases hu; exact ⟨hij, rfl⟩
    · exact absurd (Option.some.inj (hu.symm.trans hs)) hst
  cases he with
  | stay => exact absurd (Option.some.inj (ht.symm.trans hs)) hst
  | issue j hj => obtain ⟨rfl, rfl⟩ := hmove _ _ ht; cases hj.symm.trans hs
  | finalize j hj => obtain ⟨rfl, rfl⟩ := hmove _ _ ht; cases hj.symm.trans hs; exact .inl rfl
  | void j hj => obtain ⟨rfl, rfl⟩ := hmove _ _ ht; cases hj.symm.trans hs; exact .inl rfl
  | start j a hj ha => obtain ⟨rfl, rfl⟩ := hmove _ _ ht; cases hj.symm.trans hs; exact .inl rfl
  | settle j a v ha =>
    obtain ⟨rfl, rfl⟩ := hmove _ _ ht
    cases (h.processing ha).1.symm.trans hs
    cases v with
    | paid => exact .inl rfl
    | declined => exact .inr ⟨rfl, rfl⟩

end Ledger

end Payman
