import Payman.Safety.Closed
import Payman.Claims.Heralds
import Payman.Claims.InStep

/-! Payman's rows and the book of the mock PSP.

    In the closed system every answer that Payman acts on says what the PSP's book says in the end:
    the mock PSP is a PSP with one final outcome for each attempt, as the other results assume it.
    So the rows of the attempts agree with the book, and the book with the cards. -/

namespace Payman
open Schemes

/-- An answer says what the book says of its attempt, `o`, or nothing. -/
def Answer.Reads (o : Option PspBody) : Answer → Prop
  | .response status (some psp) => status = 200 ∧ o = some psp
  | .response status none => is_success status = false
  | _ => True

/-- A step whose answer from the PSP, if it has one, says what the book says. -/
def OnRecord (book : Uuid → Option PspBody) (σ : Sys) : Sys.Label → Prop
  | .exec p c => ∀ a, σ.head p = some (.recv_charge a) ∨ σ.head p = some (.get_charge a) →
    c.answer.Reads (book a)
  | _ => True

/-- The setting of a PSP that keeps the book. -/
def Setting.books (book : Uuid → Option PspBody) : Setting :=
  { Setting.any with answer := fun _ a ans => ans.Reads (book a) }

theorem OnRecord.honours {book : Uuid → Option PspBody} {σ : Sys} {l : Sys.Label}
    (h : OnRecord book σ l) : Honours (.books book) σ l where
  answer := fun p c e hl he => by
    subst hl
    cases e with
    | recv_charge a => exact h a (.inl he)
    | get_charge a => exact h a (.inr he)
    | _ => trivial
  alone := nofun
  start := nofun
  drafts := nofun
  scans := nofun

namespace Closed
variable {s s' : Closed}

/-- What the PSP has on record. -/
def book (s : Closed) (a : Uuid) : Option PspBody := (s.psp.store a).map (·.body)

/-- The book `b` has everything that `b'` has. -/
def Extends (b b' : Uuid → Option PspBody) : Prop := ∀ a psp, b a = some psp → b' a = some psp

/-- CORRECT (step): an answer that can come says what every later book says. -/
theorem Inv.reads (h : s.Inv) {l : Sys.Label} (hl : s.Allows l) {b : Uuid → Option PspBody}
    (hb : Extends s.book b) : OnRecord b s.payman l := by
  cases l with
  | exec p c =>
    have hentry : ∀ a o, s.psp.store a = some o → b a = some o.body := fun a o ho =>
      hb a _ (by rw [book, ho]; rfl)
    obtain ⟨-, hadmits⟩ := hl
    rintro a (hhead | hhead)
    · rw [hhead] at hadmits
      cases hans : c.answer with
      | timed_out => trivial
      | network_error => trivial
      | response status body =>
        simp only [Admits, hans] at hadmits
        obtain ⟨call, hp, rfl, hclock, hd, hhd, hresp⟩ := hadmits
        have hlate : s.clock < call.sent_at + 30000000 :=
          Int.lt_of_lt_of_le hclock (Int.add_le_add_left (by decide) _)
        rcases MockPsp.handling_response (h.handlers p call hd hp hhd) hresp hlate with
          ⟨o, ho, heq⟩ | ⟨status', heq, hs⟩
        · cases heq
          exact ⟨rfl, hentry _ o ho⟩
        · cases heq
          exact hs
    · rw [hhead] at hadmits
      rcases hadmits with heq | heq | heq
      · rw [heq]; trivial
      · rw [heq]; trivial
      · rw [heq]
        unfold MockPsp.get_outcome
        split
        · rename_i o ho
          exact ⟨rfl, hentry a o ho⟩
        · exact rfl
  | _ => trivial

/-- The steps in which Payman's own are restricted. -/
def Where (ok : Sys → Sys.Label → Prop) (s : Closed) : Label → Prop
  | .payman l => ok s.payman l
  | _ => True

instance (ok : Sys → Sys.Label → Prop) [∀ σ l, Decidable (ok σ l)] (s : Closed) :
    ∀ l, Decidable (s.Where ok l)
  | .payman l => inferInstanceAs (Decidable (ok s.payman l))
  | .elapse _ | .handle .. | .hang_up _ | .settle .. => isTrue trivial

/-- The closed system around Payman. -/
theorem closes (ok : Sys → Sys.Label → Prop) :
    Closes (fun s s' : Closed => ∃ l, s.Where ok l ∧ s.step l = some s') Inv payman book Extends
      (fun b => Sys.Step fun σ l => OnRecord b σ l ∧ ok σ l) where
  refl := fun _ _ _ h => h
  trans := fun _ _ _ h h' a psp hpsp => h' a psp (h a psp hpsp)
  keeps := fun _ _ h ⟨_, _, hstep⟩ => (h.step hstep).1
  grows := fun s s' h ⟨_, _, hstep⟩ a psp hpsp => by
    obtain ⟨o, ho, rfl⟩ := Option.map_eq_some_iff.mp hpsp
    rw [book, (h.step hstep).2 a o ho]
    rfl
  moves := fun s s' b h ⟨l, hok, hstep⟩ hb => by
    cases l with
    | payman l =>
      obtain ⟨-, hpsp, hl, hσ⟩ := h.pay hstep
      refine .inr ⟨l, ⟨h.reads hl fun a psp ha => hb a psp ?_, hok⟩, hσ⟩
      rw [book, hpsp]
      exact ha
    | elapse d => cases hstep; exact .inl rfl
    | handle p u => exact .inl (h.handle hstep).2.1
    | hang_up p => exact .inl (h.hang_up hstep).2.1
    | settle n u => exact .inl (h.settle hstep).2.1

/-- CORRECT (run): what Payman does beside the mock PSP is a run in which every answer says what the
    PSP's book says in the end. -/
theorem Run.reading {ok : Sys → Sys.Label → Prop} (h : Run (Where ok) initial s) :
    s.Inv ∧ Sys.Run (fun σ l => OnRecord s.book σ l ∧ ok σ l) .initial s.payman :=
  ⟨((closes ok).run .initial h).1, (closes ok).project .initial h⟩

theorem Run.anywhere (h : Run (fun _ _ => True) s s') : Run (Where fun _ _ => True) s s' :=
  Relation.ReflTransGen.mono (fun _ _ ⟨l, _, hstep⟩ => ⟨l, by cases l <;> trivial, hstep⟩) _ _ h

theorem Reachable.reading (h : s.Reachable) :
    s.Inv ∧ Sys.Run (OnRecord s.book) .initial s.payman :=
  ⟨h.anywhere.reading.1, Schemes.Run.weaken (fun _ _ => And.left) h.anywhere.reading.2⟩

/-! ### One final outcome -/

end Closed

/-- An outcome with everything that Payman reads from it. -/
def PspBody.Complete (psp : PspBody) : Prop :=
  (psp.status = "succeeded" ∧ psp.psp_ref.isSome) ∨ (psp.status = "failed" ∧ psp.code.isSome)

theorem MockPsp.Settles.complete {card_token : String} {o : ChargeOutcome}
    (h : Settles card_token o) : o.body.Complete := by
  rcases h with ⟨-, u, rfl⟩ | ⟨-, rfl⟩ | ⟨-, rfl⟩
  · exact .inl ⟨rfl, rfl⟩
  · exact .inr ⟨rfl, rfl⟩
  · exact .inr ⟨rfl, rfl⟩

theorem MockPsp.Settles.of_succeeded {card_token : String} {o : ChargeOutcome}
    (h : Settles card_token o) (hs : o.body.status = "succeeded") :
    (card_token = "tok_success" ∨ card_token = "tok_timeout") ∧ ∃ u, o = succeeded u := by
  rcases h with h | ⟨-, rfl⟩ | ⟨-, rfl⟩
  · exact h
  · exact absurd (show "failed" = "succeeded" from hs) (by decide)
  · exact absurd (show "failed" = "succeeded" from hs) (by decide)

theorem MockPsp.Settles.of_failed {card_token : String} {o : ChargeOutcome}
    (h : Settles card_token o) (hs : o.body.status = "failed") : ∃ code, o = failed code ∧
      ((card_token = "tok_insufficient_funds" ∧ code = "insufficient_funds") ∨
        (card_token = "tok_card_declined" ∧ code = "card_declined")) := by
  rcases h with ⟨-, u, rfl⟩ | ⟨hcard, rfl⟩ | ⟨hcard, rfl⟩
  · exact absurd (show "succeeded" = "failed" from hs) (by decide)
  · exact ⟨_, rfl, .inl ⟨hcard, rfl⟩⟩
  · exact ⟨_, rfl, .inr ⟨hcard, rfl⟩⟩

section
variable {o : Option PspBody} {ans : Answer}

/-- What a body tells about the fate of its attempt. -/
def PspBody.fate (psp : PspBody) : Option Verdict := psp.outcome.map (·.verdict)

theorem Answer.Reads.agrees (h : ans.Reads o) : ans.Agrees (o.bind (·.fate)) := by
  cases ans with
  | timed_out => trivial
  | network_error => trivial
  | response status body =>
    cases body with
    | none => trivial
    | some psp =>
      obtain ⟨-, rfl⟩ := h
      refine fun _ => ⟨fun hs => ?_, fun hs => ?_⟩
      · simp [PspBody.fate, PspBody.outcome, hs, Outcome.verdict]
      · simp [PspBody.fate, PspBody.outcome, hs, Outcome.verdict]

theorem Answer.Reads.final (h : ans.Reads o) (hcomplete : ∀ psp, o = some psp → psp.Complete) :
    ans.Final := by
  cases ans with
  | timed_out => trivial
  | network_error => trivial
  | response status body =>
    cases body with
    | none => trivial
    | some psp => exact fun _ => (hcomplete psp h.2).imp And.left And.left

/-- A PSP that keeps a book of complete outcomes has one fate for each attempt. -/
theorem OnRecord.psp {book : Uuid → Option PspBody} {σ : Sys} {l : Sys.Label}
    (h : OnRecord book σ l) (hcomplete : ∀ a psp, book a = some psp → psp.Complete) :
    Psp (fun a => (book a).bind (·.fate)) (fun _ => False) σ l := by
  cases l with
  | exec p c =>
    show Truthful _ _ _ (σ.head p)
    cases hhead : σ.head p with
    | none => trivial
    | some e =>
      cases e with
      | recv_charge a =>
        have hreads := h a (.inl hhead)
        exact ⟨hreads.agrees, fun _ => hreads.final (hcomplete a)⟩
      | get_charge a => exact (h a (.inr hhead)).agrees
      | _ => trivial
  | _ => trivial

end

namespace Closed
variable {s s' : Closed}

theorem Inv.complete (h : s.Inv) {a : Uuid} {psp : PspBody} (ha : s.book a = some psp) :
    psp.Complete := by
  obtain ⟨o, ho, rfl⟩ := Option.map_eq_some_iff.mp ha
  obtain ⟨ch, -, -, hset⟩ := h.entries a o ho
  exact hset.complete

/-- The fate of an attempt, as far as the PSP has decided it. -/
def fate (s : Closed) (a : Uuid) : Option Verdict := (s.book a).bind (·.fate)

/-- The book only grows. -/
theorem Inv.extends (h : s.Inv) (hrun : Run (fun _ _ => True) s s') : Extends s.book s'.book :=
  ((closes _).run h hrun.anywhere).2.1

/-- CORRECT (step): the answer in a step of Payman says what the book says at any later time. -/
theorem Inv.reads_later (h : s.Inv) {l : Sys.Label} (hstep : s.step (.payman l) = some s')
    {s'' : Closed} (hlater : Run (fun _ _ => True) s' s'') :
    OnRecord s''.book s.payman l ∧ Psp s''.fate (fun _ => False) s.payman l := by
  have hrun : Run (fun _ _ => True) s s'' := .head ⟨.payman l, trivial, hstep⟩ hlater
  have hinv : s''.Inv := ((closes _).run h hrun.anywhere).1
  obtain ⟨-, -, hallows, -⟩ := h.pay hstep
  have hreads := h.reads hallows (h.extends hrun)
  exact ⟨hreads, hreads.psp fun _ _ ha => hinv.complete ha⟩

/-- CORRECT (one final outcome): every answer that Payman gets in a run beside the mock PSP says what
    the PSP's book says at any later time of the run, `POST /charge` is answered with a final status
    only, and what the book says once it says for ever. So what Payman does is a run in which every
    answer says what the book says in the end. -/
theorem one_final_outcome (h : s.Reachable) :
    (∀ l s', s.step (.payman l) = some s' → ∀ s'', Run (fun _ _ => True) s' s'' →
      OnRecord s''.book s.payman l ∧ Psp s''.fate (fun _ => False) s.payman l) ∧
    (∀ s', Run (fun _ _ => True) s s' → Extends s.book s'.book) ∧
    Sys.Run (fun σ l => OnRecord s.book σ l ∧ Psp s.fate (fun _ => False) σ l) .initial
      s.payman := by
  obtain ⟨hinv, hrun⟩ := h.reading
  refine ⟨fun l s' hstep s'' hlater => hinv.reads_later hstep hlater,
    fun s' hs' => hinv.extends hs', ?_⟩
  exact Schemes.Run.weaken (fun _ _ hl => ⟨hl, hl.psp fun _ _ ha => hinv.complete ha⟩) hrun

/-! ### Runs as lists of steps -/

/-- Steps of Payman while the clock stands still. -/
def during (ls : List Sys.Label) : List Label := ls.map .payman

/-- Business 1's invoice 20 is paid by call `n` with a card, up to the answer of the PSP. -/
def charges (n : ℕ) (k : String) (v : Int32) (a : Uuid) (card_token : String) : List Label :=
  during ([.arrive n (.pay_invoice 20 1 (some k) ⟨card_token, v⟩)] ++ Sys.go (.call n) 3 ++
    Sys.fresh (.call n) a ++ Sys.go (.call n) 4)

/-- The answer comes after a tenth of a second, and is recorded. -/
def settles (n : ℕ) (psp : PspBody) : List Label :=
  [.handle (.call n) 7, .elapse 100000, .handle (.call n) 7, .handle (.call n) 7] ++
  during ([.exec (.call n) { Sys.calm with elapsed := 100000, answer := .response 200 (some psp) }] ++
    Sys.go (.call n) 5)

/-- A payment goes through. -/
def paid : List Label :=
  during Sys.opened ++ charges 3 "k" 2 40 "tok_success" ++
    settles 3 ⟨"succeeded", some (hyphenated 7), none⟩

theorem reachable_of_steps {ls : List Label} (h : initial.steps ls = some s) : s.Reachable :=
  run_of_steps h (.always ls _)

theorem one_final_outcome_paid : ∃ s ∈ initial.steps paid,
    (∃ row ∈ s.payman.db.attempt 40, row.status = .Succeeded) ∧
    (∀ l s', s.step (.payman l) = some s' → ∀ s'', Run (fun _ _ => True) s' s'' →
      OnRecord s''.book s.payman l ∧ Psp s''.fate (fun _ => False) s.payman l) ∧
    (∀ s', Run (fun _ _ => True) s s' → Extends s.book s'.book) ∧
    Sys.Run (fun σ l => OnRecord s.book σ l ∧ Psp s.fate (fun _ => False) σ l) .initial
      s.payman := by
  obtain ⟨s, hs, hrow⟩ : ∃ s ∈ initial.steps paid,
    ∃ row ∈ s.payman.db.attempt 40, row.status = .Succeeded := by decide +kernel
  exact ⟨s, hs, hrow, one_final_outcome (reachable_of_steps hs)⟩

end Closed

end Payman
