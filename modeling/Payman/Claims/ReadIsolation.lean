import Payman.Safety.Scoped

/-! What a business can see of the others: nothing.

    The owner-scoped requests are served one at a time. Two worlds that agree on the rows of a
    business give the same answer to each of its requests and agree on its rows again; requests of
    other businesses in between change nothing of that. -/

namespace Payman
open Schemes

variable {b : Uuid} {w w₁ w₂ w₁' w₂' : World}

/-- Nobody is in a transaction, and every line item has its invoice. -/
structure World.Resting (w : World) : Prop where
  quiet : w.Quiet
  sound : w.db.Sound

/-- A request that is served: by which process, when, and what the world answers it. -/
structure Serving where
  pid : Pid
  now : DateTime
  request : Request
  choices : List Choice

namespace Serving

/-- The request runs alone; `none` if it has no answer at the end of the choices. -/
def serve (s : Serving) (w : World) : Option (World × Except AppError Response) :=
  s.request.program.run.run (World.exec s.pid) s.choices { w with now := s.now }

/-- The UUIDs that are drawn are new. -/
def Fresh (s : Serving) (w : World) : Prop :=
  s.request.program.run.Along (World.exec s.pid) (Unseen s.pid) s.choices { w with now := s.now }

/-- One request after the other, with the answers. -/
def serve_each : List Serving → World → Option (World × List (Serving × Except AppError Response))
  | [], w => some (w, [])
  | s :: ss, w => do
    let (w', r) ← s.serve w
    let (w'', rs) ← serve_each ss w'
    return (w'', (s, r) :: rs)

def Fresh_all : List Serving → World → Prop
  | [], _ => True
  | s :: ss, w => s.Fresh w ∧ ∀ x ∈ s.serve w, Fresh_all ss x.1

instance decidableFresh_all : ∀ (ss : List Serving) (w : World), Decidable (Fresh_all ss w)
  | [], _ => .isTrue trivial
  | s :: ss, w =>
    have : ∀ x : World × Except AppError Response, Decidable (Fresh_all ss x.1) := fun x =>
      decidableFresh_all ss x.1
    inferInstanceAs (Decidable (Prog.Along (World.exec s.pid) (Unseen s.pid) s.request.program.run
      s.choices { w with now := s.now } ∧ ∀ x ∈ s.serve w, Fresh_all ss x.1))

/-- The request is one of `b`. -/
def of (b : Uuid) (s : Serving) : Bool := decide (s.request.business = b)

variable {s : Serving} {ss ss₁ ss₂ : List Serving} {r : Except AppError Response}

theorem paired (h₁ : w₁.Resting) (h₂ : w₂.Resting) (he : w₁.db.estate b = w₂.db.estate b)
    (p : Pid) (now : DateTime) : Paired p b (w₁.db, w₂.db) none
      ({ w₁ with now }, { w₂ with now }) := by
  have hside : ∀ {w : World}, w.Resting → Sided p b w.db none { w with now } := fun {w} h => by
    have hview : w.sessions.view p = w.db := World.view_idle (h.quiet.txs p)
    refine ⟨⟨(h.quiet.only p).txs, (h.quiet.only p).unlocked, (h.quiet.only p).tidy⟩,
      h.quiet.txs p, ⟨h.sound, rfl⟩, ?_⟩
    show (w.sessions.view p).Kept b w.db
    rw [hview]
    exact ⟨h.sound, rfl⟩
  refine ⟨hside h₁, hside h₂, rfl, he, ?_⟩
  show (w₁.sessions.view p).estate b = (w₂.sessions.view p).estate b
  rw [World.view_idle (h₁.quiet.txs p), World.view_idle (h₂.quiet.txs p)]
  exact he

/-- One request of `b` in two worlds. -/
theorem serve_twin (hs : s.request.scoped = true) (h₁ : w₁.Resting) (h₂ : w₂.Resting)
    (he : w₁.db.estate s.request.business = w₂.db.estate s.request.business) (hf₁ : s.Fresh w₁)
    (hf₂ : s.Fresh w₂) (hrun : s.serve w₁ = some (w₁', r)) :
    ∃ w₂', s.serve w₂ = some (w₂', r) ∧
      Paired s.pid s.request.business (w₁.db, w₂.db) none (w₁', w₂') := by
  have htwin : Alike s.pid s.request.business (w₁.db, w₂.db) s.request.program _ :=
    .request hs rfl (paired h₁ h₂ he s.pid s.now)
  obtain ⟨w₂', hrun', hpost⟩ := Twin.run htwin hf₁ hf₂ hrun
  refine ⟨w₂', hrun', ?_⟩
  cases r <;> exact hpost

theorem resting {p : Pid} {u : Db} (h : Sided p b u none w) : w.Resting :=
  ⟨h.only.quiet h.tx, h.db.sound⟩

/-- A request leaves the rows of the other businesses. -/
theorem serve_others (hs : s.request.scoped = true) (h : w.Resting) (hf : s.Fresh w)
    (hrun : s.serve w = some (w', r)) (hb : b ≠ s.request.business) :
    w'.Resting ∧ w'.db.estate b = w.db.estate b := by
  obtain ⟨w₂', -, hpost⟩ := serve_twin hs h h rfl hf hf hrun
  exact ⟨resting hpost.fst, Db.estate_of_others hb hpost.fst.db.others⟩

/-- Owner-scoped requests with new UUIDs, and what they did. -/
structure Ran (ss : List Serving) (w w' : World)
    (log : List (Serving × Except AppError Response)) : Prop where
  requests : ∀ s ∈ ss, s.request.scoped = true
  fresh : Fresh_all ss w
  run : serve_each ss w = some (w', log)

theorem Ran.cons {log : List (Serving × Except AppError Response)} (h : Ran (s :: ss) w w' log) :
    s.request.scoped = true ∧ s.Fresh w ∧ ∃ w₁ r log₁, s.serve w = some (w₁, r) ∧
      Ran ss w₁ w' log₁ ∧ log = (s, r) :: log₁ := by
  obtain ⟨hscoped, ⟨hf, hrest⟩, hrun⟩ := h
  rw [List.forall_mem_cons] at hscoped
  refine ⟨hscoped.1, hf, ?_⟩
  simp only [serve_each, Option.bind_eq_bind, Option.bind_eq_some_iff, Option.pure_def,
    Option.some.injEq] at hrun
  obtain ⟨⟨w₁, r⟩, hserve, ⟨w₂, log₁⟩, hall, heq⟩ := hrun
  cases heq
  exact ⟨w₁, r, log₁, hserve, ⟨hscoped.2, hrest _ hserve, hall⟩, rfl⟩

/-- The answers that `b` gets. -/
abbrev answers (b : Uuid) (log : List (Serving × Except AppError Response)) :
    List (Serving × Except AppError Response) := log.filter fun x => x.1.of b

/-- A request of another business is not noticed. -/
theorem Ran.skip {log : List (Serving × Except AppError Response)} (h : Ran (s :: ss) w w' log)
    (hw : w.Resting) (hb : s.of b = false) : ∃ w₁ log₁, Ran ss w₁ w' log₁ ∧ w₁.Resting ∧
      w₁.db.estate b = w.db.estate b ∧ answers b log = answers b log₁ := by
  obtain ⟨hs, hf, w₁, r, log₁, hserve, hran, rfl⟩ := h.cons
  obtain ⟨hw₁, he⟩ := serve_others hs hw hf hserve (Ne.symm (of_decide_eq_false hb))
  refine ⟨w₁, log₁, hran, hw₁, he, ?_⟩
  rw [answers, List.filter_cons_of_neg (by simp [hb])]

/-- Two sequences that differ in the requests of other businesses only. -/
theorem Ran.twin : ∀ {ss₁ ss₂ : List Serving} {w₁ w₂ w₁' w₂' : World}
    {log₁ log₂ : List (Serving × Except AppError Response)}, Ran ss₁ w₁ w₁' log₁ →
    Ran ss₂ w₂ w₂' log₂ → w₁.Resting → w₂.Resting → w₁.db.estate b = w₂.db.estate b →
    ss₁.filter (·.of b) = ss₂.filter (·.of b) →
    answers b log₁ = answers b log₂ ∧ w₁'.db.estate b = w₂'.db.estate b := by
  intro ss₁
  induction ss₁ with
  | nil =>
    intro ss₂
    induction ss₂ with
    | nil =>
      intro w₁ w₂ w₁' w₂' log₁ log₂ h₁ h₂ _ _ he _
      cases h₁.run
      cases h₂.run
      exact ⟨rfl, he⟩
    | cons s ss₂ ih =>
      intro w₁ w₂ w₁' w₂' log₁ log₂ h₁ h₂ hw₁ hw₂ he hsub
      cases hb : s.of b with
      | true => rw [List.filter_cons_of_pos hb] at hsub; cases hsub
      | false =>
        rw [List.filter_cons_of_neg (by simp [hb])] at hsub
        obtain ⟨v, log, hran, hv, he', hlog⟩ := h₂.skip hw₂ hb
        rw [hlog]
        exact ih h₁ hran hw₁ hv (he.trans he'.symm) hsub
  | cons s ss₁ ih =>
    intro ss₂ w₁ w₂ w₁' w₂' log₁ log₂ h₁ h₂ hw₁ hw₂ he hsub
    cases hb : s.of b with
    | false =>
      rw [List.filter_cons_of_neg (by simp [hb])] at hsub
      obtain ⟨v, log, hran, hv, he', hlog⟩ := h₁.skip hw₁ hb
      rw [hlog]
      exact ih hran h₂ hv hw₂ (he'.trans he) hsub
    | true =>
      rw [List.filter_cons_of_pos hb] at hsub
      induction ss₂ generalizing w₂ log₂ with
      | nil => cases hsub
      | cons s₂ ss₂ ih₂ =>
        cases hb₂ : s₂.of b with
        | false =>
          rw [List.filter_cons_of_neg (by simp [hb₂])] at hsub
          obtain ⟨v, log, hran, hv, he', hlog⟩ := h₂.skip hw₂ hb₂
          rw [hlog]
          exact ih₂ hran hv (he.trans he'.symm) hsub
        | true =>
          -- the next request of `b` is served in both worlds
          rw [List.filter_cons_of_pos hb₂] at hsub
          obtain ⟨rfl, hrest⟩ := List.cons.inj hsub
          obtain ⟨hs, hf₁, v₁, r₁, log₁, hserve₁, hran₁, rfl⟩ := h₁.cons
          obtain ⟨-, hf₂, v₂, r₂, log₂, hserve₂, hran₂, rfl⟩ := h₂.cons
          obtain rfl := of_decide_eq_true hb
          obtain ⟨v, hserve, hpost⟩ := serve_twin hs hw₁ hw₂ he hf₁ hf₂ hserve₁
          cases hserve₂.symm.trans hserve
          obtain ⟨hlog, he'⟩ := ih hran₁ hran₂ (resting hpost.fst) (resting hpost.snd)
            hpost.estate hrest
          refine ⟨?_, he'⟩
          simp only [answers, List.filter_cons, hb, if_true]
          exact congrArg ((s, r₁) :: ·) hlog

end Serving

open Serving

/-- CORRECT: two worlds that agree on the rows of a business give the same answer to each of its
    owner-scoped requests and agree on its rows again, whatever the rows of the others; and so after
    any two sequences of such requests in which the business makes the same ones. -/
theorem read_isolation (h₁ : w₁.Resting) (h₂ : w₂.Resting)
    (he : w₁.db.estate b = w₂.db.estate b) :
    (∀ s : Serving, s.request.scoped = true → s.request.business = b → s.Fresh w₁ → s.Fresh w₂ →
      (s.serve w₁).map (fun x => (x.2, x.1.db.estate b)) =
        (s.serve w₂).map fun x => (x.2, x.1.db.estate b)) ∧
    ∀ (ss₁ ss₂ : List Serving) (w₁' w₂' : World)
      (log₁ log₂ : List (Serving × Except AppError Response)),
      Ran ss₁ w₁ w₁' log₁ → Ran ss₂ w₂ w₂' log₂ → ss₁.filter (·.of b) = ss₂.filter (·.of b) →
      answers b log₁ = answers b log₂ ∧ w₁'.db.estate b = w₂'.db.estate b := by
  refine ⟨fun s hs hb hf₁ hf₂ => ?_, fun _ _ _ _ _ _ hr₁ hr₂ => hr₁.twin hr₂ h₁ h₂ he⟩
  subst hb
  cases hr₁ : s.serve w₁ with
  | some x =>
    obtain ⟨w₂', hr₂, hpost⟩ := serve_twin hs h₁ h₂ he hf₁ hf₂ hr₁
    rw [hr₂]
    exact congrArg (fun e => some (x.2, e)) hpost.estate
  | none =>
    cases hr₂ : s.serve w₂ with
    | none => rfl
    | some x =>
      obtain ⟨w₁', hr, -⟩ := serve_twin hs h₂ h₁ he.symm hf₂ hf₁ hr₂
      cases hr₁.symm.trans hr

/-- Invoice 10 of business 1, with an item. -/
def own : List Write := [.put_customer ⟨5, 1, "Ann", "a@x", 0⟩,
  .put_invoice ⟨10, 1, 5, .Draft, 100, 0, 0, 0, 1⟩, .put_line_item ⟨11, 10, "hour", 1, 100, 0⟩]

/-- Invoice 50 of business 2, with an item. -/
def billed : List Write := [.put_customer ⟨6, 2, "Bob", "a@x", 0⟩,
  .put_invoice ⟨50, 2, 6, .Open, 900, 0, 0, 0, 4⟩, .put_line_item ⟨51, 50, "year", 9, 100, 0⟩]

def World.stocked (ws : List Write) : World := ⟨.idle (applyAll .empty ws), 0, [], [], [], []⟩

/-- Nothing goes wrong; the UUIDs are `us`. -/
def drawing (us : List Uuid) : List Choice := us.map fun u => ⟨false, 1, u, [], .network_error⟩

/-- Business 1 asks for invoice 50 and adds a customer. -/
def asks : List Serving := [⟨.call 3, 7, .get_invoice 50 1, drawing [100, 101]⟩,
  ⟨.call 4, 9, .create_customer 1 ⟨"Cy", "c@x"⟩, drawing [102, 103]⟩]

/-- The same, with a request of business 2 before it. -/
def asks_amid : List Serving :=
  ⟨.call 5, 8, .create_endpoint 2 ⟨"https://b"⟩, drawing [104, 105]⟩ :: asks

theorem World.resting_stocked {ws : List Write}
    (h : ∀ x ∈ (applyAll Db.empty ws).invoice_line_items.rows,
      ((applyAll Db.empty ws).invoice x.invoice_id).isSome = true) : (stocked ws).Resting where
  quiet := ⟨fun _ => rfl, fun _ => rfl⟩
  sound := fun x hx => Option.isSome_iff_exists.mp (h x hx)

theorem read_isolation_invoice_50 : ∃ x₁ ∈ serve_each asks_amid (.stocked (own ++ billed)),
    ∃ x₂ ∈ serve_each asks (.stocked own), answers 1 x₁.2 = answers 1 x₂.2 ∧
      (answers 1 x₁.2).map (fun x => x.2.toOption.isSome) = [false, true] ∧
      x₁.1.db.estate 1 = x₂.1.db.estate 1 := by
  have h₁ : (World.stocked (own ++ billed)).Resting := World.resting_stocked (by decide +kernel)
  have h₂ : (World.stocked own).Resting := World.resting_stocked (by decide +kernel)
  have he : (World.stocked (own ++ billed)).db.estate 1 = (World.stocked own).db.estate 1 := rfl
  obtain ⟨⟨w₁, log₁⟩, hx₁, hlog⟩ : ∃ x ∈ serve_each asks_amid (.stocked (own ++ billed)),
      (answers 1 x.2).map (fun x => x.2.toOption.isSome) = [false, true] := by decide +kernel
  obtain ⟨⟨w₂, log₂⟩, hx₂⟩ : ∃ x, serve_each asks (.stocked own) = some x :=
    Option.isSome_iff_exists.mp (by decide +kernel)
  have hr₁ : Ran asks_amid (.stocked (own ++ billed)) w₁ log₁ :=
    ⟨by decide, by decide +kernel, hx₁⟩
  have hr₂ : Ran asks (.stocked own) w₂ log₂ := ⟨by decide, by decide +kernel, hx₂⟩
  obtain ⟨hans, hest⟩ := (read_isolation h₁ h₂ he).2 _ _ _ _ _ _ hr₁ hr₂ rfl
  exact ⟨_, hx₁, _, hx₂, hans, hlog, hest⟩

end Payman
