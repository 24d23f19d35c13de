import Payman.Closed
import Payman.Schemes.Closing
import Payman.Schemes.Watch
import Payman.Safety.Runs

/-! The book of the mock PSP.

    An attempt id is charged once, so one handler or the task it has spawned may write its entry,
    and the entry is never changed. A handler follows a protocol; what it asserts of the store in
    each phase tells that a response which comes in time says what the store says. -/

namespace Payman
open Schemes

/-- What an updated map holds. -/
theorem update_eq_some {α β : Type} [DecidableEq α] {f : α → Option β} {a x : α} {b y : β}
    (h : Function.update f a (some b) x = some y) : (x = a ∧ y = b) ∨ (x ≠ a ∧ f x = some y) := by
  by_cases hx : x = a
  · subst hx
    rw [Function.update_self, Option.some.injEq] at h
    exact .inl ⟨rfl, h.symm⟩
  · rw [Function.update_of_ne hx] at h
    exact .inr ⟨hx, h⟩

/-! ### An attempt is charged once -/

section
variable {K : Setting} {job : Pid → Option Job} {past : List Commit} {db : Db} {σ : Sys}

/-- The row of an attempt that a payment has started. -/
theorem History.attempt_of_starts (h : History K job past db) {c : Commit} (hc : c ∈ past)
    {t : KeyIndex} {a : PaymentAttempt} (hs : c.Starts t a) :
    ∃ row, db.attempt a.id = some row ∧ row.invoice_id = a.invoice_id ∧
      row.card_token = a.card_token := by
  induction h with
  | nil => cases hc
  | cons h hp he ih =>
    rcases List.mem_cons.mp hc with rfl | hc
    · obtain ⟨r, row, kr, hws, rfl, -⟩ := hs.writes
      obtain rfl : _ = [_, _, _] := hws
      exact ⟨row, (Table.find_put ..).trans (if_pos rfl), rfl, rfl⟩
    · obtain ⟨row, hrow, hi, hcard⟩ := ih hc
      obtain ⟨row', hrow', hi', hcard', -⟩ := he.grows.attempt _ row hrow
      exact ⟨row', hrow', hi'.trans hi, hcard'.trans hcard⟩

/-- Two payments do not start the same attempt. -/
theorem History.starts_once (h : History K job past db) {c₁ c₂ : Commit} (hc₁ : c₁ ∈ past)
    (hc₂ : c₂ ∈ past) {t₁ t₂ : KeyIndex} {a₁ a₂ : PaymentAttempt} (hs₁ : c₁.Starts t₁ a₁)
    (hs₂ : c₂.Starts t₂ a₂) (hid : a₁.id = a₂.id) : c₁ = c₂ := by
  induction h with
  | nil => cases hc₁
  | cons h hp he ih =>
    have habsent : ∀ {c c' : Commit} {t t' : KeyIndex} {a a' : PaymentAttempt}, c ∈ _ →
        c.Starts t a → c'.Starts t' a' → a.id = a'.id → c'.before = _ → False :=
      fun {c c' t t' a a'} hc hs hs' hid heq => by
        obtain ⟨row, hrow, -⟩ := h.attempt_of_starts hc hs
        cases hrow.symm.trans (hid ▸ heq ▸ hs'.attempt_absent)
    rcases List.mem_cons.mp hc₁ with h₁ | h₁ <;> rcases List.mem_cons.mp hc₂ with h₂ | h₂
    · rw [h₁, h₂]
    · exact (habsent h₂ hs₂ hs₁ hid.symm (by rw [h₁])).elim
    · exact (habsent h₁ hs₁ hs₂ hid (by rw [h₂])).elim
    · exact ih h₁ h₂

/-- An attempt is charged once. -/
theorem Inv.charges_alike (h : Inv K σ) {ch₁ ch₂ : Charge} (h₁ : ch₁ ∈ σ.world.charges)
    (h₂ : ch₂ ∈ σ.world.charges) (hid : ch₁.attempt_id = ch₂.attempt_id) : ch₁ = ch₂ := by
  obtain ⟨_, _, _, _, a₁, -, hid₁, -, c₁, hc₁, hp₁, hs₁⟩ := h.sent ch₁ h₁
  obtain ⟨_, _, _, _, a₂, -, hid₂, -, c₂, hc₂, hp₂, hs₂⟩ := h.sent ch₂ h₂
  have heq := h.history.starts_once hc₁ hc₂ hs₁ hs₂ (hid₁.trans (hid.trans hid₂.symm))
  exact List.inj_on_of_nodup_map h.once h₁ h₂ (hp₁.symm.trans ((congrArg _ heq).trans hp₂))

/-- A charge is sent by a call that pays the invoice of its attempt, with the card of both. -/
theorem Inv.attempt_of_charge (h : Inv K σ) {ch : Charge} (hch : ch ∈ σ.world.charges) :
    ∃ row b k req, σ.db.attempt ch.attempt_id = some row ∧
      σ.job ch.pid = some (.call (.pay_invoice row.invoice_id b (some k) req)) ∧
      req.card_token = ch.card_token ∧ row.card_token = ch.card_token := by
  obtain ⟨b, i, k, req, a, hj, hid, hcard, c, hc, hp, hs⟩ := h.sent ch hch
  obtain ⟨row, hrow, hi, hrowcard⟩ := h.history.attempt_of_starts hc hs
  -- the row was written by the call's own first transaction
  have hwrote : a.invoice_id = i ∧ a.card_token = req.card_token := by
    obtain ⟨past, j, -, hj', he⟩ := h.history.of_mem hc
    cases hj.symm.trans (hp ▸ hj')
    obtain ⟨r, row', kr, hws, rfl, -⟩ := hs.writes
    rw [hws] at he
    cases he with
    | pay_start _ hrow' => exact hrow' ▸ ⟨rfl, rfl⟩
  refine ⟨row, b, k, req, hid ▸ hrow, ?_, hcard, hrowcard.trans (hwrote.2.trans hcard)⟩
  rw [hj, hi, hwrote.1]

end

/-! ### The protocol of a handler -/

namespace MockPsp

/-- What the PSP may record for a card. -/
def Settles (card_token : String) (o : ChargeOutcome) : Prop :=
  ((card_token = "tok_success" ∨ card_token = "tok_timeout") ∧ ∃ u, o = succeeded u) ∨
  (card_token = "tok_insufficient_funds" ∧ o = failed "insufficient_funds") ∨
  (card_token = "tok_card_declined" ∧ o = failed "card_declined")

inductive Phase where
  /-- Nothing has been decided. -/
  | asked
  /-- The outcome will be stored. -/
  | settling
  | settled (o : ChargeOutcome)
  /-- A task has been spawned to store it. -/
  | handed
  /-- Thirty seconds later. -/
  | late

/-- The operations of a program that settles `req`, by phases. -/
def Next (req : ChargeRequest) : Phase → (e : Eff) → e.Reply → Phase → Prop
  | .asked, .sleep _, _, x' => x' = .settling
  | .asked, .spawn a, _, x' => a = req.attempt_id ∧ req.card_token = "tok_timeout" ∧ x' = .handed
  | .settling, .new_v4, _, x' => x' = .settling
  | .settling, .insert a o, _, x' => a = req.attempt_id ∧ Settles req.card_token o ∧ x' = .settled o
  | .handed, .sleep ms, _, x' => ms = 30000 ∧ x' = .late
  | .late, .new_v4, _, x' => x' = .late
  | _, _, _, _ => False

/-- The phases in which a handler returns. -/
def Ends : Except StatusCode ChargeOutcome → Phase → Prop
  | .ok o, x => x = .settled o ∨ x = .late
  | .error status, x => x = .asked ∧ is_success status = false

theorem charge_follows (req : ChargeRequest) : Follows (Next req) Ends (charge req) .asked := by
  unfold charge
  split
  · rename_i hcard
    refine fun _ => ⟨_, rfl, fun u => ⟨_, rfl, fun _ => ⟨_, ⟨rfl, ?_, rfl⟩, .inl rfl⟩⟩⟩
    exact .inl ⟨.inl hcard, u, rfl⟩
  · rename_i hcard
    exact fun _ => ⟨_, rfl, fun _ => ⟨_, ⟨rfl, .inr (.inl ⟨hcard, rfl⟩), rfl⟩, .inl rfl⟩⟩
  · rename_i hcard
    exact fun _ => ⟨_, rfl, fun _ => ⟨_, ⟨rfl, .inr (.inr ⟨hcard, rfl⟩), rfl⟩, .inl rfl⟩⟩
  · rename_i hcard
    exact fun _ => ⟨_, ⟨rfl, hcard, rfl⟩, fun _ => ⟨_, ⟨rfl, rfl⟩, fun _ => ⟨_, rfl, .inr rfl⟩⟩⟩
  · exact ⟨rfl, rfl⟩
  · exact ⟨rfl, rfl⟩

theorem settle_follows {req : ChargeRequest} (hcard : req.card_token = "tok_timeout") :
    Follows (Next req) (fun _ x => ∃ o, x = .settled o) (settle req.attempt_id) .settling := by
  refine fun u => ⟨_, rfl, fun _ => ⟨_, ⟨rfl, ?_, rfl⟩, _, rfl⟩⟩
  exact .inl ⟨.inr hcard, u, rfl⟩

/-! ### What the phases assert -/

/-- The attempts for which a task has been spawned. -/
def State.ids (s : State) : List Uuid := s.tasks.map (·.attempt_id)

/-- A task that goes on keeps its attempt. -/
theorem State.ids_set {s : State} {n : ℕ} {t : Task} (ht : s.tasks[n]? = some t)
    (prog : Prog mock Unit) : (s.tasks.set n ⟨t.attempt_id, prog⟩).map (·.attempt_id) = s.ids := by
  refine List.ext_getElem? fun m => ?_
  rw [List.map_set, List.getElem?_set, ids]
  split
  · rename_i hnm
    subst hnm
    obtain ⟨hn, -⟩ := List.getElem?_eq_some_iff.mp ht
    rw [List.length_map, if_pos hn, List.getElem?_map, ht, Option.map_some]
  · rfl

/-- Neither the store nor a spawned task knows the attempt. -/
def State.Untouched (s : State) (a : Uuid) : Prop := s.store a = none ∧ a ∉ s.ids

/-- A handler beside the PSP: the second component says how long after its request it goes on. -/
def handling (req : ChargeRequest) :
    Watch mock (State × DateTime) Phase (Except StatusCode ChargeOutcome) where
  next := Next req
  fin := Ends
  holds
    | .asked, w | .settling, w => w.1.Untouched req.attempt_id
    | .settled o, w => w.1.store req.attempt_id = some o
    | .handed, _ => True
    | .late, w => 30000000 ≤ w.2

/-- A spawned task beside the PSP. -/
def settling (req : ChargeRequest) : Watch mock State Phase Unit where
  next := Next req
  fin := fun _ x => ∃ o, x = .settled o
  holds
    | .settling, s => s.store req.attempt_id = none
    | .settled o, s => s.store req.attempt_id = some o
    | _, _ => False

/-- What programs that settle `req` do to the PSP. -/
inductive Acts (req : ChargeRequest) (s : State) : State → Prop where
  | insert (o : ChargeOutcome) (hnone : s.store req.attempt_id = none)
      (ho : Settles req.card_token o) :
      Acts req s { s with store := Function.update s.store req.attempt_id (some o) }
  | spawn (hnew : s.Untouched req.attempt_id) (hcard : req.card_token = "tok_timeout") :
      Acts req s { s with tasks := s.tasks ++ [⟨req.attempt_id, settle req.attempt_id⟩] }

namespace Acts
variable {req : ChargeRequest} {s s' : State} {b : Uuid}

/-- An entry is not changed. -/
theorem store (h : Acts req s s') {o : ChargeOutcome} (hb : s.store b = some o) :
    s'.store b = some o := by
  cases h with
  | insert o' hnone =>
    refine (Function.update_of_ne ?_ ..).trans hb
    rintro rfl
    cases hnone.symm.trans hb
  | spawn => exact hb

theorem untouched (h : Acts req s s') (hne : b ≠ req.attempt_id) (hb : s.Untouched b) :
    s'.Untouched b := by
  cases h with
  | insert o' hnone => exact ⟨(Function.update_of_ne hne ..).trans hb.1, hb.2⟩
  | spawn =>
    refine ⟨hb.1, fun hmem => ?_⟩
    rw [State.ids, List.map_append, List.mem_append] at hmem
    rcases hmem with hmem | hmem
    · exact hb.2 hmem
    · exact hne (List.mem_singleton.mp hmem)

end Acts

/-! Times of a handler, in microseconds. -/

theorem late_of_sleep {sent_at now : ℤ} (h : sent_at ≤ now) :
    30000000 ≤ now + 1000 * (30000 : ℕ) - sent_at := by omega

theorem late_of_late {sent_at now d : ℤ} (hd : 30000000 ≤ d) (h : d ≤ now - sent_at) :
    30000000 ≤ now + 0 - sent_at := by omega

theorem not_late {sent_at now wake : ℤ} (hd : 30000000 ≤ wake - sent_at) (hwake : wake ≤ now)
    (h : now < sent_at + 30000000) : False := by omega

section
variable {req : ChargeRequest} {s : State} {d now sent_at : DateTime} {u : Uuid} {x x' : Phase}
  {e : Eff}

/-- An operation of a handler. -/
theorem handling_acts (hx : (handling req).holds x (s, d))
    (hnext : Next req x e (s.act u e).2 x') :
    (s.act u e).1 = s ∨ (s.Untouched req.attempt_id ∧ Acts req s (s.act u e).1) := by
  cases x <;> cases e <;> try exact hnext.elim
  case asked.sleep | settling.new_v4 | handed.sleep | late.new_v4 => exact .inl rfl
  case asked.spawn a =>
    obtain ⟨rfl, hcard, -⟩ := hnext
    exact .inr ⟨hx, .spawn hx hcard⟩
  case settling.insert a o =>
    obtain ⟨rfl, ho, -⟩ := hnext
    exact .inr ⟨hx, .insert o hx.1 ho⟩

/-- Its next phase holds. -/
theorem handling_own (hx : (handling req).holds x (s, d)) (hsent : sent_at ≤ now)
    (hd : d ≤ now - sent_at) (hnext : Next req x e (s.act u e).2 x') :
    (handling req).holds x' ((s.act u e).1, now + e.pause - sent_at) := by
  cases x <;> cases e <;> try exact hnext.elim
  case asked.sleep | settling.new_v4 =>
    obtain rfl : x' = _ := hnext
    exact hx
  case asked.spawn =>
    obtain ⟨-, -, rfl⟩ := hnext
    trivial
  case settling.insert =>
    obtain ⟨rfl, -, rfl⟩ := hnext
    exact Function.update_self ..
  case handed.sleep ms =>
    obtain ⟨rfl, rfl⟩ := hnext
    exact late_of_sleep hsent
  case late.new_v4 =>
    obtain rfl : x' = _ := hnext
    exact late_of_late hx hd

/-- A step of a handler. -/
theorem handling_step {h h' : Handler} {s' : State} (hrun : h.step now u s = some (s', h'))
    (hsent : sent_at ≤ now) (hsees : (handling req).Sees (some h.prog) (s, h.wake - sent_at)) :
    (handling req).Sees (some h'.prog) (s', h'.wake - sent_at) ∧
      (s' = s ∨ (s.Untouched req.attempt_id ∧ Acts req s s')) := by
  obtain ⟨wake, prog⟩ := h
  cases prog with
  | ret r => cases hrun
  | op e k =>
    simp only [Handler.step] at hrun
    split at hrun
    · rename_i hwake
      cases hrun
      obtain ⟨x, hin, hx⟩ := hsees
      obtain ⟨x', hnext, hk⟩ := hin (s.act u e).2
      refine ⟨⟨x', hk, ?_⟩, handling_acts hx hnext⟩
      exact handling_own hx hsent (Int.sub_le_sub_right hwake _) hnext
    · cases hrun

/-- A step of others: of another request, or of the task that this handler has spawned. -/
theorem handling_other {req' : ChargeRequest} {s' : State} (hx : (handling req).holds x (s, d))
    (h : Acts req' s s')
    (hne : req.attempt_id = req'.attempt_id → req.attempt_id ∈ s.ids) :
    (handling req).holds x (s', d) := by
  have huntouched : s.Untouched req.attempt_id → s'.Untouched req.attempt_id := fun hx =>
    h.untouched (fun heq => hx.2 (hne heq)) hx
  cases x with
  | asked | settling => exact huntouched hx
  | settled o => exact h.store hx
  | handed => trivial
  | late => exact hx

/-- What a handler asserts is about the store and the ids of the tasks. -/
theorem handling_congr {s' : State} (hx : (handling req).holds x (s, d)) (hstore : s'.store = s.store)
    (hids : s'.ids = s.ids) : (handling req).holds x (s', d) := by
  cases x with
  | asked | settling => exact ⟨hstore ▸ hx.1, hids ▸ hx.2⟩
  | settled o => exact (congrFun hstore _).trans hx
  | handed => trivial
  | late => exact hx

/-- A response that comes within thirty seconds says what the store says. -/
theorem handling_response {h : Handler} {ans : Answer}
    (hsees : (handling req).Sees (some h.prog) (s, h.wake - sent_at))
    (hans : h.response now = some ans) (hlate : now < sent_at + 30000000) :
    (∃ o, s.store req.attempt_id = some o ∧ ans = .response 200 (some o.body)) ∨
    ∃ status, ans = .response status none ∧ is_success status = false := by
  obtain ⟨wake, prog⟩ := h
  cases prog with
  | op e k => cases hans
  | ret r =>
    simp only [Handler.response] at hans
    split at hans
    · rename_i hwake
      cases hans
      obtain ⟨x, hend, hx⟩ := hsees.returned
      cases r with
      | ok o =>
        rcases hend with rfl | rfl
        · exact .inl ⟨o, hx, rfl⟩
        · exact (not_late hx hwake hlate).elim
      | error status => exact .inr ⟨status, rfl, hend.2⟩
    · cases hans

/-- An operation of a task. -/
theorem settling_acts (hx : (settling req).holds x s) (hnext : Next req x e (s.act u e).2 x') :
    (s.act u e).1.tasks = s.tasks ∧ ((s.act u e).1 = s ∨ Acts req s (s.act u e).1) ∧
      (settling req).holds x' (s.act u e).1 := by
  cases x <;> cases e <;> try first | exact hnext.elim | exact hx.elim
  case settling.new_v4 =>
    obtain rfl : x' = _ := hnext
    exact ⟨rfl, .inl rfl, hx⟩
  case settling.insert a o =>
    obtain ⟨rfl, ho, rfl⟩ := hnext
    exact ⟨rfl, .inr (.insert o hx ho), Function.update_self ..⟩

/-- A step of a task: it acts, and goes on in its place. -/
theorem settling_step {s' : State} {n : ℕ} {t : Task} (ht : s.tasks[n]? = some t)
    (hrun : s.run_task u n = some s') (hsees : (settling req).Sees (some t.prog) s) :
    ∃ s₁ prog, (s₁ = s ∨ Acts req s s₁) ∧ s₁.tasks = s.tasks ∧
      s' = { s₁ with tasks := s.tasks.set n ⟨t.attempt_id, prog⟩ } ∧
      (settling req).Sees (some prog) s' := by
  obtain ⟨a, prog⟩ := t
  simp only [State.run_task, ht] at hrun
  cases prog with
  | ret r => cases hrun
  | op e k =>
    cases hrun
    obtain ⟨x, hin, hx⟩ := hsees
    obtain ⟨x', hnext, hk⟩ := hin (s.act u e).2
    obtain ⟨htasks, hacts, hown⟩ := settling_acts hx hnext
    refine ⟨_, _, hacts, htasks, by rw [htasks], x', hk, ?_⟩
    cases x' <;> exact hown

/-- A step of others: what a task asserts is about the entry of its attempt. -/
theorem settling_other {req' : ChargeRequest} {s' : State} (hx : (settling req).holds x s)
    (h : Acts req' s s') (hne : req.attempt_id ≠ req'.attempt_id) :
    (settling req).holds x s' := by
  cases x with
  | settling =>
    cases h with
    | insert => exact (Function.update_of_ne hne ..).trans hx
    | spawn => exact hx
  | settled o => exact h.store hx
  | asked | handed | late => exact hx.elim

end

end MockPsp

end Payman
