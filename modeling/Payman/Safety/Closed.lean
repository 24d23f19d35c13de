import Payman.Safety.Books

/-! Payman and its mock PSP, step by step.

    The invariant ties every handler, task and entry of the PSP to the one charge it is for. A step
    of the PSP is one operation of a handler or a task; a step of Payman opens at most one call. -/

namespace Payman
open Schemes

/-- The charge that is answered through this call of process `p`. -/
def Call.charge (call : Call) (p : Pid) : Charge :=
  ⟨p, call.request.attempt_id, call.request.card_token⟩

namespace Closed

structure Inv (s : Closed) : Prop where
  payman : Payman.Inv .any s.payman
  sent : ∀ p call, s.calls p = some call →
    call.sent_at ≤ s.clock ∧ call.charge p ∈ s.payman.world.charges
  handlers : ∀ p call h, s.calls p = some call → call.handler = some h →
    (MockPsp.handling call.request).Sees (some h.prog) (s.psp, h.wake - call.sent_at)
  tasks : ∀ t ∈ s.psp.tasks, ∃ ch ∈ s.payman.world.charges, ch.attempt_id = t.attempt_id ∧
    (MockPsp.settling ⟨ch.card_token, ch.attempt_id⟩).Sees (some t.prog) s.psp
  once : s.psp.ids.Nodup
  entries : ∀ a o, s.psp.store a = some o →
    ∃ ch ∈ s.payman.world.charges, ch.attempt_id = a ∧ MockPsp.Settles ch.card_token o

variable {s s' : Closed}

theorem Inv.initial : Inv initial where
  payman := .initial
  sent := nofun
  handlers := nofun
  tasks := nofun
  once := List.nodup_nil
  entries := nofun

/-! ### Steps of the PSP -/

/-- Two calls are not about the same attempt. -/
theorem Inv.calls_alike (h : s.Inv) {p q : Pid} {call call' : Call} (hp : s.calls p = some call)
    (hq : s.calls q = some call') (hid : call.request.attempt_id = call'.request.attempt_id) :
    p = q :=
  congrArg Charge.pid (h.payman.charges_alike (h.sent p call hp).2 (h.sent q call' hq).2 hid)

/-- The entries after a program that settles the charge `ch` has acted. -/
theorem Inv.entries_acts (h : s.Inv) {ch : Charge} (hch : ch ∈ s.payman.world.charges)
    {psp : MockPsp.State} (hacts : MockPsp.Acts ⟨ch.card_token, ch.attempt_id⟩ s.psp psp) {a : Uuid}
    {o : MockPsp.ChargeOutcome} (ho : psp.store a = some o) :
    ∃ ch ∈ s.payman.world.charges, ch.attempt_id = a ∧ MockPsp.Settles ch.card_token o := by
  cases hacts with
  | spawn => exact h.entries a o ho
  | insert o' hnone hset =>
    rcases update_eq_some ho with ⟨rfl, rfl⟩ | ⟨-, ho⟩
    · exact ⟨ch, hch, rfl, hset⟩
    · exact h.entries a o ho

/-- The tasks after a handler has acted for a charge that no task was about. -/
theorem Inv.tasks_acts (h : s.Inv) {ch : Charge} (hch : ch ∈ s.payman.world.charges)
    {psp : MockPsp.State} (hnew : s.psp.Untouched ch.attempt_id)
    (hacts : MockPsp.Acts ⟨ch.card_token, ch.attempt_id⟩ s.psp psp) :
    psp.ids.Nodup ∧ ∀ t ∈ psp.tasks, ∃ ch ∈ s.payman.world.charges, ch.attempt_id = t.attempt_id ∧
      (MockPsp.settling ⟨ch.card_token, ch.attempt_id⟩).Sees (some t.prog) psp := by
  have hold : ∀ t ∈ s.psp.tasks, ∃ ch ∈ s.payman.world.charges, ch.attempt_id = t.attempt_id ∧
      (MockPsp.settling ⟨ch.card_token, ch.attempt_id⟩).Sees (some t.prog) psp := fun t ht => by
    obtain ⟨ch', hch', hid', hsees⟩ := h.tasks t ht
    refine ⟨ch', hch', hid', hsees.other fun x hx => MockPsp.settling_other hx hacts fun heq => ?_⟩
    exact hnew.2 (List.mem_map.mpr ⟨t, ht, hid'.symm.trans heq⟩)
  cases hacts with
  | insert => exact ⟨h.once, hold⟩
  | spawn _ hcard =>
    refine ⟨?_, fun t ht => ?_⟩
    · rw [MockPsp.State.ids, List.map_append]
      refine List.Nodup.append h.once (List.nodup_singleton _) ?_
      exact List.disjoint_singleton.mpr hnew.2
    · rcases List.mem_append.mp ht with ht | ht
      · exact hold t ht
      · obtain rfl := List.mem_singleton.mp ht
        exact ⟨ch, hch, rfl, _, MockPsp.settle_follows hcard, hnew.1⟩

/-- The call of `p` goes on beside the PSP `psp`. -/
theorem Inv.go_on (h : s.Inv) {p : Pid} {call call' : Call} {psp : MockPsp.State}
    (hp : s.calls p = some call) (hreq : call'.request = call.request)
    (hat : call'.sent_at = call.sent_at)
    (hsees : ∀ hd, call'.handler = some hd → (MockPsp.handling call.request).Sees (some hd.prog)
      (psp, hd.wake - call.sent_at))
    (hothers : ∀ q callq, q ≠ p → s.calls q = some callq → ∀ x d,
      (MockPsp.handling callq.request).holds x (s.psp, d) →
      (MockPsp.handling callq.request).holds x (psp, d))
    (honce : psp.ids.Nodup)
    (htasks : ∀ t ∈ psp.tasks, ∃ ch ∈ s.payman.world.charges, ch.attempt_id = t.attempt_id ∧
      (MockPsp.settling ⟨ch.card_token, ch.attempt_id⟩).Sees (some t.prog) psp)
    (hentries : ∀ a o, psp.store a = some o →
      ∃ ch ∈ s.payman.world.charges, ch.attempt_id = a ∧ MockPsp.Settles ch.card_token o) :
    Inv { s with psp, calls := Function.update s.calls p (some call') } where
  payman := h.payman
  sent := fun q callq hq => by
    rcases update_eq_some hq with ⟨rfl, rfl⟩ | ⟨-, hq⟩
    · rw [Call.charge, hreq, hat]
      exact h.sent q call hp
    · exact h.sent q callq hq
  handlers := fun q callq hd hq hhd => by
    rcases update_eq_some hq with ⟨rfl, rfl⟩ | ⟨hqp, hq⟩
    · rw [hreq, hat]
      exact hsees hd hhd
    · exact (h.handlers q callq hd hq hhd).other fun x hx => hothers q callq hqp hq x _ hx
  tasks := htasks
  once := honce
  entries := hentries

/-- The handler of `p`'s charge takes a step. -/
theorem Inv.handle (h : s.Inv) {p : Pid} {u : Uuid} (hstep : s.step (.handle p u) = some s') :
    s'.Inv ∧ s'.payman = s.payman ∧ ∀ a o, s.psp.store a = some o → s'.psp.store a = some o := by
  simp only [step] at hstep
  split at hstep
  · rename_i request sent_at hd hp
    obtain ⟨⟨psp, hd'⟩, hrun, rfl⟩ := Option.map_eq_some_iff.mp hstep
    obtain ⟨hsent, hcharge⟩ := h.sent p _ hp
    obtain ⟨hsees, hacts⟩ := MockPsp.handling_step hrun hsent (h.handlers p _ hd hp rfl)
    have hsees : ∀ hd, some hd' = some hd →
        (MockPsp.handling request).Sees (some hd.prog) (psp, hd.wake - sent_at) := fun hd hhd =>
      Option.some.inj hhd ▸ hsees
    rcases hacts with rfl | ⟨hnew, hacts⟩
    · exact ⟨h.go_on hp rfl rfl hsees (fun _ _ _ _ _ _ hx => hx) h.once h.tasks h.entries, rfl,
        fun _ _ ho => ho⟩
    · obtain ⟨honce, htasks⟩ := h.tasks_acts hcharge hnew hacts
      refine ⟨h.go_on hp rfl rfl hsees (fun q callq hqp hq x d hx => ?_) honce htasks
        fun a o => h.entries_acts hcharge hacts, rfl, fun a o => hacts.store⟩
      exact MockPsp.handling_other hx hacts fun heq => absurd (h.calls_alike hq hp heq) hqp
  · cases hstep

/-- A connection is closed. -/
theorem Inv.hang_up (h : s.Inv) {p : Pid} (hstep : s.step (.hang_up p) = some s') :
    s'.Inv ∧ s'.payman = s.payman ∧ s'.psp = s.psp := by
  simp only [step] at hstep
  split at hstep
  · rename_i call hp
    cases hstep
    refine ⟨h.go_on hp rfl rfl nofun (fun q callq _ _ x d hx => hx) h.once h.tasks h.entries,
      rfl, rfl⟩
  · cases hstep

/-- A spawned task takes a step. -/
theorem Inv.settle (h : s.Inv) {n : ℕ} {u : Uuid} (hstep : s.step (.settle n u) = some s') :
    s'.Inv ∧ s'.payman = s.payman ∧ ∀ a o, s.psp.store a = some o → s'.psp.store a = some o := by
  simp only [step] at hstep
  obtain ⟨psp, hrun, rfl⟩ := Option.map_eq_some_iff.mp hstep
  cases ht : s.psp.tasks[n]? with
  | none => simp [MockPsp.State.run_task, ht] at hrun
  | some t =>
    have hmem := List.mem_of_getElem? ht
    obtain ⟨ch, hch, hid, hsees⟩ := h.tasks t hmem
    obtain ⟨s₁, prog, hacts, htasks, rfl, hsees⟩ := MockPsp.settling_step ht hrun hsees
    have hids : (s.psp.tasks.set n ⟨t.attempt_id, prog⟩).map (·.attempt_id) = s.psp.ids :=
      MockPsp.State.ids_set ht prog
    refine ⟨⟨h.payman, h.sent, fun p call hd hp hhd => ?_, fun t' ht' => ?_, ?_, fun a o ho => ?_⟩,
      rfl, fun a o ho => ?_⟩
    · refine (h.handlers p call hd hp hhd).other fun x hx => ?_
      have hx₁ : (MockPsp.handling call.request).holds x (s₁, hd.wake - call.sent_at) := by
        rcases hacts with rfl | hacts
        · exact hx
        · refine MockPsp.handling_other hx hacts fun heq => ?_
          exact List.mem_map.mpr ⟨t, hmem, hid.symm.trans heq.symm⟩
      refine MockPsp.handling_congr hx₁ rfl ?_
      rw [MockPsp.State.ids, MockPsp.State.ids, htasks]
      exact hids
    · by_cases heq : t'.attempt_id = t.attempt_id
      · have hnew : ⟨t.attempt_id, prog⟩ ∈ s.psp.tasks.set n ⟨t.attempt_id, prog⟩ :=
          List.mem_set (List.getElem?_eq_some_iff.mp ht).1 _
        obtain rfl := List.inj_on_of_nodup_map (hids ▸ h.once) ht' hnew heq
        exact ⟨ch, hch, hid, hsees⟩
      · have hold : t' ∈ s.psp.tasks := by
          rcases List.mem_or_eq_of_mem_set ht' with hold | rfl
          · exact hold
          · exact absurd rfl heq
        obtain ⟨ch', hch', hid', hsees'⟩ := h.tasks t' hold
        refine ⟨ch', hch', hid', hsees'.other fun x hx => ?_⟩
        have hx₁ : (MockPsp.settling ⟨ch'.card_token, ch'.attempt_id⟩).holds x s₁ := by
          rcases hacts with rfl | hacts
          · exact hx
          · refine MockPsp.settling_other hx hacts fun hch => heq ?_
            exact hid'.symm.trans (Eq.trans hch hid)
        cases x <;> exact hx₁
    · exact (congrArg List.Nodup hids).mpr h.once
    · rcases hacts with rfl | hacts
      · exact h.entries a o ho
      · exact h.entries_acts hch hacts ho
    · rcases hacts with rfl | hacts
      · exact ho
      · exact hacts.store ho

/-! ### Steps of Payman -/

/-- A step of Payman opens no call, or the one of the charge that it sends. -/
theorem send_cases (s : Closed) (l : Sys.Label) : s.send l = s.calls ∨
    ∃ p c a card, l = .exec p c ∧ s.payman.head p = some (.send_charge a card) ∧
      s.send l = Function.update s.calls p
        (some ⟨⟨card, a⟩, s.clock, some ⟨s.clock, MockPsp.charge ⟨card, a⟩⟩⟩) := by
  cases l with
  | exec p c =>
    simp only [send]
    split
    · rename_i a card hhead
      exact .inr ⟨p, c, a, card, rfl, hhead, rfl⟩
    · exact .inl rfl
  | _ => exact .inl rfl

/-- The charge that is sent. -/
theorem charges_of_send {σ σ' : Sys} {p : Pid} {c : Choice} {a : Uuid}
    {card : String} (hhead : σ.head p = some (.send_charge a card))
    (hstep : σ.step (.exec p c) = some σ') :
    σ'.world.charges = ⟨p, a, card⟩ :: σ.world.charges := by
  obtain ⟨j, e, k, w, r, hp, hx, rfl⟩ := Sys.set_of_exec hstep
  cases (Sys.head_of_op hp).symm.trans hhead
  cases hx
  rfl

theorem Inv.pay (h : s.Inv) {l : Sys.Label} (hstep : s.step (.payman l) = some s') :
    s'.Inv ∧ s'.psp = s.psp ∧ s.Allows l ∧ s.payman.step l = some s'.payman := by
  simp only [step] at hstep
  split at hstep
  · rename_i hl
    obtain ⟨σ, hσ, rfl⟩ := Option.map_eq_some_iff.mp hstep
    refine ⟨?_, rfl, hl, hσ⟩
    have hpayman := h.payman.step .any hσ
    have hold : ∀ ch ∈ s.payman.world.charges, ch ∈ σ.world.charges := fun ch hch => by
      cases h.payman.happens .any hσ with
      | quiet _ _ hc => exact hc ▸ hch
      | commit _ _ _ _ _ _ hc => exact hc ▸ hch
      | send _ _ _ _ _ _ _ hc => exact hc ▸ List.mem_cons_of_mem _ hch
    have htasks : ∀ t ∈ s.psp.tasks, ∃ ch ∈ σ.world.charges, ch.attempt_id = t.attempt_id ∧
        (MockPsp.settling ⟨ch.card_token, ch.attempt_id⟩).Sees (some t.prog) s.psp := fun t ht =>
      let ⟨ch, hch, hrest⟩ := h.tasks t ht
      ⟨ch, hold ch hch, hrest⟩
    have hentries : ∀ a o, s.psp.store a = some o →
        ∃ ch ∈ σ.world.charges, ch.attempt_id = a ∧ MockPsp.Settles ch.card_token o := fun a o ho =>
      let ⟨ch, hch, hrest⟩ := h.entries a o ho
      ⟨ch, hold ch hch, hrest⟩
    rcases s.send_cases l with heq | ⟨p, c, a, card, rfl, hhead, heq⟩
    · rw [heq]
      exact ⟨hpayman, fun p call hp => ⟨(h.sent p call hp).1, hold _ (h.sent p call hp).2⟩,
        h.handlers, htasks, h.once, hentries⟩
    · rw [heq]
      have hcharges := charges_of_send hhead hσ
      have hsent : (⟨p, a, card⟩ : Charge) ∈ σ.world.charges := hcharges ▸ List.mem_cons_self ..
      -- no earlier charge is about this attempt, so the PSP has never heard of it
      have hnew : ∀ ch ∈ s.payman.world.charges, ch.attempt_id ≠ a := fun ch hch hid => by
        have honce := hpayman.once
        obtain rfl := hpayman.charges_alike (hold ch hch) hsent hid
        rw [hcharges, List.map_cons, List.nodup_cons] at honce
        exact honce.1 (List.mem_map.mpr ⟨_, hch, rfl⟩)
      refine ⟨hpayman, fun q call hq => ?_, fun q call hd hq hhd => ?_, htasks, h.once, hentries⟩
      · rcases update_eq_some hq with ⟨rfl, rfl⟩ | ⟨-, hq⟩
        · exact ⟨Int.le_refl _, hsent⟩
        · exact ⟨(h.sent q call hq).1, hold _ (h.sent q call hq).2⟩
      · rcases update_eq_some hq with ⟨rfl, rfl⟩ | ⟨-, hq⟩
        · cases hhd
          refine ⟨.asked, MockPsp.charge_follows _, ?_, fun hmem => ?_⟩
          · by_contra hsome
            obtain ⟨o, ho⟩ := Option.ne_none_iff_exists'.mp hsome
            obtain ⟨ch, hch, hid, -⟩ := h.entries a o ho
            exact hnew ch hch hid
          · obtain ⟨t, ht, hta⟩ := List.mem_map.mp hmem
            obtain ⟨ch, hch, hid, -⟩ := h.tasks t ht
            exact hnew ch hch (hid.trans hta)
        · exact h.handlers q call hd hq hhd
  · cases hstep

/-! ### Runs -/

/-- The step lemma: the invariant, and that no entry of the store is ever changed. -/
theorem Inv.step (h : s.Inv) {l : Label} (hstep : s.step l = some s') :
    s'.Inv ∧ ∀ a o, s.psp.store a = some o → s'.psp.store a = some o := by
  cases l with
  | payman l =>
    obtain ⟨h', hpsp, -⟩ := h.pay hstep
    exact ⟨h', fun a o ho => hpsp ▸ ho⟩
  | elapse d =>
    cases hstep
    refine ⟨{ h with sent := fun p call hp => ?_ }, fun _ _ ho => ho⟩
    exact ⟨Int.le_trans (h.sent p call hp).1 (Int.le_add_of_nonneg_right (Int.natCast_nonneg d)),
      (h.sent p call hp).2⟩
  | handle p u => exact ⟨(h.handle hstep).1, (h.handle hstep).2.2⟩
  | hang_up p =>
    obtain ⟨h', -, hpsp⟩ := h.hang_up hstep
    exact ⟨h', fun a o ho => hpsp ▸ ho⟩
  | settle n u => exact ⟨(h.settle hstep).1, (h.settle hstep).2.2⟩

end Closed

end Payman
