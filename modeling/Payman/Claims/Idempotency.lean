import Payman.Safety.Turns

/-! Idempotency keys.

    The first transaction of a payment creates the attempt and takes the key, so all calls with one
    key together create one attempt and send one charge. Nobody else writes the key's record, so
    once that call has answered, replays read its answer. -/

namespace Payman
open Schemes

variable {K : Setting} {T : Pid} {db : Db} {past : List Commit} {ws : List Write} {σ σ' : Sys}

/-- What a write does to the row of an attempt. -/
@[simp] def Write.attempt_row (a : Uuid) (o : Option AttemptRow) : Write → Option AttemptRow
  | .put_attempt row => if row.id = a then some row else o
  | _ => o

theorem Db.attempt_applyAll (a : Uuid) : ∀ (ws : List Write) (db : Db),
    (applyAll db ws).attempt a = ws.foldl (Write.attempt_row a) (db.attempt a)
  | [], _ => rfl
  | w :: ws, db => by
    rw [applyAll_cons, Db.attempt_applyAll a ws, List.foldl_cons]
    cases w with
    | put_attempt row => exact congrArg (ws.foldl (Write.attempt_row a)) (Table.find_put ..)
    | _ => rfl

/-! ### At most once -/

/-- Process `p` is a call of `pay_invoice` under the key `t`. -/
def Sys.Pays (σ : Sys) (p : Pid) (t : KeyIndex) : Prop :=
  ∃ req, σ.job p = some (.call (.pay_invoice t.2.2 t.2.1 (some t.1) req))

/-- The commit inserts the row of attempt `a`. -/
def Commit.Creates (c : Commit) (a : Uuid) : Prop :=
  c.before.attempt a = none ∧ (c.after.attempt a).isSome

instance (c : Commit) (a : Uuid) : Decidable (c.Creates a) :=
  inferInstanceAs (Decidable (_ ∧ _))

/-- A payment creates an attempt in its first transaction only. -/
theorem Effect.creates {t : KeyIndex} {req : PayInvoiceRequest}
    (h : Effect K T past db (.call (.pay_invoice t.2.2 t.2.1 (some t.1) req)) ws) {a : Uuid}
    (hc : Commit.Creates ⟨T, db, ws⟩ a) : ∃ a₀, a₀.id = a ∧ Commit.Starts ⟨T, db, ws⟩ t a₀ := by
  obtain ⟨hnone, hsome⟩ := hc
  obtain ⟨row, hrow⟩ := Option.isSome_iff_exists.mp hsome
  have hrow : (applyAll db ws).attempt a = some row := hrow
  rw [Db.attempt_applyAll] at hrow
  cases h with
  | pay_leave => cases hnone.symm.trans hrow
  | @pay_record b i k req a' row' r kr o ans now hb hrow' =>
    simp only [List.foldl_cons, List.foldl_nil, Write.attempt_row, Outcome.record_id] at hrow
    split at hrow
    · rename_i ha
      cases hnone.symm.trans (ha ▸ Db.id_of_attempt hrow' ▸ hrow')
    · cases hnone.symm.trans hrow
  | @pay_start b i a' k req r row' kr now hr hrow' hfresh hkr =>
    simp only [List.foldl_cons, List.foldl_nil, Write.attempt_row] at hrow
    split at hrow
    · rename_i ha
      refine ⟨row'.toPaymentAttempt, ha, hr.2.2.2.2, ha ▸ hnone, _, row', kr, rfl, rfl, ?_⟩
      rw [hkr]; rfl
    · cases hnone.symm.trans hrow

/-- A payment that has created an attempt has taken its key. -/
theorem Inv.started_of_creates (h : Inv K σ) {c : Commit} (hc : c ∈ σ.world.history)
    {t : KeyIndex} (hp : σ.Pays c.pid t) {a : Uuid} (hcr : c.Creates a) :
    ∃ a₀, a₀.id = a ∧ c.Starts t a₀ := by
  obtain ⟨req, hj⟩ := hp
  obtain ⟨past, j, -, hj', he⟩ := h.history.of_mem hc
  obtain rfl := Option.some.inj (hj'.symm.trans hj)
  exact he.creates hcr

/-- What a charge was sent for. -/
theorem Sends.committed {w : World} {j : Job} {a : Uuid} {card : String}
    (h : Sends K T w j a card) : ∃ t req, j = .call (.pay_invoice t.2.2 t.2.1 (some t.1) req) ∧
      (∃ row, w.db.attempt a = some row ∧ row.invoice_id = t.2.2) ∧
      ∃ kr, w.db.idempotency_key t = some kr := by
  cases h with
  | @charge b i k req a hb hfirst =>
    obtain ⟨row, hrow, hi, -⟩ := hb.attempt
    exact ⟨(k, b, i), req, rfl, ⟨row, hrow, hi⟩, hb.key⟩

/-- CORRECT (exactly once): whatever runs, all calls with one idempotency key together create at
    most one attempt and send at most one charge, and when a charge is sent, its attempt and the
    record of its key have been committed. -/
theorem pay_exactly_once (h : σ.Reachable) (t : KeyIndex) :
    (∀ c₁ ∈ σ.world.history, ∀ c₂ ∈ σ.world.history, ∀ a₁ a₂, σ.Pays c₁.pid t → σ.Pays c₂.pid t →
      c₁.Creates a₁ → c₂.Creates a₂ → a₁ = a₂) ∧
    (σ.world.charges.Pairwise fun ch₁ ch₂ => ¬(σ.Pays ch₁.pid t ∧ σ.Pays ch₂.pid t)) ∧
    ∀ l σ' ch, σ.step l = some σ' → σ'.world.charges = ch :: σ.world.charges →
      ∃ t', σ.Pays ch.pid t' ∧
        (∃ row, σ.db.attempt ch.attempt_id = some row ∧ row.invoice_id = t'.2.2) ∧
        ∃ kr, σ.db.idempotency_key t' = some kr := by
  have hinv := h.inv
  refine ⟨fun c₁ hc₁ c₂ hc₂ a₁ a₂ hp₁ hp₂ hcr₁ hcr₂ => ?_, ?_, fun l σ' ch hstep hch => ?_⟩
  · obtain ⟨b₁, rfl, hs₁⟩ := hinv.started_of_creates hc₁ hp₁ hcr₁
    obtain ⟨b₂, rfl, hs₂⟩ := hinv.started_of_creates hc₂ hp₂ hcr₂
    obtain rfl := hinv.history.chain.starts_unique hc₁ hc₂ hs₁ hs₂
    obtain ⟨r₁, row₁, kr₁, hws₁, rfl, -⟩ := hs₁.writes
    obtain ⟨r₂, row₂, kr₂, hws₂, rfl, -⟩ := hs₂.writes
    rw [hws₁] at hws₂
    cases hws₂
    rfl
  · refine (List.pairwise_map.mp hinv.once).imp_of_mem fun {ch₁ ch₂} hch₁ hch₂ hne => ?_
    rintro ⟨⟨req₁, hj₁⟩, req₂, hj₂⟩
    obtain ⟨b₁, i₁, k₁, _, a₁, hj₁', -, -, hs₁⟩ := hinv.sent ch₁ hch₁
    obtain ⟨b₂, i₂, k₂, _, a₂, hj₂', -, -, hs₂⟩ := hinv.sent ch₂ hch₂
    cases hj₁.symm.trans hj₁'
    cases hj₂.symm.trans hj₂'
    exact hne (hinv.history.chain.pid_unique hs₁ hs₂)
  · have hlen := congrArg List.length hch
    cases hinv.happens .any hstep with
    | quiet _ _ hc => simp [hc] at hlen
    | commit _ _ _ _ _ _ hc _ => simp [hc] at hlen
    | send p j a card hp _ _ hc hs =>
      rw [hc] at hch
      cases hch
      obtain ⟨t', req, rfl, hrow, hkey⟩ := hs.committed
      exact ⟨t', ⟨req, hp⟩, hrow, hkey⟩

/-- Two calls with one key have both missed its record when the first one takes it. -/
def key_race : List Sys.Label :=
  Sys.opened ++ [.arrive 3 (.pay_invoice 20 1 (some "k") ⟨"card", 2⟩),
    .arrive 4 (.pay_invoice 20 1 (some "k") ⟨"other", 2⟩)] ++ Sys.go (.call 4) 1 ++
  Sys.go (.call 3) 3 ++ Sys.fresh (.call 3) 40 ++ Sys.go (.call 3) 4 ++ Sys.go (.call 4) 3

theorem pay_exactly_once_race : ∃ σ ∈ Sys.initial.steps key_race,
    (∃ ch ∈ σ.world.charges, ch.attempt_id = 40) ∧
    σ.world.charges.Pairwise fun ch₁ ch₂ =>
      ¬(σ.Pays ch₁.pid ("k", 1, 20) ∧ σ.Pays ch₂.pid ("k", 1, 20)) := by
  obtain ⟨σ, hσ, hch⟩ : ∃ σ ∈ Sys.initial.steps key_race,
    ∃ ch ∈ σ.world.charges, ch.attempt_id = 40 := by decide +kernel
  exact ⟨σ, hσ, hch, (pay_exactly_once (Sys.reachable_of_steps hσ) ("k", 1, 20)).2.1⟩

/-! ### Replays -/

/-- The attempt with which process `p` has returned `Ok`. -/
def Sys.answer (σ : Sys) (p : Pid) : Option PaymentAttempt :=
  match σ.procs p with
  | some ⟨_, some (.ret (.ok (.attempt a)))⟩ => some a
  | _ => none

theorem Sys.procs_of_answer {p : Pid} {a : PaymentAttempt} {j : Job} (h : σ.answer p = some a)
    (hj : σ.job p = some j) : σ.procs p = some ⟨j, some (.ret (.ok (.attempt a)))⟩ := by
  unfold answer at h
  split at h
  · rename_i j' a' hp
    cases h
    cases hj.symm.trans (job_of_procs hp)
    exact hp
  · cases h

theorem Sys.answer_of_procs {p : Pid} {a : PaymentAttempt} {j : Job}
    (h : σ.procs p = some ⟨j, some (.ret (.ok (.attempt a)))⟩) : σ.answer p = some a := by
  rw [answer, h]

/-- A payment's first operation looks up its key. An error of the lookup ends the call, and the
    answer in a record is returned as it is. -/
theorem pay_invoice_program (i b : Uuid) (k : String) (req : PayInvoiceRequest) :
    ∃ next : Except DbError (Option Json) → Prog payman (Except AppError Response),
      (Job.call (.pay_invoice i b (some k) req)).program.run =
        .op (.sql (.select_response (k, b, i))) next ∧
      (∀ e, next (.error e) = .ret (.error (.Database e))) ∧
      ∀ a : PaymentAttempt, next (.ok (some a.to_value)) = .ret (.ok (.attempt a)) := by
  refine ⟨_, rfl, fun e => rfl, fun a => ?_⟩
  show Prog.bind (ok_or (PaymentAttempt.from_value a.to_value) .Internal : App _).run _ = _
  rw [PaymentAttempt.from_to_value]
  rfl

/-- A payment that is about to look up its key has no open transaction: if the lookup failed it
    would return at once. -/
theorem Inv.idle_of_pay (h : Inv .any σ) {q : Pid} {i b : Uuid} {k : String}
    {req : PayInvoiceRequest}
    (hq : σ.procs q = some (Job.call (.pay_invoice i b (some k) req)).proc) : Idle q σ.world := by
  obtain ⟨next, hprog, herr, -⟩ := pay_invoice_program i b k req
  have hsafe := h.safe q _ _ hq
  rw [hprog] at hsafe
  have hret : Safe _ _ (next (.error .Connection)) _ :=
    (hsafe σ.world ((contract ..).refl ..) { Sys.calm with fail := true } (σ.world.elapse 0)
      (Except.error DbError.Connection) trivial rfl).2
  rw [herr] at hret
  exact hret

/-- The lookup of a process without a transaction finds a recent record. -/
theorem exec_select_response {w : World} {q : Pid} {t : KeyIndex} {kr : IdempotencyKey}
    {c : Choice} (hidle : Idle q w) (hkr : w.db.idempotency_key t = some kr) (hc : c.fail = false)
    (hage : kr.created_at > w.now + c.elapsed - hours24) :
    w.exec q (.sql (.select_response t)) c =
      some (w.elapse c.elapsed, .ok (some kr.response_body)) := by
  refine World.exec_query hidle hc ?_
  have hfind : Stmt.lookup w.db.idempotency_keys t
      (fun r => decide (r.created_at > w.now + c.elapsed - hours24)) = some kr := by
    rw [Stmt.lookup, show w.db.idempotency_keys.find t = some kr from hkr, Option.filter_some,
      if_pos (decide_eq_true hage)]
  rw [Stmt.run, hfind]
  rfl

/-- CORRECT (replay fidelity): once the call that created the attempt of a key has returned `a`, a
    call with the same key, whatever its card token and version, returns `a` from its lookup as long
    as the record is less than 24 hours old, and changes and sends nothing. -/
theorem replay_returns_answer (h : σ.Reachable) {p : Pid} {k : String} {b i : Uuid}
    {req : PayInvoiceRequest} {a : PaymentAttempt}
    (hj : σ.job p = some (.call (.pay_invoice i b (some k) req)))
    (hcreated : ∃ c ∈ σ.world.history, c.pid = p ∧ ∃ a₀, c.Creates a₀)
    (hp : σ.answer p = some a) {q : Pid} {req' : PayInvoiceRequest}
    (hq : σ.procs q = some (Job.call (.pay_invoice i b (some k) req')).proc) {c : Choice}
    (hc : c.fail = false)
    (hage : ∀ kr ∈ σ.db.idempotency_key (k, b, i),
      kr.created_at > σ.world.now + c.elapsed - hours24) :
    ∃ σ', σ.step (.exec q c) = some σ' ∧ σ'.answer q = some a ∧ σ'.db = σ.db ∧
      σ'.world.charges = σ.world.charges := by
  have hinv := h.inv
  have hp := Sys.procs_of_answer hp hj
  obtain ⟨d, hd, rfl, a₀, hcr⟩ := hcreated
  obtain ⟨a₁, -, hs⟩ := hinv.started_of_creates hd (t := (k, b, i)) ⟨req, hj⟩ hcr
  obtain ⟨kr, hkr, hbody⟩ := (hinv.safe _ _ _ hp).2 a₁ ⟨d, hd, rfl, hs⟩
  obtain ⟨next, hprog, -, hnext⟩ := pay_invoice_program i b k req'
  have hx := exec_select_response (hinv.idle_of_pay hq) hkr hc (hage kr hkr)
  rw [hbody] at hx
  rw [Job.proc, hprog] at hq
  refine ⟨σ.set q ⟨.call (.pay_invoice i b (some k) req'), some (next (.ok (some a.to_value)))⟩
    (σ.world.elapse c.elapsed), ?_, ?_, rfl, rfl⟩
  · simp only [Sys.step, hq, hx]
    rfl
  · rw [hnext]
    exact Sys.answer_of_procs Sys.set_procs_self

/-- The charge times out and the call answers with the pending attempt; then the worker finds that
    it succeeded. -/
def settled_later : List Sys.Label :=
  Sys.opened ++ Sys.pays 3 "k" 2 40 ++ Sys.go (.call 3) 2 ++ [.tick] ++ Sys.go .worker 1 ++
  Sys.answered .worker (.response 200 (some ⟨"succeeded", some "ref", none⟩)) ++
  Sys.go .worker 4

theorem replay_returns_answer_settled : ∃ σ ∈ Sys.initial.steps settled_later,
    (∃ row ∈ σ.db.attempt 40, row.status = .Succeeded) ∧ ∃ a ∈ σ.answer (.call 3),
    a.status = .Pending ∧
    ∃ σ₁ ∈ σ.step (.arrive 4 (.pay_invoice 20 1 (some "k") ⟨"other", 9⟩)),
    ∃ σ', σ₁.step (.exec (.call 4) Sys.calm) = some σ' ∧ σ'.answer (.call 4) = some a ∧
      σ'.db = σ₁.db ∧ σ'.world.charges = σ₁.world.charges := by
  obtain ⟨σ, hσ, hrow, a, ha, hs, σ₁, hσ₁, hj, hc, ha₁, hage⟩ :
      ∃ σ ∈ Sys.initial.steps settled_later, (∃ row ∈ σ.db.attempt 40, row.status = .Succeeded) ∧
      ∃ a ∈ σ.answer (.call 3), a.status = .Pending ∧
      ∃ σ₁ ∈ σ.step (.arrive 4 (.pay_invoice 20 1 (some "k") ⟨"other", 9⟩)),
      σ₁.job (.call 3) = some (.call (.pay_invoice 20 1 (some "k") ⟨"card", 2⟩)) ∧
      (∃ c ∈ σ₁.world.history, c.pid = .call 3 ∧ c.Creates 40) ∧ σ₁.answer (.call 3) = some a ∧
      ∀ kr ∈ σ₁.db.idempotency_key ("k", 1, 20), kr.created_at > σ₁.world.now + 0 - hours24 := by
    decide +kernel
  refine ⟨σ, hσ, hrow, a, ha, hs, σ₁, hσ₁, ?_⟩
  have hreach : σ₁.Reachable := .tail (Sys.reachable_of_steps hσ) ⟨_, trivial, hσ₁⟩
  obtain ⟨c, hc, hcp, hcr⟩ := hc
  exact replay_returns_answer hreach hj ⟨c, hc, hcp, 40, hcr⟩ ha₁ (Sys.procs_of_arrive hσ₁) rfl hage

end Payman
