import Payman.Safety.Turns

/-! What the PSP's answers are evidence of.

    The PSP has one fate for each attempt id, which it may report late or never: a status of
    "succeeded" or "failed" is its fate, any other status says nothing yet. An attempt that is
    failed on a reported failure was never charged. -/

namespace Payman
open Schemes

/-- What an answer says about the fate of an attempt is true. -/
def Answer.Agrees (fate : Option Verdict) : Answer → Prop
  | .response status (some psp) => is_success status = true →
    (psp.status = "succeeded" → fate = some .paid) ∧
      (psp.status = "failed" → fate = some .declined)
  | _ => True

/-- An answer with a status has a final one. -/
def Answer.Final : Answer → Prop
  | .response status (some psp) => is_success status = true →
    psp.status = "succeeded" ∨ psp.status = "failed"
  | _ => True

instance (fate : Option Verdict) : ∀ a : Answer, Decidable (a.Agrees fate)
  | .response _ (some _) => inferInstanceAs (Decidable (_ → _))
  | .response _ none | .timed_out | .network_error => isTrue trivial

instance : ∀ a : Answer, Decidable a.Final
  | .response _ (some _) => inferInstanceAs (Decidable (_ → _))
  | .response _ none | .timed_out | .network_error => isTrue trivial

/-- The answer `ans` to an operation is according to `fate`. Only for the attempts in `vague` is
    `POST /charge` answered before the PSP has decided. -/
def Truthful (fate : Uuid → Option Verdict) (vague : Uuid → Prop) (ans : Answer) :
    Option Eff → Prop
  | some (.recv_charge a) => ans.Agrees (fate a) ∧ (¬vague a → ans.Final)
  | some (.get_charge a) => ans.Agrees (fate a)
  | _ => True

instance (fate : Uuid → Option Verdict) (vague : Uuid → Prop) [DecidablePred vague]
    (ans : Answer) : ∀ e, Decidable (Truthful fate vague ans e)
  | some (.recv_charge a) =>
    inferInstanceAs (Decidable (ans.Agrees (fate a) ∧ (¬vague a → ans.Final)))
  | some (.get_charge a) => inferInstanceAs (Decidable (ans.Agrees (fate a)))
  | some .begin | some .commit | some .rollback | some .drop | some (.sql _) | some .new_v4
  | some .utc_now | some (.send_charge ..) | some (.spawn_dispatch _) | some (.post_webhook ..)
  | none => isTrue trivial

/-- A step with such a PSP. -/
def Psp (fate : Uuid → Option Verdict) (vague : Uuid → Prop) (σ : Sys) : Sys.Label → Prop
  | .exec p c => Truthful fate vague c.answer (σ.head p)
  | _ => True

instance (fate : Uuid → Option Verdict) (vague : Uuid → Prop) [DecidablePred vague] (σ : Sys) :
    ∀ l, Decidable (Psp fate vague σ l)
  | .exec p c => inferInstanceAs (Decidable (Truthful fate vague c.answer (σ.head p)))
  | .arrive .. | .background _ | .tick | .webhook_tick | .kill _ => isTrue trivial

/-- The setting of such a PSP. -/
def Setting.psp (fate : Uuid → Option Verdict) (vague : Uuid → Prop) : Setting :=
  { Setting.any with
    answer := fun post a ans => ans.Agrees (fate a) ∧ (post = true → ¬vague a → ans.Final) }

variable {fate : Uuid → Option Verdict} {vague : Uuid → Prop} {σ : Sys} {l : Sys.Label}

theorem Psp.honours (h : Psp fate vague σ l) : Honours (.psp fate vague) σ l where
  answer := fun p c e hl he => by
    subst hl
    have h : Truthful fate vague c.answer (σ.head p) := h
    rw [he] at h
    cases e with
    | recv_charge a => exact ⟨h.1, fun _ => h.2⟩
    | get_charge a => exact ⟨h, nofun⟩
    | _ => trivial
  alone := nofun
  start := nofun
  drafts := nofun
  scans := nofun

/-! ### What an answer tells -/

/-- A final answer to a charge tells its fate. -/
theorem fate_of_post {ans : Answer} {f : Option Verdict} {o : Outcome} (hagree : ans.Agrees f)
    (hfinal : ans.Final) (ho : (psp_result ans).outcome = some o) : f = some o.verdict := by
  cases ans with
  | timed_out => cases ho
  | network_error => cases ho
  | response status body =>
    simp only [psp_result] at ho
    split at ho
    · rename_i hok
      cases body with
      | none => cases ho
      | some psp =>
        rcases hfinal hok with h | h
        · simp only [h, if_true, PspResult.outcome, Option.some.injEq] at ho
          subst ho
          exact (hagree hok).1 h
        · simp only [h, String.reduceEq, if_false, PspResult.outcome, Option.some.injEq] at ho
          subst ho
          exact (hagree hok).2 h
    · cases ho

/-- What the worker reads from an answer is the attempt's fate. -/
theorem fate_of_get {status : ℕ} {psp : PspBody} {f : Option Verdict} {o : Outcome}
    (hagree : (Answer.response status (some psp)).Agrees f) (hok : is_success status = true)
    (ho : psp.outcome = some o) : f = some o.verdict := by
  unfold PspBody.outcome at ho
  split at ho
  · rename_i hs
    cases ho
    exact (hagree hok).1 hs
  · split at ho
    · rename_i hf
      cases ho
      exact (hagree hok).2 hf
    · cases ho

theorem Outcome.verdict_of_failed {o : Outcome} (hs : o.status = .Failed) :
    o.verdict = .declined := by
  cases o with
  | succeeded _ => cases hs
  | failed _ | expired => rfl

/-- A failure that `pay_invoice` has read from a final answer is the attempt's fate. -/
theorem declined_of_post {ans : Answer} {f : Option Verdict} {o : Outcome} (hagree : ans.Agrees f)
    (hfinal : ans.Final) (ho : (psp_result ans).outcome = some o) (hs : o.status = .Failed) :
    f = some .declined := by
  rw [← Outcome.verdict_of_failed hs]
  exact fate_of_post hagree hfinal ho

/-- A failure that the worker has found is the attempt's fate. -/
theorem declined_of_get {row : AttemptRow} {t : DateTime} {o : Outcome}
    (ho : Evidence (.psp fate vague) row t o) (hne : o ≠ .expired) (hs : o.status = .Failed) :
    fate row.id = some .declined := by
  cases o with
  | expired => exact absurd rfl hne
  | succeeded _ => cases hs
  | failed code =>
    obtain ⟨status, psp, ⟨hok, hagree, -⟩, ho⟩ := ho
    exact fate_of_get hagree hok ho

/-- What the worker fails has been declined, or has expired. -/
theorem evidence_of_failed {row : AttemptRow} {t : DateTime} {o : Outcome}
    (ho : Evidence (.psp fate vague) row t o) (hs : o.status = .Failed) :
    fate row.id = some .declined ∨ (o.record t row).failure_code = some "reconciliation_timeout" ∧
      (o.record t row).created_at + hours24 ≤ (o.record t row).updated_at := by
  by_cases hne : o = .expired
  · subst hne
    exact .inr ⟨rfl, Int.add_le_of_le_sub_right ho⟩
  · exact .inl (declined_of_get ho hne hs)

/-- The attempt rows that a commit writes. -/
def Commit.attempts (c : Commit) : List AttemptRow := c.writes.filterMap fun
  | .put_attempt row => some row
  | _ => none

theorem Commit.mem_attempts {c : Commit} {row : AttemptRow} :
    row ∈ c.attempts ↔ Write.put_attempt row ∈ c.writes := by
  unfold attempts
  rw [List.mem_filterMap]
  constructor
  · rintro ⟨w, hw, hrow⟩
    cases w <;> simp at hrow
    exact hrow ▸ hw
  · exact fun h => ⟨_, h, rfl⟩

/-- `c` commits the attempt `row'` as failed, and it had not failed before. -/
def Commit.Fails (c : Commit) (row' : AttemptRow) : Prop :=
  row' ∈ c.attempts ∧ row'.status = .Failed ∧
    ∀ row ∈ c.before.attempt row'.id, row.status ≠ .Failed

instance (c : Commit) (row' : AttemptRow) : Decidable (c.Fails row') :=
  inferInstanceAs (Decidable (_ ∧ _ ∧ _))

/-- `c` is the worker's expiry of an attempt that is 24 hours old. -/
def Sys.Expires (σ : Sys) (c : Commit) (row' : AttemptRow) : Prop :=
  σ.job c.pid = some .tick ∧ row'.failure_code = some "reconciliation_timeout" ∧
    row'.created_at + hours24 ≤ row'.updated_at

/-- CORRECT (no charge is written off): a commit that fails an attempt has conclusive evidence that
    the PSP does not record it as succeeded, unless it is the worker's expiry, or follows an answer
    to `POST /charge` that was not final. -/
theorem failed_has_evidence (hrun : Sys.Run (Psp fate vague) .initial σ) {c : Commit}
    (hc : c ∈ σ.world.history) {row' : AttemptRow} (hfails : c.Fails row') :
    fate row'.id ≠ some .paid ∨ σ.Expires c row' ∨
      ((∃ q, σ.job c.pid = some (.call q)) ∧ vague row'.id) := by
  obtain ⟨hrow', hfailed, hnew⟩ := hfails
  have hinv := Inv.initial.run (fun _ _ => Psp.honours) hrun
  obtain ⟨past, j, -, hj, he⟩ := hinv.history.of_mem hc
  rw [Commit.mem_attempts] at hrow'
  obtain ⟨p, before, ws⟩ := c
  have hdeclined : ∀ a, fate a = some .declined → fate a ≠ some .paid := fun a h => by
    rw [h]; nofun
  cases he with
  | pay_start hr hrow hfresh hkr =>
    obtain rfl : row' = _ := by simpa using hrow'
    rw [hrow] at hfailed
    cases hfailed
  | @pay_record b i k req a row r kr o ans t hb hrow hr hmax hkr hans ho =>
    obtain rfl : row' = o.record t row := by simpa using hrow'
    rw [Outcome.record_status] at hfailed
    rw [Outcome.record_id, Db.id_of_attempt hrow]
    by_cases hv : vague a.id
    · exact .inr (.inr ⟨⟨_, hj⟩, hv⟩)
    · exact .inl (hdeclined _ (declined_of_post hans.1 (hans.2 rfl hv) ho hfailed))
  | @retry a row n at_ t hrow =>
    obtain rfl : row' = _ := by simpa using hrow'
    have hrow₀ : before.attempt row.id = some row := by rw [Db.id_of_attempt hrow]; exact hrow
    exact absurd hfailed (hnew row hrow₀)
  | @settle row r o t hrow hr ho =>
    obtain rfl : row' = o.record t row := by simpa using hrow'
    rw [Outcome.record_status] at hfailed
    rw [Outcome.record_id]
    exact (evidence_of_failed ho hfailed).imp (hdeclined _) fun h => .inl ⟨hj, h⟩
  | @settle_only row o t hrow ho =>
    obtain rfl : row' = o.record t row := by simpa using hrow'
    rw [Outcome.record_status] at hfailed
    rw [Outcome.record_id]
    exact (evidence_of_failed ho hfailed).imp (hdeclined _) fun h => .inl ⟨hj, h⟩
  | edit_items _ _ _ hpre =>
    rcases hpre with ⟨rfl, rfl⟩ | ⟨rfl, -⟩ <;> simp at hrow'
  | _ => simp at hrow'

/-- The PSP declines a charge, and later accepts another one for the same invoice. -/
def declined_charge : List Sys.Label :=
  Sys.opened ++ Sys.pays 3 "k" 2 40 ++
  Sys.answered (.call 3) (.response 200 (some ⟨"failed", none, some "card_declined"⟩)) ++
  Sys.go (.call 3) 5 ++ Sys.pays 4 "l" 4 41 ++
  Sys.answered (.call 4) (.response 200 (some ⟨"succeeded", some "ref", none⟩)) ++
  Sys.go (.call 4) 5

def declined_fate (a : Uuid) : Option Verdict := if a = 40 then some .declined else some .paid

theorem failed_has_evidence_declined : ∃ σ ∈ Sys.initial.steps declined_charge,
    ∃ c ∈ σ.world.history, ∃ row' ∈ c.attempts, c.Fails row' ∧
      (declined_fate row'.id ≠ some .paid ∨ σ.Expires c row' ∨
        ((∃ q, σ.job c.pid = some (.call q)) ∧ False)) := by
  obtain ⟨σ, hσ, hok, c, hc, row', hrow', hfails⟩ : ∃ σ ∈ Sys.initial.steps declined_charge,
    Sys.initial.Allowed (Psp declined_fate fun _ => False) declined_charge ∧
    ∃ c ∈ σ.world.history, ∃ row' ∈ c.attempts, c.Fails row' := by decide +kernel
  exact ⟨σ, hσ, c, hc, row', hrow', hfails,
    failed_has_evidence (Sys.run_of_steps hσ hok) hc hfails⟩

/-- A charge times out, the PSP has recorded it, nobody asks again, and the attempt expires. -/
def expired_charge : List Sys.Label :=
  Sys.opened ++ Sys.pays 3 "k" 2 40 ++ Sys.go (.call 3) 2 ++ [.tick] ++
  [.exec .worker { Sys.calm with elapsed := 86400000000 }] ++ Sys.go .worker 5

theorem charge_written_off : ¬∀ (fate : Uuid → Option Verdict) (σ : Sys),
    Sys.Run (Psp fate fun _ => False) .initial σ → ∀ c ∈ σ.world.history, ∀ row', c.Fails row' →
      fate row'.id ≠ some .paid := by
  obtain ⟨σ, hσ, hok, c, hc, row', -, hfails⟩ : ∃ σ ∈ Sys.initial.steps expired_charge,
    Sys.initial.Allowed (Psp (fun _ => some .paid) fun _ => False) expired_charge ∧
    ∃ c ∈ σ.world.history, ∃ row' ∈ c.attempts, c.Fails row' := by decide +kernel
  exact fun h => h _ σ (Sys.run_of_steps hσ hok) c hc row' hfails rfl

/-- An answer that is not final is taken for a failure by `pay_invoice`. -/
example : ∃ σ ∈ Sys.initial.steps (Sys.opened ++ Sys.pays 3 "k" 2 40 ++
    Sys.answered (.call 3) (.response 200 (some ⟨"processing", none, none⟩)) ++
    Sys.go (.call 3) 5), ∃ c ∈ σ.world.history, ∃ row' ∈ c.attempts, c.Fails row' := by
  decide +kernel

end Payman
