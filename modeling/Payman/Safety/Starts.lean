import Payman.Safety.Leaves
import Payman.Safety.Payments

/-! `pay_invoice`, on its own.

    Its first transaction goes through exactly when the payment is `Payable`; the charge follows, and
    from then on only the last version of an invoice can make the call fail, as long as the database
    works. -/

namespace Payman
open Schemes

variable {p : Pid} {allow : Choice → World → Prop} {w : World} {l : Durable} {since : DateTime}
  {index : KeyIndex} {req : PayInvoiceRequest}

/-- The UUIDs that are drawn belong to no attempt. -/
abbrev DrawsAttempts (p : Pid) (allow : Choice → World → Prop) : Prop :=
  ∀ c w, allow c w → (w.sessions.view p).attempt c.uuid = none

/-- The attempt that the first transaction creates. -/
def new_attempt (index : KeyIndex) (card_token : String) (a : Uuid) (t : DateTime) :
    PaymentAttempt := ⟨a, index.2.2, .Pending, card_token, none, none, t, t⟩

/-- What the first transaction writes. -/
def start_writes (index : KeyIndex) (card_token : String) (r : Invoice) (a : Uuid) (t : DateTime) :
    List Write :=
  [.put_invoice { r with
      state := .Processing, updated_at := t, versioning := r.versioning + 1 },
    .put_attempt ⟨new_attempt index card_token a t, 0, none⟩,
    .put_key ⟨index.1, index.2.1, index.2.2, 0, (new_attempt index card_token a t).to_value, t, t⟩]

/-- Why the first transaction fails, when the database works and the attempt's id is new. -/
def StartRefused (index : KeyIndex) (v : Int32) (db : Db) (e : AppError) : Prop :=
  ((∀ r, db.invoice index.2.2 = some r → ¬(r.state = .Open ∧ r.versioning = v)) ∧
      ∃ m, e = .Conflict m) ∨
    ((∃ r, db.invoice index.2.2 = some r ∧ r.versioning = Int32.maxValue) ∧
      e = .Database .NumericValueOutOfRange) ∨ db.idempotency_key index ≠ none

/-! ### The first transaction -/

theorem run_insert_attempt_ok {now : DateTime} {c : Choice} {db : Db} {a i : Uuid} {card : String}
    {r : Invoice} (ha : db.attempt a = none) (hr : db.invoice i = some r) :
    ∃ x, Stmt.run now c db (.insert_attempt a i card) = .ok x := by
  simp only [Stmt.run]
  rw [Stmt.unused_of ha, Stmt.references_of hr]
  exact ⟨_, rfl⟩

/-- A key is refused only if it has been used. -/
theorem insert_key_refused {now : DateTime} {c : Choice} {db : Db} {status : Int32} {body : Json}
    {e : DbError} {r : Invoice} (h : Stmt.run now c db (.insert_key index status body) = .error e)
    (hr : db.invoice index.2.2 = some r) : db.idempotency_key index ≠ none := by
  intro hnone
  simp only [Stmt.run] at h
  rw [Stmt.unused_of hnone, Stmt.references_of hr] at h
  cases h

theorem start_attempt_leaves (h : Stage p l none since w) :
    Leaves p allow (fun x w' => ∃ r t, Payable index req.versioning l.db r ∧
        l.db.attempt x.1 = none ∧ x.2 = new_attempt index req.card_token x.1 t ∧ since ≤ t ∧
        Stage p (l.commit p (start_writes index req.card_token r x.1 t)) none since w')
      (fun e w' => (Calm allow → DrawsAttempts p allow → StartRefused index req.versioning l.db e) ∧
        Stage p l none since w') (start_attempt index req) w := by
  refine .transaction (fun e => Calm allow → DrawsAttempts p allow →
    StartRefused index req.versioning l.db e) h (fun e w' hbad h' => ⟨hbad, h'⟩)
    (fun c e w' hc hf hcalm => hcalm.never hc hf) fun t w₁ ht h₁ => ?_
  refine .seq (.sql_within h₁ (fun c e w₂ hc href h₂ => ⟨fun hcalm _ => ?_, _, h₂⟩)
    fun c ws (n : ℕ) w₂ hc hrun h₂ => ?_)
  · obtain ⟨rfl, r, hr, -, hmax⟩ := Stmt.bump_error (hcalm.refused hc href)
    exact .inr (.inl ⟨⟨r, hr, hmax⟩, rfl⟩)
  rw [applyAll_nil] at hrun
  rcases Stmt.rows_affected_ok hrun with ⟨rfl, rfl, hno⟩ | ⟨r, r', hr, hcond, hset, rfl, rfl⟩
  · refine .seq (.reject_if (fun _ => ⟨fun _ _ => .inl ⟨fun r hr hc => ?_, _, rfl⟩, _, h₂⟩)
      fun hne => absurd rfl hne)
    simpa [hc] using hno r hr
  obtain ⟨hmax, rfl⟩ := Stmt.map_next_i32_ok hset
  obtain ⟨hopen, hv⟩ := of_decide_eq_true hcond
  refine .seq (.reject_if nofun fun _ => .seq (.new_v4 h₂ fun c₃ w₃ hc₃ h₃ => ?_))
  have hfound : ∀ r' : Invoice, r'.id = r.id →
      (applyAll l.db [Write.put_invoice r']).invoice index.2.2 = some r' := fun r' hid =>
    (Table.find_put ..).trans (if_pos (hid.trans (Db.id_of_invoice hr)))
  refine .seq (.sql_within h₃ (fun c e w₄ hc href h₄ => ⟨fun hcalm hdraws => ?_, _, h₄⟩)
    fun c ws (a : PaymentAttempt) w₄ hc hrun h₄ => ?_)
  · have hnew := hdraws c₃ w₂ hc₃
    rw [h₂.view] at hnew
    obtain ⟨x, hx⟩ := run_insert_attempt_ok hnew (hfound _ rfl)
    cases hx.symm.trans (hcalm.refused hc href)
  obtain ⟨hnew, rfl, rfl⟩ := Stmt.run_insert_attempt hrun
  refine .seq (.sql_within h₄ (fun c e w₅ hc href h₅ => ⟨fun hcalm _ => .inr (.inr ?_), _, h₅⟩)
    fun c ws n w₅ hc hrun h₅ => .pure ?_)
  · have hbad := hcalm.refused hc href
    have hused := insert_key_refused hbad (hfound _ rfl)
    exact hused
  obtain ⟨hkey, rfl⟩ := Stmt.run_insert_key hrun
  exact ⟨_, h₅, fun w₆ h₆ => ⟨r, t, ⟨hr, hopen, hv, hv ▸ hmax, hkey⟩, hnew, rfl, ht, h₆⟩⟩

/-! ### Growth -/

/-- Commits and charges have only been added. -/
structure Durable.Grown (l l' : Durable) : Prop where
  history : l.history <:+ l'.history
  charges : l.charges <:+ l'.charges

namespace Durable.Grown

theorem refl : l.Grown l := ⟨List.suffix_rfl, List.suffix_rfl⟩

theorem commit {ws : List Write} : l.Grown (l.commit p ws) :=
  ⟨List.suffix_cons .., List.suffix_rfl⟩

theorem auto {ws : List Write} : l.Grown (l.auto p ws) := by
  by_cases h : ws = []
  · rw [h, Durable.auto_nil]
    exact refl
  · rw [Durable.auto_of_ne h]
    exact commit

end Durable.Grown

/-- `p` is done, at or above the durable state `l`. -/
def Above (p : Pid) (l : Durable) (since : DateTime) (w' : World) : Prop :=
  ∃ l', Stage p l' none since w' ∧ l.Grown l'

/-! ### The charge and the second transaction -/

/-- The rows that the second transaction updates. -/
structure Started.Rows (db : Db) (index : KeyIndex) (a : Uuid) : Prop where
  attempt : ∃ row, db.attempt a = some row
  invoice : ∃ r, db.invoice index.2.2 = some r
  key : ∃ kr, db.idempotency_key index = some kr

/-- `record` updates the attempt, in a transaction without writes. -/
def RecordsAlone (p : Pid) (allow : Choice → World → Prop) (l : Durable) (since : DateTime)
    (record : App (Option PaymentAttempt)) : Prop :=
  ∀ (w : World) (t : DateTime) (ok : Option PaymentAttempt → World → Prop)
    (err : AppError → World → Prop), Stage p l (some ⟨t, []⟩) since w →
    (∀ a row w', Stage p l (some ⟨t, [.put_attempt row]⟩) since w' → ok (some a) w') →
    (∀ e w', ¬Calm allow → Stage p l (some ⟨t, []⟩) since w' → err e w') →
    Leaves p allow ok err record w

theorem attempt_succeeded_alone {psp_ref : String} {a : Uuid} {row : AttemptRow}
    (hrow : l.db.attempt a = some row) :
    RecordsAlone p allow l since (sql (.attempt_succeeded psp_ref a)) :=
  fun _ _ _ _ h hok herr => .sql_known h (fun _ => Stmt.returning_of hrow rfl rfl)
    (fun _ => herr _) (hok _ _)

theorem attempt_failed_alone {code : String} {a : Uuid} {row : AttemptRow}
    (hrow : l.db.attempt a = some row) :
    RecordsAlone p allow l since (sql (.attempt_failed code a)) :=
  fun _ _ _ _ h hok herr => .sql_known h (fun _ => Stmt.returning_of hrow rfl rfl)
    (fun _ => herr _) (hok _ _)

theorem record_outcome_leaves {a : Uuid} {record : App (Option PaymentAttempt)}
    {state : InvoiceState} {event_type : String} (h : Stage p l none since w)
    (hrows : Started.Rows l.db index a) (hrec : RecordsAlone p allow l since record) :
    Leaves p allow (fun _ => Above p l since)
      (fun e w' => (Calm allow → e = .Database .NumericValueOutOfRange) ∧ Above p l since w')
      (record_outcome record state event_type index) w := by
  obtain ⟨r, hr⟩ := hrows.invoice
  obtain ⟨kr, hkr⟩ := hrows.key
  refine .bind (.transaction (fun e => Calm allow → e = .Database .NumericValueOutOfRange) h
    (fun e w' hbad h' => ⟨hbad, l, h', .refl⟩) (fun c e w' hc hf hcalm => hcalm.never hc hf)
    fun t w₁ _ h₁ => ?_) fun x w₁ (h₁ : Above p l since w₁) => ?_
  · refine .seq (hrec w₁ t _ _ h₁ (fun a row w₂ h₂ => ?_) fun e w₂ hno h₂ =>
      ⟨fun hcalm => absurd hcalm hno, _, h₂⟩)
    refine .seq (.ok_or nofun fun _ _ => ?_)
    refine .seq (.sql_within h₂ (fun c e w₃ hc href h₃ => ⟨fun hcalm => ?_, _, h₃⟩)
      fun c ws (n : ℕ) w₃ hc hrun h₃ => ?_)
    · obtain ⟨rfl, -⟩ := Stmt.bump_error (hcalm.refused hc href)
      rfl
    rcases Stmt.rows_affected_ok hrun with ⟨-, -, hno⟩ | ⟨r, r', -, -, -, rfl, rfl⟩
    · exact absurd (hno r hr) nofun
    refine .seq ?_
    refine .seq (.sql_known h₃ (fun c => Stmt.rows_affected_of hkr rfl rfl) (fun e w₄ hno h₄ =>
      ⟨fun hcalm => absurd hcalm hno, _, h₄⟩) fun w₄ h₄ => .pure ⟨_, h₄, fun w₅ h₅ =>
        ⟨_, h₅, .commit⟩⟩)
  · obtain ⟨l', h', hgrown⟩ := h₁
    exact .seq (.spawn_dispatch h' fun w₂ h₂ => ⟨l', h₂, hgrown⟩)

theorem leave_pending_leaves {a : PaymentAttempt} (h : Stage p l none since w)
    (hrows : Started.Rows l.db index a.id) :
    Leaves p allow (fun _ => Above p l since)
      (fun e w' => (Calm allow → e = .Database .NumericValueOutOfRange) ∧ Above p l since w')
      (leave_pending a index) w := by
  obtain ⟨kr, hkr⟩ := hrows.key
  refine .seq (.sql_outside h (fun now c e w₁ hc href h₁ => ⟨fun hcalm => ?_, l, h₁, .refl⟩)
    fun now c ws n w₁ hc _ hrun h₁ => .pure ⟨_, h₁, .auto⟩)
  have hrun : Stmt.run now c l.db (.update_response a.to_value 202 index) = _ :=
    Stmt.rows_affected_of hkr rfl rfl
  cases hrun.symm.trans (hcalm.refused hc href)

theorem charge_attempt_leaves {a : PaymentAttempt} {id : Uuid} (h : Stage p l none since w)
    (hid : a.id = id) (hrows : Started.Rows l.db index id) :
    Leaves p allow (fun _ => Above p (l.send ⟨p, id, req.card_token⟩) since)
      (fun e w' => (Calm allow → e = .Database .NumericValueOutOfRange) ∧
        Above p (l.send ⟨p, id, req.card_token⟩) since w') (charge_attempt index req id a) w := by
  subst hid
  have hrows : Started.Rows (l.send ⟨p, a.id, req.card_token⟩).db index a.id := hrows
  obtain ⟨row, hrow⟩ := hrows.attempt
  refine .seq (.seq (.send_charge h fun w₁ h₁ => .seq (.recv_charge h₁ fun ans w₂ h₂ => .pure ?_)))
  cases psp_result ans with
  | Succeeded psp_ref => exact record_outcome_leaves h₂ hrows (attempt_succeeded_alone hrow)
  | Failed code => exact record_outcome_leaves h₂ hrows (attempt_failed_alone hrow)
  | TimedOut => exact leave_pending_leaves h₂ hrows
  | NetworkError => exact leave_pending_leaves h₂ hrows

/-! ### The request -/

/-- The call has committed its first transaction and sent the charge. -/
structure Launched (p : Pid) (l : Durable) (since : DateTime) (index : KeyIndex)
    (req : PayInvoiceRequest) (l' : Durable) : Prop where
  payable : ∃ r t a, Payable index req.versioning l.db r ∧ l.db.attempt a = none ∧ since ≤ t ∧
    ((l.commit p (start_writes index req.card_token r a t)).send ⟨p, a, req.card_token⟩).Grown l'

theorem start_rows {r : Invoice} {a : Uuid} {t : DateTime}
    (hr : Payable index req.versioning l.db r) : Started.Rows
      (l.commit p (start_writes index req.card_token r a t)).db index a where
  attempt := ⟨_, (Table.find_put ..).trans (if_pos rfl)⟩
  invoice := ⟨_, (Table.find_put ..).trans (if_pos (show r.id = index.2.2 from
    Db.id_of_invoice hr.1))⟩
  key := ⟨_, (Table.find_put ..).trans (if_pos rfl)⟩

/-- CORRECT: a payment on its own, under a key without a live record. Either its first transaction is
    refused and nothing is done, or it charges. -/
theorem pay_invoice_leaves {k : String} {b i : Uuid} (h : Stage p l none since w)
    (hlive : ∀ kr, l.db.idempotency_key (k, b, i) = some kr → kr.created_at ≤ since - hours24) :
    Leaves p allow (fun _ w' => Launched p l since (k, b, i) req w'.durable)
      (fun e w' => ((Calm allow → DrawsAttempts p allow →
          StartRefused (k, b, i) req.versioning l.db e) ∧ Stage p l none since w') ∨
        ((Calm allow → e = .Database .NumericValueOutOfRange) ∧
          Launched p l since (k, b, i) req w'.durable)) (pay_invoice i b k req) w := by
  refine .seq (.sql_outside h (fun now c e w₁ hc href h₁ => .inl ⟨fun hcalm => ?_, h₁⟩)
    fun now c ws (existing : Option Json) w₁ hc hnow hrun h₁ => ?_)
  · cases hcalm.refused hc href
  obtain ⟨rfl, rfl⟩ := Stmt.run_select_response hrun
  rw [Durable.auto_nil] at h₁
  have hnone : (l.db.idempotency_key (k, b, i)).filter
      (fun r => decide (r.created_at > now - hours24)) = none := by
    rw [Option.filter_eq_none_iff]
    intro kr hkr hnew
    have hold := Int.le_trans (hlive kr hkr) (Int.sub_le_sub_right hnow hours24)
    exact Int.not_lt.mpr hold (of_decide_eq_true hnew)
  rw [hnone]
  refine .bind (.imp (start_attempt_leaves h₁) (fun _ _ h => h) fun e w₂ h₂ => .inl h₂)
    fun x w₂ ⟨r, t, hr, hnew, hx, ht, h₂⟩ => ?_
  obtain ⟨a, attempt⟩ := x
  obtain rfl : attempt = new_attempt (k, b, i) req.card_token a t := hx
  show Leaves p allow _ _ (charge_attempt (k, b, i) req a (new_attempt (k, b, i) req.card_token a t))
    w₂
  refine .imp (charge_attempt_leaves h₂ rfl (start_rows hr)) (fun _ w₃ ⟨l', h₃, hgrown⟩ => ?_)
    fun e w₃ ⟨hbad, l', h₃, hgrown⟩ => .inr ⟨hbad, ?_⟩
  · exact ⟨r, t, a, hr, hnew, ht, h₃.durable ▸ hgrown⟩
  · exact ⟨r, t, a, hr, hnew, ht, h₃.durable ▸ hgrown⟩

end Payman
