import Payman.Safety.Invoices

/-! `pay_invoice` keeps its contract, and the answer it returns is the one it has stored. -/

namespace Payman
open Schemes

variable {K : Setting} {T : Pid} {w : World}

/-- `T` has neither committed nor sent anything yet. -/
structure Fresh (T : Pid) (w : World) : Prop where
  history : ∀ c ∈ w.history, c.pid ≠ T
  charges : ∀ ch ∈ w.charges, ch.pid ≠ T

theorem Fresh.later {j : Job} {e : Option Eff} {w' : World} (h : Fresh T w)
    (hl : Later K T j e w w') : Fresh T w' :=
  ⟨fun c hc hp => h.history c (hl.mine c hc hp) hp,
    fun ch hch hp => h.charges ch (hl.charges ch hch hp) hp⟩

/-- If `T` has created an attempt under `t`, the record of `t` holds the answer `a`. -/
def Answered (T : Pid) (t : KeyIndex) (a : PaymentAttempt) (w : World) : Prop :=
  ∀ a₀, Started w.history T t a₀ →
    ∃ kr, w.db.idempotency_key t = some kr ∧ kr.response_body = a.to_value

theorem Answered.later {t : KeyIndex} {a : PaymentAttempt} {j : Job} {e : Option Eff} {w' : World}
    (h : Answered T t a w) (hl : Later K T j e w w') : Answered T t a w' := by
  rintro a₀ ⟨c, hc, hp, hs⟩
  have hstart : Started w.history T t a₀ := ⟨c, hl.mine c hc hp, hp, hs⟩
  rw [hl.key t a₀ hstart]
  exact h a₀ hstart

theorem Fresh.answered {t : KeyIndex} {a : PaymentAttempt} (h : Fresh T w) :
    Answered T t a w := fun _ ⟨c, hc, hp, _⟩ => absurd hp (h.history c hc)

/-! ### The first transaction -/

/-- What the first transaction leaves behind. -/
theorem Begun.start {t : KeyIndex} {v : Int32} {past : List Commit} {db db' : Db} {r r' : Invoice}
    (row : AttemptRow) {kr : IdempotencyKey} (hr : Payable t v db r) (hr' : r'.id = r.id)
    (hb : r'.business_id = r.business_id) (hfresh : db.attempt row.id = none)
    (hi : row.invoice_id = t.2.2) (hp : row.status = .Pending) (hkr : kr.index = t)
    (hstart : K.alone → K.start db)
    (hdb' : db' = applyAll db [Write.put_invoice r', .put_attempt row, .put_key kr]) :
    Begun K T t v row.toPaymentAttempt
      (⟨T, db, [.put_invoice r', .put_attempt row, .put_key kr]⟩ :: past) db' := by
  have hid : r'.id = t.2.2 := hr'.trans (Db.id_of_invoice hr.1)
  subst hdb'
  refine ⟨⟨_, List.mem_cons_self .., rfl, hr.2.2.2.2, hfresh, _, row, kr, rfl, rfl, hkr⟩,
    ⟨row, ?_, hi, rfl, fun _ => hp⟩, ⟨kr, ?_⟩,
    ⟨r', ?_, fun hK => ⟨db, r, hstart hK, hr, hb.symm⟩⟩⟩
  · exact (Table.find_put ..).trans (if_pos rfl)
  · exact (Table.find_put ..).trans (if_pos hkr)
  · exact (Table.find_put ..).trans (if_pos hid)

theorem start_attempt_keeps {b i : Uuid} {k : String} {req : PayInvoiceRequest} (htx : Idle T w)
    (hnew : Fresh T w) (hstart : K.alone → K.start w.db) :
    Keeps K T (.call (.pay_invoice i b (some k) req)) (fun p w' => Idle T w' ∧ p.2.id = p.1 ∧
      (∀ ch ∈ w'.charges, ch.pid ≠ T) ∧
      Begun K T (k, b, i) req.versioning p.2 w'.history w'.db) (Idle T)
      (start_attempt (k, b, i) req) w := by
  refine .transaction htx (fun _ h => h) fun w₁ hn₁ htx₁ => ?_
  refine .seq (.sql_within htx₁ (fun _ _ => trivial) fun c ws (n : ℕ) w₂ hn₂ htx₂ hrun => ?_)
  have hclaim := Stmt.run_claim_open hrun
  refine .seq (.reject_if trivial fun hn0 => .seq (.new_v4 fun a w₃ hn₃ htx₃ => ?_))
  obtain ⟨r, hr, hopen, hv, hmax, rfl⟩ := hclaim.resolve_left fun h => hn0 h.1
  have hid := Db.id_of_invoice hr
  rw [htx₂] at htx₃
  refine .seq (.sql_within htx₃ (fun _ _ => trivial) fun c ws (p : PaymentAttempt) w₄ hn₄ htx₄
    hrun => ?_)
  obtain ⟨ha, hp, rfl⟩ := Stmt.run_insert_attempt hrun
  refine .seq (.sql_within htx₄ (fun _ _ => trivial) fun c ws n w₅ hn₅ htx₅ hrun => .pure ?_)
  obtain ⟨hk, rfl⟩ := Stmt.run_insert_key hrun
  refine ⟨_, htx₅, fun w₆ hn₆ => ?_⟩
  -- each row is as it was read: it has been locked ever since
  have hr₆ : w₆.db.invoice i = some r := by
    rw [(hn₆.held _ htx₅).invoice (by simp [hid]), (hn₅.held _ htx₄).invoice (by simp [hid]),
      (hn₄.held _ htx₃).invoice (by simp [hid]), (hn₃.held _ htx₂).invoice (by simp [hid])]
    exact hr
  have ha₆ : w₆.db.attempt a = none := by
    rw [(hn₆.held _ htx₅).attempt (by simp [hp]), (hn₅.held _ htx₄).attempt (by simp [hp])]
    exact ha
  have hk₆ : w₆.db.idempotency_key (k, b, i) = none :=
    ((hn₆.held _ htx₅).key (by simp [IdempotencyKey.index])).trans hk
  have hpay : Payable (k, b, i) req.versioning w₆.db r := ⟨hr₆, hopen, hv, hv ▸ hmax, hk₆⟩
  have hstart₆ : K.alone → K.start w₆.db := fun hK => by
    rw [hn₆.alone hK nofun, hn₅.alone hK nofun, hn₄.alone hK nofun, hn₃.alone hK nofun,
      hn₂.alone hK nofun, hn₁.alone hK nofun]
    exact hstart hK
  have hnew₆ := (((((hnew.later hn₁.toLater).later hn₂.toLater).later hn₃.toLater).later
    hn₄.toLater).later hn₅.toLater).later hn₆.toLater
  refine ⟨.pay_start hpay (by rw [hp]) ha₆ rfl hstart₆, fun w₇ hs => ?_⟩
  refine ⟨hs.tx, by rw [hp], hs.charges ▸ hnew₆.charges, ?_⟩
  rw [hs.history]
  exact .start ⟨p, 0, none⟩ hpay rfl rfl (by rw [hp]; exact ha₆) (by rw [hp])
    (by rw [hp]) rfl hstart₆ hs.db

/-! ### The charge and the second transaction -/

/-- `record` writes the outcome `o` to the attempt `a`, in a transaction without writes. -/
def Records (K : Setting) (T : Pid) (j : Job) (a : Uuid) (o : Outcome)
    (record : App (Option PaymentAttempt)) : Prop :=
  ∀ (w : World) (t : DateTime) (ok : Option PaymentAttempt → World → Prop),
    w.tx T = some ⟨t, []⟩ →
    (∀ s p ws w', Next K T j (.sql s) w w' → w'.tx T = some ⟨t, ws⟩ →
      (∀ r, p = some r → ∃ row, w'.db.attempt a = some row ∧
        ws = [.put_attempt (o.record t row)] ∧ r = (o.record t row).toPaymentAttempt) → ok p w') →
    Keeps K T j ok (fun _ => True) record w

theorem attempt_succeeded_records {j : Job} {a : Uuid} {psp_ref : String} :
    Records K T j a (.succeeded (some psp_ref)) (sql (.attempt_succeeded psp_ref a)) := by
  intro w t ok htx h
  refine .sql_within htx (fun _ _ => trivial) fun c ws p w₁ hn htx₁ hrun => ?_
  refine h _ p ws w₁ hn htx₁ ?_
  rintro r rfl
  exact Stmt.run_attempt_succeeded hrun

theorem attempt_failed_records {j : Job} {a : Uuid} {code : String} :
    Records K T j a (.failed (some code)) (sql (.attempt_failed code a)) := by
  intro w t ok htx h
  refine .sql_within htx (fun _ _ => trivial) fun c ws p w₁ hn htx₁ hrun => ?_
  refine h _ p ws w₁ hn htx₁ ?_
  rintro r rfl
  exact Stmt.run_attempt_failed hrun

theorem record_outcome_keeps {b i : Uuid} {k : String} {req : PayInvoiceRequest}
    {a : PaymentAttempt} {o : Outcome} {ans : Answer} {record : App (Option PaymentAttempt)}
    {event_type : String} (htx : Idle T w)
    (hb : Begun K T (k, b, i) req.versioning a w.history w.db) (hans : K.answer true a.id ans)
    (ho : (psp_result ans).outcome = some o)
    (hrec : Records K T (.call (.pay_invoice i b (some k) req)) a.id o record) :
    Keeps K T (.call (.pay_invoice i b (some k) req))
      (fun p w' => Idle T w' ∧ Answered T (k, b, i) p w') (Idle T)
      (record_outcome record o.state event_type (k, b, i)) w := by
  refine .seq (.transaction htx (fun _ h => h) fun w₁ hn₁ htx₁ => ?_)
  refine .seq (hrec w₁ _ _ htx₁ fun s p ws w₂ hn₂ htx₂ hp =>
    .seq (.fetch_one trivial fun r hr => ?_))
  obtain ⟨row, hrow, rfl, rfl⟩ := hp r hr
  have hrid := Db.id_of_attempt hrow
  refine .seq (.sql_within htx₂ (fun _ _ => trivial) fun c ws (n : ℕ) w₃ hn₃ htx₃ hrun => ?_)
  refine .seq (.rollback_if (fun _ => trivial) fun hn0 => ?_)
  obtain ⟨inv, hinv, hmax, rfl⟩ := Stmt.run_settle_invoice hrun hn0
  have hiid := Db.id_of_invoice hinv
  have hinv₃ : w₃.db.invoice i = some inv := hinv
  have hb₃ := hn₃.begun nofun (hn₂.begun nofun (hn₁.begun nofun hb))
  refine .seq (.sql_within htx₃ (fun _ _ => trivial) fun c ws n w₄ hn₄ htx₄ hrun => .pure ?_)
  have hb₄ := hn₄.begun nofun hb₃
  obtain ⟨kr, hkr⟩ := hb₄.key
  obtain rfl := Stmt.run_update_response hrun kr hkr
  have hkid := Db.index_of_key hkr
  refine ⟨_, htx₄, fun w₅ hn₅ => ?_⟩
  have hrow₅ : w₅.db.attempt a.id = some row := by
    rw [(hn₅.held _ htx₄).attempt (by simp [hrid]), (hn₄.held _ htx₃).attempt (by simp [hrid]),
      (hn₃.held _ htx₂).attempt (by simp [hrid])]
    exact hrow
  have hinv₅ : w₅.db.invoice i = some inv := by
    rw [(hn₅.held _ htx₄).invoice (by simp [hiid]), (hn₄.held _ htx₃).invoice (by simp [hiid])]
    exact hinv₃
  have hkr₅ : w₅.db.idempotency_key (k, b, i) = some kr := by
    rw [(hn₅.held _ htx₄).key (by simp [← hkid, IdempotencyKey.index])]
    exact hkr
  refine ⟨.pay_record (hn₅.begun nofun hb₄) hrow₅ hinv₅ hmax hkr₅ hans ho, fun w₆ hs => ?_⟩
  refine .seq (.spawn_dispatch trivial fun w₇ hn₇ htx₇ => .pure ⟨htx₇.trans hs.tx, ?_⟩)
  refine Answered.later (fun a₀ _ => ⟨{ kr with
    response_body := (o.record w₁.now row).to_value, response_status := 200,
    updated_at := w₁.now }, ?_, rfl⟩) hn₇.toLater
  rw [hs.db]
  exact (Table.find_put ..).trans (if_pos hkid)

theorem leave_pending_keeps {b i : Uuid} {k : String} {req : PayInvoiceRequest}
    {a : PaymentAttempt} (htx : Idle T w)
    (hb : Begun K T (k, b, i) req.versioning a w.history w.db) :
    Keeps K T (.call (.pay_invoice i b (some k) req))
      (fun p w' => Idle T w' ∧ Answered T (k, b, i) p w') (Idle T)
      (leave_pending a (k, b, i)) w := by
  refine .seq (.sql_outside htx (fun _ _ h => h) fun c ws n w₁ hn₁ hrun => ?_)
  have hb₁ := hn₁.begun nofun hb
  obtain ⟨kr, hkr⟩ := hb₁.key
  obtain rfl := Stmt.run_update_response hrun kr hkr
  refine ⟨nofun, fun _ => ⟨.pay_leave hb₁ hkr, fun w₂ hs => ⟨hs.tx, fun a₀ _ => ⟨{ kr with
    response_body := a.to_value, response_status := 202, updated_at := w₁.now }, ?_, rfl⟩⟩⟩⟩
  rw [hs.db]
  exact (Table.find_put ..).trans (if_pos (Db.index_of_key hkr))

theorem call_psp_keeps {b i : Uuid} {k : String} {req : PayInvoiceRequest} {a : PaymentAttempt}
    (htx : Idle T w) (hfirst : ∀ ch ∈ w.charges, ch.pid ≠ T)
    (hb : Begun K T (k, b, i) req.versioning a w.history w.db) :
    Keeps K T (.call (.pay_invoice i b (some k) req)) (fun res w' => Idle T w' ∧
      Begun K T (k, b, i) req.versioning a w'.history w'.db ∧
      ∃ ans, K.answer true a.id ans ∧ psp_result ans = res) (Idle T)
      (call_psp a.id req.card_token) w := by
  refine .seq (.send_charge (fun w₁ hn₁ => ?_) fun w₁ w₂ hn₁ htx₂ hdb hh => ?_)
  · exact .charge (hn₁.begun nofun hb) fun ch hch hp => hfirst ch (hn₁.charges ch hch hp) hp
  have hb₂ : Begun K T (k, b, i) req.versioning a w₂.history w₂.db := by
    rw [hh, hdb]; exact hn₁.begun nofun hb
  refine .seq (.recv_charge fun ans w₃ hn₃ htx₃ hans => .pure ?_)
  exact ⟨htx₃.trans (htx₂.trans htx), hn₃.begun nofun hb₂, ans, hans, rfl⟩

theorem charge_attempt_keeps {b i : Uuid} {k : String} {req : PayInvoiceRequest}
    {a : PaymentAttempt} (htx : Idle T w) (hfirst : ∀ ch ∈ w.charges, ch.pid ≠ T)
    (hb : Begun K T (k, b, i) req.versioning a w.history w.db) :
    Keeps K T (.call (.pay_invoice i b (some k) req))
      (fun p w' => Idle T w' ∧ Answered T (k, b, i) p w') (Idle T)
      (charge_attempt (k, b, i) req a.id a) w := by
  refine .bind (call_psp_keeps htx hfirst hb) ?_
  rintro res w₁ ⟨htx₁, hb₁, ans, hans, hres⟩
  cases res with
  | Succeeded psp_ref =>
    exact record_outcome_keeps (o := .succeeded (some psp_ref)) htx₁ hb₁ hans (by rw [hres]; rfl)
      attempt_succeeded_records
  | Failed code =>
    exact record_outcome_keeps (o := .failed (some code)) htx₁ hb₁ hans (by rw [hres]; rfl)
      attempt_failed_records
  | TimedOut => exact leave_pending_keeps htx₁ hb₁
  | NetworkError => exact leave_pending_keeps htx₁ hb₁

theorem pay_invoice_keeps {b i : Uuid} {k : String} {req : PayInvoiceRequest} (htx : Idle T w)
    (hnew : Fresh T w) (hstart : K.alone → K.start w.db) :
    Keeps K T (.call (.pay_invoice i b (some k) req))
      (fun p w' => Idle T w' ∧ Answered T (k, b, i) p w') (Idle T)
      (pay_invoice i b k req) w := by
  refine .seq (.sql_read htx (fun _ _ h => h) (fun _ _ _ _ _ h => by cases h; rfl)
    fun c (o : Option Json) w₁ hn₁ htx₁ hrun => ?_)
  have hnew₁ := hnew.later hn₁.toLater
  cases o with
  | some body =>
    -- a replay: this call has created nothing
    exact .ok_or htx₁ fun a _ => ⟨htx₁, hnew₁.answered⟩
  | none =>
    have hstart₁ : K.alone → K.start w₁.db := fun hK => by
      rw [hn₁.alone hK nofun]; exact hstart hK
    refine .bind (start_attempt_keeps htx₁ hnew₁ hstart₁) ?_
    rintro ⟨id, a⟩ w₂ ⟨htx₂, hid, hfirst, hb⟩
    obtain rfl : a.id = id := hid
    exact charge_attempt_keeps htx₂ hfirst hb

end Payman
