import Payman.Safety.Payments

/-! The reconciliation worker, `dispatch` and the requests without invoices keep their contract. -/

namespace Payman
open Schemes

variable {K : Setting} {T : Pid} {w : World}

/-- The attempt `x`, as a query of the worker returned it, is still there, and still pending if
    nobody else runs. -/
def Listed (K : Setting) (x : AttemptRow) (db : Db) : Prop :=
  ∃ row, db.attempt x.id = some row ∧ row.invoice_id = x.invoice_id ∧
    row.created_at = x.created_at ∧ (K.alone → row.status = .Pending)

theorem Listed.next {x : AttemptRow} {j : Job} {e : Eff} {w' : World} (h : Listed K x w.db)
    (hn : Next K T j e w w') : Listed K x w'.db := by
  obtain ⟨row, hrow, hi, ht, hp⟩ := h
  obtain ⟨row', hrow', hi', -, ht'⟩ := hn.grows.attempt _ row hrow
  refine ⟨row', hrow', hi'.trans hi, ht'.trans ht, fun hK => ?_⟩
  rw [hn.alone hK nofun, hrow, Option.some.injEq] at hrow'
  exact hrow' ▸ hp hK

/-- A commit that does not touch the attempt leaves it listed. -/
theorem Listed.settled {x : AttemptRow} {ws : List Write} {w' : World} (h : Listed K x w.db)
    (hs : Settled T ws w w') (hx : LockKey.attempt x.id ∉ lockSet ws) : Listed K x w'.db := by
  obtain ⟨row, hrow, hrest⟩ := h
  refine ⟨row, ?_, hrest⟩
  rw [hs.db]
  exact ((Db.readsOnly_attempt x.id).applyAll ws w.db hx).trans hrow

/-- Between two attempts: no transaction, and the attempts still to do are listed. -/
def Resting (K : Setting) (T : Pid) (xs : List AttemptRow) (w : World) : Prop :=
  Idle T w ∧ ∀ x ∈ xs, Listed K x w.db

theorem Resting.next {xs : List AttemptRow} {j : Job} {e : Eff} {w' : World}
    (h : Resting K T xs w) (hn : Next K T j e w w') (htx : w'.tx T = w.tx T) :
    Resting K T xs w' := ⟨htx.trans h.1, fun x hx => (h.2 x hx).next hn⟩

theorem Resting.settled {xs : List AttemptRow} {ws : List Write} {w' : World}
    (h : ∀ x ∈ xs, Listed K x w.db) (hs : Settled T ws w w')
    (hws : ∀ x ∈ xs, LockKey.attempt x.id ∉ lockSet ws) : Resting K T xs w' :=
  ⟨hs.tx, fun x hx => (h x hx).settled hs (hws x hx)⟩

/-! ### Reconciliation -/

theorem evidence_of_answer {row : AttemptRow} (now : DateTime) {psp : PspBody} {o : Outcome}
    {status : ℕ}
    (hans : is_success status = true ∧ K.answer false row.id (.response status (some psp)))
    (ho : psp.outcome = some o) : Evidence K row now o ∧ o ≠ .expired := by
  unfold PspBody.outcome at ho
  split at ho
  · rename_i hs; cases ho; exact ⟨⟨status, psp, hans, by simp [PspBody.outcome, hs]⟩, nofun⟩
  · split at ho
    · rename_i hs hf; cases ho
      exact ⟨⟨status, psp, hans, by simp [PspBody.outcome, hf]⟩, nofun⟩
    · cases ho

/-- `record` writes the outcome `o` to the attempt `a`, in a transaction without writes so far. -/
def Marks (K : Setting) (T : Pid) (a : Uuid) (o : Outcome) (record : App ℕ) : Prop :=
  ∀ (w : World) (t : DateTime) (ok : ℕ → World → Prop) (err : World → Prop),
    w.tx T = some ⟨t, []⟩ → (∀ s w', Next K T .tick (.sql s) w w' → err w') →
    (∀ s n ws w', Next K T .tick (.sql s) w w' → w'.tx T = some ⟨t, ws⟩ →
      (∀ row, w'.db.attempt a = some row → ws = [.put_attempt (o.record t row)]) → ok n w') →
    Keeps K T .tick ok err record w

theorem mark_succeeded_marks {a : Uuid} {psp_ref : Option String} :
    Marks K T a (.succeeded psp_ref) (sql (.mark_succeeded psp_ref a)) :=
  fun _ _ _ _ htx herr h => .sql_within htx (herr _) fun _ _ _ _ hn htx₁ hrun =>
    h _ _ _ _ hn htx₁ fun row hrow => Stmt.settled_ok (o := .succeeded psp_ref) hrun row hrow

theorem mark_failed_marks {a : Uuid} {code : Option String} :
    Marks K T a (.failed code) (sql (.mark_failed code a)) :=
  fun _ _ _ _ htx herr h => .sql_within htx (herr _) fun _ _ _ _ hn htx₁ hrun =>
    h _ _ _ _ hn htx₁ fun row hrow => Stmt.settled_ok (o := .failed code) hrun row hrow

/-- The outcome transaction. -/
theorem settle_tx_keeps {x : AttemptRow} {xs : List AttemptRow} {t : DateTime} {o : Outcome}
    {psp : PspBody} {status : ℕ} {record : App ℕ} (htx : w.tx T = some ⟨t, []⟩)
    (hx : Listed K x w.db) (hxs : ∀ y ∈ xs, Listed K y w.db) (hne : ∀ y ∈ xs, y.id ≠ x.id)
    (hans : is_success status = true ∧ K.answer false x.id (.response status (some psp)))
    (ho : psp.outcome = some o)
    (hrec : Marks K T x.id o record) :
    Keeps K T .tick (fun _ => Resting K T xs) (fun w' => ∀ y ∈ xs, Listed K y w'.db) (do
      let _ ← record
      let _ ← sql (.leave_processing o.state x.invoice_id)
      commit_tx) w := by
  have hnext : ∀ {e : Eff} {w₁ w₂ : World}, (∀ y ∈ xs, Listed K y w₁.db) →
      Next K T .tick e w₁ w₂ → ∀ y ∈ xs, Listed K y w₂.db := fun h hn y hy => (h y hy).next hn
  refine .seq (hrec w t _ _ htx (fun _ w₁ hn₁ => hnext hxs hn₁) fun s n ws w₁ hn₁ htx₁ hws => ?_)
  have hxs₁ := hnext hxs hn₁
  obtain ⟨row, hrow, hi, -, hp⟩ := hx.next hn₁
  obtain rfl := hws row hrow
  have hrid : row.id = x.id := Db.id_of_attempt hrow
  refine .seq (.sql_within htx₁ (fun w₂ hn₂ => hnext hxs₁ hn₂) fun c ws n w₂ hn₂ htx₂ hrun => ?_)
  have hxs₂ := hnext hxs₁ hn₂
  have hrow₂ : w₂.db.attempt row.id = some row := by
    rw [hrid, (hn₂.held _ htx₁).attempt (by simp [hrid])]; exact hrow
  obtain ⟨hev, -⟩ := evidence_of_answer t (hrid ▸ hans) ho
  refine .commit_tx (fun w₃ hn₃ => hnext hxs₂ hn₃) ?_
  rcases Stmt.run_leave_processing hrun with ⟨rfl, hno⟩ | ⟨r, hr, hproc, rfl⟩
  · -- the invoice was not Processing when the UPDATE looked at it
    refine ⟨_, htx₂, fun w₃ hn₃ => ⟨?_, fun w₄ hs => ?_⟩⟩
    · refine .settle_only ?_ hev (hn₃.was _ (.inl ⟨hrow₂, ?_⟩)) hp
      · rw [(hn₃.held _ htx₂).attempt (by simp)]; exact hrow₂
      · rw [hi]; exact hno
    · refine .settled (hnext hxs₂ hn₃) hs fun y hy hmem => hne y hy ?_
      simpa [hrid] using hmem
  · refine ⟨_, htx₂, fun w₃ hn₃ => ⟨?_, fun w₄ hs => ?_⟩⟩
    · refine .settle ?_ ?_ hev (fun _ => hproc) hp
      · rw [(hn₃.held _ htx₂).attempt (by simp)]; exact hrow₂
      · rw [hi, (hn₃.held _ htx₂).invoice (by simp [Db.id_of_invoice hr])]; exact hr
    · refine .settled (hnext hxs₂ hn₃) hs fun y hy hmem => hne y hy ?_
      simpa [hrid] using hmem

theorem settle_attempt_keeps {x : AttemptRow} {xs : List AttemptRow} {t : DateTime} {o : Outcome}
    {psp : PspBody} {status : ℕ} {record : App ℕ} {event_type : String}
    (htx : w.tx T = some ⟨t, []⟩) (hx : Listed K x w.db) (hxs : ∀ y ∈ xs, Listed K y w.db)
    (hne : ∀ y ∈ xs, y.id ≠ x.id)
    (hans : is_success status = true ∧ K.answer false x.id (.response status (some psp)))
    (ho : psp.outcome = some o) (hrec : Marks K T x.id o record) :
    Keeps K T .tick (fun _ => Resting K T xs) (Resting K T xs)
      (settle_attempt record o.state event_type x.invoice_id) w := by
  refine .bind (.or_drop (fun w' => ∀ y ∈ xs, Listed K y w'.db)
    (fun w₁ w₂ h hn htx₂ => ⟨htx₂, fun y hy => (h y hy).next hn⟩)
    (settle_tx_keeps htx hx hxs hne hans ho hrec)) fun _ w₁ h₁ => ?_
  refine .seq (.seq (.sql_read h₁.1 (fun w₂ hn htx₂ => h₁.next hn (htx₂.trans h₁.1.symm))
    (fun _ _ _ _ _ h => by cases h; rfl) fun c o w₂ hn₂ htx₂ _ => ?_))
  have h₂ := h₁.next hn₂ (htx₂.trans h₁.1.symm)
  exact .fetch_one h₂ fun b _ => .spawn_dispatch trivial fun w₃ hn₃ htx₃ => h₂.next hn₃ htx₃

theorem apply_outcome_keeps {x : AttemptRow} {xs : List AttemptRow} {psp : PspBody} {status : ℕ}
    (h : Resting K T (x :: xs) w) (hne : ∀ y ∈ xs, y.id ≠ x.id)
    (hans : is_success status = true ∧ K.answer false x.id (.response status (some psp))) :
    Keeps K T .tick (fun _ => Resting K T xs) (Resting K T xs)
      (apply_outcome psp x.id x.invoice_id) w := by
  have hrest : ∀ w', Resting K T (x :: xs) w' → Resting K T xs w' := fun w' h' =>
    ⟨h'.1, fun y hy => h'.2 y (List.mem_cons_of_mem _ hy)⟩
  refine .seq (.begin_tx h.1 (fun w₁ hn htx => hrest w₁ (h.next hn (htx.trans h.1.symm)))
    fun w₁ hn₁ htx₁ => ?_)
  have hl : ∀ y ∈ x :: xs, Listed K y w₁.db := fun y hy => (h.2 y hy).next hn₁
  have hx := hl x (List.mem_cons_self ..)
  have hxs : ∀ y ∈ xs, Listed K y w₁.db := fun y hy => hl y (List.mem_cons_of_mem _ hy)
  split
  · rename_i hs
    exact settle_attempt_keeps (o := .succeeded psp.psp_ref) htx₁ hx hxs hne hans
      (by simp [PspBody.outcome, hs]) mark_succeeded_marks
  · split
    · rename_i hs hf
      exact settle_attempt_keeps (o := .failed psp.code) htx₁ hx hxs hne hans
        (by simp [PspBody.outcome, hf]) mark_failed_marks
    · exact .drop_tx fun w₂ hn₂ htx₂ => ⟨htx₂, fun y hy => (hxs y hy).next hn₂⟩

theorem reconcile_attempt_keeps {x : AttemptRow} {xs : List AttemptRow} {n : Int32}
    (h : Resting K T (x :: xs) w) (hne : ∀ y ∈ xs, y.id ≠ x.id) :
    Keeps K T .tick (fun _ => Resting K T xs) (Resting K T xs)
      (reconcile_attempt x.id x.invoice_id n) w := by
  refine .seq (.get_charge fun ans w₁ hn₁ htx₁ hans => ?_)
  have h₁ := h.next hn₁ htx₁
  have hrest : Resting K T xs w₁ := ⟨h₁.1, fun y hy => h₁.2 y (List.mem_cons_of_mem _ hy)⟩
  cases ans with
  | timed_out => exact .pure hrest
  | network_error => exact .pure hrest
  | response status body =>
    show Keeps K T .tick _ _ (if status = 404 then _ else _) w₁
    split
    · refine .seq (.sql_outside h₁.1 (fun w₂ hn htx => hrest.next hn (htx.trans h₁.1.symm))
        fun c ws n w₂ hn₂ hrun => ?_)
      rcases Stmt.run_schedule_retry hrun with rfl | ⟨row, hrow, k, at_, rfl⟩
      · exact ⟨fun _ htx => hrest.next hn₂ (htx.trans h₁.1.symm), fun hne => absurd rfl hne⟩
      · refine ⟨nofun, fun _ => ⟨.retry hrow, fun w₃ hs => ?_⟩⟩
        refine .settled (fun y hy => (hrest.2 y hy).next hn₂) hs fun y hy hmem => hne y hy ?_
        simpa [Db.id_of_attempt hrow] using hmem
    · split
      · rename_i hok
        refine .seq (.ok_or hrest fun psp hpsp => ?_)
        subst hpsp
        exact apply_outcome_keeps h₁ hne ⟨hok, hans⟩
      · exact .pure hrest

theorem log_error_keeps {j : Job} {ok : World → Prop} {body : App Unit}
    (h : Keeps K T j (fun _ => ok) ok body w) :
    Keeps K T j (fun _ => ok) (Idle T) (log_error body) w := by
  refine Safe.bind (fun r w' h' => ?_) h
  cases r <;> exact h'

theorem reconcile_all_keeps : ∀ (xs : List AttemptRow) (w : World), (xs.map (·.id)).Nodup →
    Resting K T xs w → Keeps K T .tick (fun _ => Idle T) (Idle T) (reconcile_all xs) w
  | [], _, _, h => .pure h.1
  | x :: xs, w, hnd, h => by
    rw [List.map_cons, List.nodup_cons] at hnd
    have hne : ∀ y ∈ xs, y.id ≠ x.id := fun y hy hyx =>
      hnd.1 (hyx ▸ List.mem_map_of_mem (f := fun z : AttemptRow => z.id) hy)
    exact .bind (log_error_keeps (reconcile_attempt_keeps h hne)) fun _ w' h' =>
      reconcile_all_keeps xs w' hnd.2 h'

/-! ### Expiry -/

theorem expire_keeps {x : AttemptRow} {xs : List AttemptRow} (h : Resting K T (x :: xs) w)
    (hne : ∀ y ∈ xs, y.id ≠ x.id) (hold : ∀ y ∈ x :: xs, y.created_at ≤ w.now - hours24) :
    Keeps K T .tick (fun _ w' => Resting K T xs w' ∧ ∀ y ∈ xs, y.created_at ≤ w'.now - hours24)
      (Idle T) (expire x.id x.invoice_id) w := by
  refine .transaction h.1 (fun _ h => h) fun w₁ hn₁ htx₁ => ?_
  refine .seq (.sql_within htx₁ (fun _ _ => trivial) fun c ws n w₂ hn₂ htx₂ hrun => ?_)
  obtain ⟨row, hrow, hi, ht, hp⟩ := ((h.2 x (List.mem_cons_self ..)).next hn₁).next hn₂
  obtain rfl := Stmt.settled_ok (o := .expired) hrun row hrow
  have hrid : row.id = x.id := Db.id_of_attempt hrow
  refine .seq (.sql_within htx₂ (fun _ _ => trivial) fun c ws n w₃ hn₃ htx₃ hrun => .pure ?_)
  have hrow₃ : w₃.db.attempt row.id = some row := by
    rw [hrid, (hn₃.held _ htx₂).attempt (by simp [hrid])]; exact hrow
  have hev : Evidence K row w₁.now .expired := by
    refine Int.le_trans (Int.le_of_eq ht) ?_
    exact Int.le_trans (hold x (List.mem_cons_self ..)) (Int.sub_le_sub_right hn₁.clock _)
  have hxs₃ : ∀ y ∈ xs, Listed K y w₃.db := fun y hy =>
    (((h.2 y (List.mem_cons_of_mem _ hy)).next hn₁).next hn₂).next hn₃
  have hpost : ∀ {ws : List Write} {w₄ w₅ : World}, Next K T .tick .commit w₃ w₄ →
      Settled T ws w₄ w₅ → (∀ y ∈ xs, LockKey.attempt y.id ∉ lockSet ws) →
      Resting K T xs w₅ ∧ ∀ y ∈ xs, y.created_at ≤ w₅.now - hours24 := by
    intro ws w₄ w₅ hn₄ hs hws
    refine ⟨.settled (fun y hy => (hxs₃ y hy).next hn₄) hs hws, fun y hy => ?_⟩
    have hclock : w.now ≤ w₅.now := Int.le_trans (Int.le_trans (Int.le_trans hn₁.clock hn₂.clock)
      (Int.le_trans hn₃.clock hn₄.clock)) hs.clock
    exact Int.le_trans (hold y (List.mem_cons_of_mem _ hy)) (Int.sub_le_sub_right hclock _)
  rcases Stmt.run_reopen_invoice hrun with ⟨rfl, hnone⟩ | ⟨r, hr, rfl⟩
  · refine ⟨_, htx₃, fun w₄ hn₄ => ⟨?_, fun w₅ hs => hpost hn₄ hs fun y hy hmem => hne y hy ?_⟩⟩
    · refine .settle_only ?_ hev (hn₄.was _ (.inl ⟨hrow₃, fun r hr => ?_⟩)) hp
      · rw [(hn₄.held _ htx₃).attempt (by simp)]; exact hrow₃
      · rw [hi] at hr; exact absurd (hnone.symm.trans hr) nofun
    · simpa [hrid] using hmem
  · refine ⟨_, htx₃, fun w₄ hn₄ => ⟨?_, fun w₅ hs => hpost hn₄ hs fun y hy hmem => hne y hy ?_⟩⟩
    · refine .settle ?_ ?_ hev (fun hne => absurd rfl hne) hp
      · rw [(hn₄.held _ htx₃).attempt (by simp)]; exact hrow₃
      · rw [hi, (hn₄.held _ htx₃).invoice (by simp [Db.id_of_invoice hr])]; exact hr
    · simpa [hrid] using hmem

theorem expire_all_keeps : ∀ (xs : List AttemptRow) (w : World), (xs.map (·.id)).Nodup →
    (∀ y ∈ xs, y.created_at ≤ w.now - hours24) → Resting K T xs w →
    Keeps K T .tick (fun _ => Idle T) (Idle T) (expire_all xs) w
  | [], _, _, _, h => .pure h.1
  | x :: xs, w, hnd, hold, h => by
    rw [List.map_cons, List.nodup_cons] at hnd
    have hne : ∀ y ∈ xs, y.id ≠ x.id := fun y hy hyx =>
      hnd.1 (hyx ▸ List.mem_map_of_mem (f := fun z : AttemptRow => z.id) hy)
    exact .bind (expire_keeps h hne hold) fun _ w' h' => expire_all_keeps xs w' hnd.2 h'.2 h'.1

theorem tick_keeps (htx : Idle T w) :
    Keeps K T .tick (fun _ => Idle T) (Idle T) tick w := by
  refine .seq (.sql_read htx (fun _ _ h => h) (fun _ _ _ _ _ h => by cases h; rfl)
    fun c (xs : List AttemptRow) w₁ _ htx₁ hrun => ?_)
  obtain ⟨hnd, hxs⟩ := Stmt.run_select_pending hrun
  have hlisted : ∀ x ∈ xs, Listed K x w₁.db := fun x hx =>
    ⟨x, (hxs x hx).1, rfl, rfl, fun _ => (hxs x hx).2⟩
  refine .bind (reconcile_all_keeps xs w₁ hnd ⟨htx₁, hlisted⟩) fun _ w₂ htx₂ => ?_
  refine .seq (.sql_read htx₂ (fun _ _ h => h) (fun _ _ _ _ _ h => by cases h; rfl)
    fun c (xs : List AttemptRow) w₃ _ htx₃ hrun => ?_)
  obtain ⟨hnd, hxs⟩ := Stmt.run_select_expired hrun
  have hlisted : ∀ x ∈ xs, Listed K x w₃.db := fun x hx =>
    ⟨x, (hxs x hx).1, rfl, rfl, fun _ => (hxs x hx).2.1⟩
  exact expire_all_keeps xs w₃ hnd (fun x hx => (hxs x hx).2.2) ⟨htx₃, hlisted⟩

/-! ### Dispatch -/

theorem insert_deliveries_keeps {task : DispatchTask} {event_type : String} {payload : Json} :
    ∀ (endpoints : List WebhookEndpoint) (w : World), Idle T w →
      Keeps K T (.dispatch task) (fun _ => Idle T) (Idle T)
        (insert_deliveries event_type payload endpoints) w
  | [], _, h => .pure h
  | _ :: endpoints, w, h => by
    refine .bind (.sql_outside h (fun _ _ h => h) fun c ws n w₁ _ hrun => ?_) fun _ w₂ h₂ =>
      insert_deliveries_keeps endpoints w₂ h₂
    obtain ⟨row, hfresh, he, -, hs, hn, -, -, rfl⟩ := Stmt.run_insert_delivery hrun
    exact ⟨nofun, fun _ => ⟨.delivery hfresh he hs hn, fun _ hs => hs.tx⟩⟩

theorem dispatch_keeps {task : DispatchTask} (htx : Idle T w) :
    Keeps K T (.dispatch task) (fun _ => Idle T) (Idle T)
      (dispatch task.business_id task.invoice_id task.event_type) w := by
  refine .seq (.sql_read htx (fun _ _ h => h) (fun _ _ _ _ _ h => by cases h; rfl)
    fun c (endpoints : List WebhookEndpoint) w₁ _ htx₁ _ => ?_)
  cases endpoints with
  | nil => exact .pure htx₁
  | cons e es =>
    exact .seq (.utc_now fun t w₂ _ htx₂ => insert_deliveries_keeps _ w₂ (htx₂.trans htx₁))

/-! ### Deliveries -/

theorem deliver_keeps {d : Uuid} {url secret : String} {payload : Json} (htx : Idle T w) :
    Keeps K T .deliveries (fun _ => Idle T) (Idle T) (deliver d url secret payload) w := by
  refine .seq (.utc_now fun t w₁ _ htx₁ => .seq (.post_webhook rfl fun ans w₂ htx₂ => ?_))
  have htx₂ : Idle T w₂ := htx₂.trans (htx₁.trans htx)
  split
  · refine .seq (.sql_outside htx₂ (fun _ _ h => h) fun c ws n w₃ _ hrun => ?_)
    rcases Stmt.run_mark_delivered hrun with ⟨rfl, -⟩ | ⟨row, hrow, rfl⟩
    · exact ⟨fun _ h => h, fun hne => absurd rfl hne⟩
    · exact ⟨nofun, fun _ => ⟨.report hrow, fun _ hs => hs.tx⟩⟩
  · refine .seq (.sql_outside htx₂ (fun _ _ h => h) fun c ws n w₃ _ hrun => ?_)
    rcases Stmt.run_schedule_redelivery hrun with ⟨rfl, -⟩ | ⟨row, hrow, rfl⟩
    · exact ⟨fun _ h => h, fun hne => absurd rfl hne⟩
    · exact ⟨nofun, fun _ => ⟨.report hrow, fun _ hs => hs.tx⟩⟩

theorem deliver_all_keeps : ∀ (deliveries : List DueDelivery) (w : World), Idle T w →
    Keeps K T .deliveries (fun _ => Idle T) (Idle T) (deliver_all deliveries) w
  | [], _, h => .pure h
  | _ :: deliveries, _, h =>
    .bind (log_error_keeps (deliver_keeps h)) fun _ w' h' => deliver_all_keeps deliveries w' h'

theorem process_pending_deliveries_keeps (htx : Idle T w) :
    Keeps K T .deliveries (fun _ => Idle T) (Idle T) process_pending_deliveries w :=
  .seq (.sql_read htx (fun _ _ h => h) (fun _ _ _ _ _ h => by cases h; rfl)
    fun _ _ w₁ _ htx₁ _ => deliver_all_keeps _ w₁ htx₁)

end Payman
