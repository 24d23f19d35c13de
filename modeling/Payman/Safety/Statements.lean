import Payman.Safety.Effects

/-! What a statement that succeeds has read and written: one inversion lemma a statement, on top of
    the ones for `update` and for the two checks of an INSERT. -/

namespace Payman.Stmt
open Schemes

/-- A counter that is raised changes, also where it wraps. -/
theorem ne_succ (n : Int32) : n ≠ n + 1 := by
  intro h
  have hbits : n.toBitVec = n.toBitVec + 1#32 := congrArg Int32.toBitVec h
  bv_omega

section
variable {ρ κ : Type} [Keyed ρ κ] [DecidableEq κ] {t : Table ρ} {k : κ}

theorem unused_ok {constraint_name : String} (h : unused t k constraint_name = .ok ()) :
    t.find k = none := by
  unfold unused at h
  split at h
  · cases h
  · rename_i hn; simpa using hn

theorem unused_of {constraint_name : String} (h : t.find k = none) :
    unused t k constraint_name = .ok () := by rw [unused, h]; rfl

theorem references_of {r : ρ} (h : t.find k = some r) : references t k = .ok () := by
  rw [references, h]; rfl

theorem references_ok (h : references t k = .ok ()) : ∃ r, t.find k = some r := by
  unfold references at h
  split at h
  · rename_i hs; exact Option.isSome_iff_exists.mp hs
  · cases h

theorem update_ok {cond : ρ → Bool} {set : ρ → Except DbError ρ} {wr : ρ → Write}
    {ws : List Write} {o : Option ρ} (h : update t k cond set wr = .ok (ws, o)) :
    (o = none ∧ ws = [] ∧ ∀ r, t.find k = some r → cond r = false) ∨
      ∃ r r', t.find k = some r ∧ cond r = true ∧ set r = .ok r' ∧ ws = [wr r'] ∧ o = some r' := by
  unfold update at h
  split at h
  · rename_i hf
    cases h
    exact .inl ⟨rfl, rfl, fun r hr => absurd (hf.symm.trans hr) nofun⟩
  · rename_i r hf
    split at h
    · rename_i hc
      cases hs : set r with
      | error e => rw [hs] at h; cases h
      | ok r' =>
        rw [hs] at h
        cases h
        exact .inr ⟨r, r', hf, hc, hs, rfl, rfl⟩
    · rename_i hc
      cases h
      refine .inl ⟨rfl, rfl, fun r' hr' => ?_⟩
      rw [hf, Option.some.injEq] at hr'
      simpa [hr'] using hc

/-- An UPDATE by key is a lookup and a write. -/
theorem update_eq {cond : ρ → Bool} {set : ρ → Except DbError ρ} {wr : ρ → Write} :
    update t k cond set wr = (lookup t k cond).elim (.ok ([], none)) fun r =>
      (set r).map fun r' => ([wr r'], some r') := by
  rw [update, lookup]
  cases t.find k with
  | none => rfl
  | some r =>
    rw [Option.filter_some]
    by_cases hr : cond r = true
    · rw [if_pos hr]
      exact if_pos hr
    · rw [if_neg hr]
      exact if_neg hr

theorem map_ok {α β : Type} {f : α → β} {x : Except DbError α} {b : β}
    (h : f <$> x = .ok b) : ∃ a, x = .ok a ∧ f a = b := by
  cases x with
  | error e => cases h
  | ok a => cases h; exact ⟨a, rfl, rfl⟩

/-- An UPDATE without RETURNING: it counts the row or it has found none. -/
theorem rows_affected_ok {cond : ρ → Bool} {set : ρ → Except DbError ρ} {wr : ρ → Write}
    {ws : List Write} {n : ℕ} (h : rows_affected <$> update t k cond set wr = .ok (ws, n)) :
    (n = 0 ∧ ws = [] ∧ ∀ r, t.find k = some r → cond r = false) ∨
      ∃ r r', t.find k = some r ∧ cond r = true ∧ set r = .ok r' ∧ ws = [wr r'] ∧ n = 1 := by
  obtain ⟨⟨vs, o⟩, hu, heq⟩ := map_ok h
  rcases update_ok hu with ⟨rfl, rfl, hno⟩ | ⟨r, r', hf, hc, hs, rfl, rfl⟩
  · cases heq; exact .inl ⟨rfl, rfl, hno⟩
  · cases heq; exact .inr ⟨r, r', hf, hc, hs, rfl, rfl⟩

theorem update_of {cond : ρ → Bool} {set : ρ → Except DbError ρ} {wr : ρ → Write} {r r' : ρ}
    (hr : t.find k = some r) (hc : cond r = true) (hs : set r = .ok r') :
    update t k cond set wr = .ok ([wr r'], some r') := by
  rw [update, hr]
  simp only [hc, if_true, hs]
  rfl

/-- The same with a column list after RETURNING. -/
theorem returning_of {α : Type} {f : ρ → α} {cond : ρ → Bool} {set : ρ → Except DbError ρ}
    {wr : ρ → Write} {r r' : ρ} (hr : t.find k = some r) (hc : cond r = true)
    (hs : set r = .ok r') :
    (fun p : List Write × Option ρ => (p.1, p.2.map f)) <$> update t k cond set wr =
      .ok ([wr r'], some (f r')) := by
  rw [update_of hr hc hs]
  rfl

theorem rows_affected_of {cond : ρ → Bool} {set : ρ → Except DbError ρ} {wr : ρ → Write} {r r' : ρ}
    (hr : t.find k = some r) (hc : cond r = true) (hs : set r = .ok r') :
    rows_affected <$> update t k cond set wr = .ok ([wr r'], 1) := by
  rw [update_of hr hc hs]
  rfl

theorem lookup_some {cond : ρ → Bool} {r : ρ} (h : lookup t k cond = some r) :
    t.find k = some r ∧ cond r = true := Option.filter_eq_some_iff.mp h

end

theorem next_i32_ok {v v' : Int32} (h : next_i32 v = .ok v') :
    v ≠ Int32.maxValue ∧ v' = v + 1 := by
  unfold next_i32 at h
  split at h
  · cases h
  · rename_i hne; cases h; exact ⟨hne, rfl⟩

/-- A SET clause that bumps an `i32` column. -/
theorem map_next_i32_ok {β : Type} {v : Int32} {f : Int32 → β} {b : β}
    (h : (next_i32 v).map f = .ok b) : v ≠ Int32.maxValue ∧ b = f (v + 1) := by
  cases hn : next_i32 v with
  | error e => rw [hn] at h; cases h
  | ok v' =>
    obtain ⟨hne, rfl⟩ := next_i32_ok hn
    rw [hn] at h
    cases h
    exact ⟨hne, rfl⟩

/-- An UPDATE that bumps an `i32` column is refused at the limit only. -/
theorem bump_error {ρ κ : Type} [Keyed ρ κ] [DecidableEq κ] {t : Table ρ} {k : κ} {cond : ρ → Bool}
    {col : ρ → Int32} {set : ρ → Int32 → ρ} {wr : ρ → Write} {e : DbError}
    (h : rows_affected <$> update t k cond (fun r => (next_i32 (col r)).map (set r)) wr =
      .error e) :
    e = .NumericValueOutOfRange ∧
      ∃ r, t.find k = some r ∧ cond r = true ∧ col r = Int32.maxValue := by
  rw [update_eq] at h
  cases hrow : lookup t k cond with
  | none => rw [hrow] at h; cases h
  | some r =>
    obtain ⟨hr, hc⟩ := lookup_some hrow
    rw [hrow, Option.elim_some, next_i32] at h
    split at h
    · rename_i hmax
      cases h
      exact ⟨rfl, r, hr, hc, hmax⟩
    · cases h

variable {now : DateTime} {c : Choice} {db : Db} {ws : List Write}

/-! ### Invoices -/

theorem run_insert_invoice {i b cu : Uuid} {total : Int64} {due : NaiveDate} {r : Invoice}
    (h : run now c db (.insert_invoice i b cu total due) = .ok (ws, r)) :
    db.invoice i = none ∧ r = ⟨i, b, cu, .Draft, total, due, now, now, 1⟩ ∧
      ws = [.put_invoice r] := by
  simp only [run] at h
  cases hu : unused db.invoices i "invoices_pkey" with
  | error e => rw [hu] at h; cases h
  | ok u =>
    cases hc : references db.customers cu with
    | error e => rw [hu, hc] at h; cases h
    | ok u' => rw [hu, hc] at h; cases h; exact ⟨unused_ok hu, rfl, rfl⟩

theorem run_insert_line_item {i : Uuid} {d : String} {q : Int32} {u : Int64} {r : LineItem}
    (h : run now c db (.insert_line_item i d q u) = .ok (ws, r)) :
    db.line_item c.uuid = none ∧ r = ⟨c.uuid, i, d, q, u, now⟩ ∧ ws = [.put_line_item r] := by
  simp only [run] at h
  cases hu : unused db.invoice_line_items c.uuid "invoice_line_items_pkey" with
  | error e => rw [hu] at h; cases h
  | ok u =>
    cases hc : references db.invoices i with
    | error e => rw [hu, hc] at h; cases h
    | ok u' =>
      rw [hu, hc] at h
      simp only [bind, Except.bind] at h
      split at h
      · cases h
      · cases h; exact ⟨unused_ok hu, rfl, rfl⟩

theorem run_claim_draft {i : Uuid} {v : Int32} {n : ℕ}
    (h : run now c db (.claim_draft i v) = .ok (ws, n)) :
    (n = 0 ∧ ws = []) ∨ ∃ r, db.invoice i = some r ∧ r.state = .Draft ∧ r.versioning = v ∧
      r.versioning ≠ Int32.maxValue ∧
      ws = [.put_invoice { r with updated_at := now, versioning := r.versioning + 1 }] := by
  rcases rows_affected_ok h with ⟨hn, hws, -⟩ | ⟨r, r', hf, hc, hs, hws, -⟩
  · exact .inl ⟨hn, hws⟩
  · obtain ⟨hne, rfl⟩ := map_next_i32_ok hs
    obtain ⟨hv, hd⟩ := of_decide_eq_true hc
    exact .inr ⟨r, hf, hd, hv, hne, hws⟩

theorem run_claim_open {i : Uuid} {v : Int32} {n : ℕ}
    (h : run now c db (.claim_open i v) = .ok (ws, n)) :
    (n = 0 ∧ ws = []) ∨ ∃ r, db.invoice i = some r ∧ r.state = .Open ∧ r.versioning = v ∧
      r.versioning ≠ Int32.maxValue ∧ ws = [.put_invoice
        { r with state := .Processing, updated_at := now, versioning := r.versioning + 1 }] := by
  rcases rows_affected_ok h with ⟨hn, hws, -⟩ | ⟨r, r', hf, hc, hs, hws, -⟩
  · exact .inl ⟨hn, hws⟩
  · obtain ⟨hne, rfl⟩ := map_next_i32_ok hs
    obtain ⟨ho, hv⟩ := of_decide_eq_true hc
    exact .inr ⟨r, hf, ho, hv, hne, hws⟩

theorem run_select_invoice {i b : Uuid} {o : Option Invoice}
    (h : run now c db (.select_invoice i b) = .ok (ws, o)) :
    ws = [] ∧ ∀ r, o = some r → db.invoice i = some r ∧ r.business_id = b := by
  cases h
  refine ⟨rfl, fun r hr => ?_⟩
  obtain ⟨hf, hb⟩ := lookup_some hr
  exact ⟨hf, of_decide_eq_true hb⟩

theorem run_select_invoice_state {i b : Uuid} {o : Option InvoiceState}
    (h : run now c db (.select_invoice_state i b) = .ok (ws, o)) :
    ws = [] ∧ ∀ s, o = some s → ∃ r, db.invoice i = some r ∧ r.business_id = b ∧ r.state = s := by
  cases h
  refine ⟨rfl, fun s hs => ?_⟩
  obtain ⟨r, hr, hrs⟩ := Option.map_eq_some_iff.mp hs
  obtain ⟨hf, hb⟩ := lookup_some hr
  exact ⟨r, hf, of_decide_eq_true hb, hrs⟩

theorem run_select_state_at_version {i b : Uuid} {v : Int32} {o : Option InvoiceState}
    (h : run now c db (.select_state_at_version i b v) = .ok (ws, o)) :
    ws = [] ∧ ∀ s, o = some s →
      ∃ r, db.invoice i = some r ∧ r.business_id = b ∧ r.versioning = v ∧ r.state = s := by
  cases h
  refine ⟨rfl, fun s hs => ?_⟩
  obtain ⟨r, hr, hrs⟩ := Option.map_eq_some_iff.mp hs
  obtain ⟨hf, hc⟩ := lookup_some hr
  obtain ⟨hb, hv⟩ := of_decide_eq_true hc
  exact ⟨r, hf, hb, hv, hrs⟩

theorem run_update_due_date {i : Uuid} {d : NaiveDate} {n : ℕ}
    (h : run now c db (.update_due_date d i) = .ok (ws, n)) :
    ∀ r, db.invoice i = some r →
      ws = [.put_invoice { r with due_date := d, updated_at := now }] := by
  intro r hr
  rcases rows_affected_ok h with ⟨-, -, hno⟩ | ⟨r₁, r', hf, -, hs, hws, -⟩
  · exact absurd (hno r hr) nofun
  · obtain rfl := Option.some.inj (hr.symm.trans hf)
    cases hs; exact hws

theorem run_update_total {i : Uuid} {total : Int64} {n : ℕ}
    (h : run now c db (.update_total total i) = .ok (ws, n)) :
    ∀ r, db.invoice i = some r →
      ws = [.put_invoice { r with total_cents := total, updated_at := now }] := by
  intro r hr
  rcases rows_affected_ok h with ⟨-, -, hno⟩ | ⟨r₁, r', hf, -, hs, hws, -⟩
  · exact absurd (hno r hr) nofun
  · obtain rfl := Option.some.inj (hr.symm.trans hf)
    cases hs; exact hws

theorem run_update_state {target : InvoiceState} {i b : Uuid} {v : Int32} {o : Option Invoice}
    (h : run now c db (.update_state target i b v) = .ok (ws, o)) :
    ∀ r', o = some r' → ∃ r, db.invoice i = some r ∧ r.business_id = b ∧ r.versioning = v ∧
      r.versioning ≠ Int32.maxValue ∧ ws = [.put_invoice
        { r with state := target, updated_at := now, versioning := r.versioning + 1 }] := by
  rintro r' rfl
  rcases update_ok h with ⟨ho, -⟩ | ⟨r, r₁, hf, hc, hs, hws, -⟩
  · cases ho
  · obtain ⟨hne, rfl⟩ := map_next_i32_ok hs
    obtain ⟨hb, hv⟩ := of_decide_eq_true hc
    exact ⟨r, hf, hb, hv, hne, hws⟩

theorem run_settle_invoice {s : InvoiceState} {i : Uuid} {n : ℕ}
    (h : run now c db (.settle_invoice s i) = .ok (ws, n)) (hn : n ≠ 0) :
    ∃ r, db.invoice i = some r ∧ r.versioning ≠ Int32.maxValue ∧ ws = [.put_invoice
        { r with state := s, updated_at := now, versioning := r.versioning + 1 }] := by
  rcases rows_affected_ok h with ⟨h0, -⟩ | ⟨r, r', hf, -, hs, hws, -⟩
  · exact absurd h0 hn
  · obtain ⟨hne, rfl⟩ := map_next_i32_ok hs
    exact ⟨r, hf, hne, hws⟩

theorem run_leave_processing {s : InvoiceState} {i : Uuid} {n : ℕ}
    (h : run now c db (.leave_processing s i) = .ok (ws, n)) :
    (ws = [] ∧ ∀ r, db.invoice i = some r → r.state ≠ .Processing) ∨
      ∃ r, db.invoice i = some r ∧ r.state = .Processing ∧
        ws = [.put_invoice { r with state := s, updated_at := now }] := by
  rcases rows_affected_ok h with ⟨-, hws, hno⟩ | ⟨r, r', hf, hc, hs, hws, -⟩
  · exact .inl ⟨hws, fun r hr => of_decide_eq_false (hno r hr)⟩
  · cases hs; exact .inr ⟨r, hf, of_decide_eq_true hc, hws⟩

theorem run_reopen_invoice {i : Uuid} {n : ℕ}
    (h : run now c db (.reopen_invoice i) = .ok (ws, n)) :
    (ws = [] ∧ db.invoice i = none) ∨
      ∃ r, db.invoice i = some r ∧
        ws = [.put_invoice { r with state := .Open, updated_at := now }] := by
  rcases rows_affected_ok h with ⟨-, hws, hno⟩ | ⟨r, r', hf, -, hs, hws, -⟩
  · refine .inl ⟨hws, Option.eq_none_iff_forall_ne_some.mpr fun r hr => ?_⟩
    exact absurd (hno r hr) nofun
  · cases hs; exact .inr ⟨r, hf, hws⟩

/-! ### Line items -/

theorem mem_select {ρ κ : Type} [Keyed ρ κ] [DecidableEq κ] {t : Table ρ} {order : List ℕ}
    {cond : ρ → Bool} {r : ρ} : r ∈ select t order cond ↔ r ∈ t.rows ∧ cond r = true := by
  rw [select, mem_arrange, List.mem_filter]

/-- A query lists rows as they are, each once. -/
theorem select_rows {ρ κ : Type} [Keyed ρ κ] [DecidableEq κ] {t : Table ρ} {order : List ℕ}
    {cond : ρ → Bool} : ((select t order cond).map Keyed.key).Nodup ∧
      ∀ x ∈ select t order cond, t.find (Keyed.key x) = some x ∧ cond x = true := by
  refine ⟨?_, fun x hx => ?_⟩
  · have hsub := (t.rows.filter_sublist (p := cond)).map Keyed.key
    exact ((arrange_perm order _).map _).nodup_iff.mpr (hsub.nodup t.nodup)
  · obtain ⟨hmem, hc⟩ := mem_select.mp hx
    exact ⟨Table.find_of_mem hmem, hc⟩

theorem run_scan_line_items {i : Uuid} {scanned : List Uuid}
    (h : run now c db (.scan_line_items i) = .ok (ws, scanned)) :
    ws = [] ∧ ∀ x ∈ db.invoice_line_items.rows, x.invoice_id = i → x.id ∈ scanned := by
  cases h
  exact ⟨rfl, fun x hx hi =>
    List.mem_map_of_mem (mem_select.mpr ⟨hx, decide_eq_true hi⟩)⟩

theorem run_delete_line_items {i : Uuid} {scanned : List Uuid} {n : ℕ}
    (h : run now c db (.delete_line_items i scanned) = .ok (ws, n)) :
    ws = (still_there db i scanned).map .delete_line_item := by cases h; rfl

theorem mem_still_there {i l : Uuid} {scanned : List Uuid} :
    l ∈ still_there db i scanned ↔
      l ∈ scanned ∧ ∃ y, db.line_item l = some y ∧ y.invoice_id = i := by
  rw [still_there, List.mem_filter, Option.any_eq_true]
  simp only [decide_eq_true_eq]

/-! ### Attempts and idempotency keys -/

theorem run_insert_attempt {a i : Uuid} {card : String} {r : PaymentAttempt}
    (h : run now c db (.insert_attempt a i card) = .ok (ws, r)) :
    db.attempt a = none ∧ r = ⟨a, i, .Pending, card, none, none, now, now⟩ ∧
      ws = [.put_attempt ⟨r, 0, none⟩] := by
  simp only [run] at h
  cases hu : unused db.payment_attempts a "payment_attempts_pkey" with
  | error e => rw [hu] at h; cases h
  | ok u =>
    cases hc : references db.invoices i with
    | error e => rw [hu, hc] at h; cases h
    | ok u' => rw [hu, hc] at h; cases h; exact ⟨unused_ok hu, rfl, rfl⟩

theorem run_insert_key {t : KeyIndex} {status : Int32} {body : Json} {n : ℕ}
    (h : run now c db (.insert_key t status body) = .ok (ws, n)) :
    db.idempotency_key t = none ∧
      ws = [.put_key ⟨t.1, t.2.1, t.2.2, status, body, now, now⟩] := by
  simp only [run] at h
  cases hu : unused db.idempotency_keys t "idempotency_keys_key_business_id_invoice_id_idx" with
  | error e => rw [hu] at h; cases h
  | ok u =>
    cases hc : references db.invoices t.2.2 with
    | error e => rw [hu, hc] at h; cases h
    | ok u' => rw [hu, hc] at h; cases h; exact ⟨unused_ok hu, rfl⟩

theorem run_select_response {t : KeyIndex} {o : Option Json}
    (h : run now c db (.select_response t) = .ok (ws, o)) :
    ws = [] ∧ o = ((db.idempotency_key t).filter fun r => r.created_at > now - hours24).map
      (·.response_body) := by cases h; exact ⟨rfl, rfl⟩

theorem run_update_response {t : KeyIndex} {status : Int32} {body : Json} {n : ℕ}
    (h : run now c db (.update_response body status t) = .ok (ws, n)) :
    ∀ kr, db.idempotency_key t = some kr → ws = [.put_key
      { kr with response_body := body, response_status := status, updated_at := now }] := by
  intro kr hkr
  rcases rows_affected_ok h with ⟨-, -, hno⟩ | ⟨r, r', hf, -, hs, hws, -⟩
  · exact absurd (hno kr hkr) nofun
  · obtain rfl := Option.some.inj (hkr.symm.trans hf)
    cases hs; exact hws

theorem run_attempt_succeeded {psp_ref : String} {a : Uuid} {r : PaymentAttempt}
    (h : run now c db (.attempt_succeeded psp_ref a) = .ok (ws, some r)) :
    ∃ row, db.attempt a = some row ∧
      ws = [.put_attempt ((Outcome.succeeded (some psp_ref)).record now row)] ∧
      r = ((Outcome.succeeded (some psp_ref)).record now row).toPaymentAttempt := by
  obtain ⟨⟨vs, o⟩, hu, heq⟩ := map_ok h
  rcases update_ok hu with ⟨rfl, -⟩ | ⟨row, row', hf, -, hs, rfl, rfl⟩
  · cases heq
  · cases hs; cases heq; exact ⟨row, hf, rfl, rfl⟩

theorem run_attempt_failed {code : String} {a : Uuid} {r : PaymentAttempt}
    (h : run now c db (.attempt_failed code a) = .ok (ws, some r)) :
    ∃ row, db.attempt a = some row ∧
      ws = [.put_attempt ((Outcome.failed (some code)).record now row)] ∧
      r = ((Outcome.failed (some code)).record now row).toPaymentAttempt := by
  obtain ⟨⟨vs, o⟩, hu, heq⟩ := map_ok h
  rcases update_ok hu with ⟨rfl, -⟩ | ⟨row, row', hf, -, hs, rfl, rfl⟩
  · cases heq
  · cases hs; cases heq; exact ⟨row, hf, rfl, rfl⟩

/-- An UPDATE of the worker that settles an attempt, unless the row is gone. -/
theorem settled_ok {o : Outcome} {a : Uuid} {n : ℕ}
    (h : rows_affected <$> update db.payment_attempts a (fun _ => true)
      (fun r => .ok (o.record now r)) .put_attempt = .ok (ws, n)) (row : AttemptRow)
    (hrow : db.attempt a = some row) : ws = [.put_attempt (o.record now row)] := by
  rcases rows_affected_ok h with ⟨-, -, hno⟩ | ⟨r, r', hf, -, hs, hws, -⟩
  · exact absurd (hno row hrow) nofun
  · obtain rfl := Option.some.inj (hrow.symm.trans hf)
    cases hs; exact hws

theorem run_select_pending {xs : List AttemptRow}
    (h : run now c db .select_pending = .ok (ws, xs)) : (xs.map (·.id)).Nodup ∧
      ∀ x ∈ xs, db.attempt x.id = some x ∧ x.status = .Pending := by
  cases h
  refine ⟨select_rows.1, fun x hx => ?_⟩
  obtain ⟨hf, hc⟩ := select_rows.2 x hx
  exact ⟨hf, (of_decide_eq_true hc).1⟩

theorem run_select_expired {xs : List AttemptRow}
    (h : run now c db .select_expired = .ok (ws, xs)) : (xs.map (·.id)).Nodup ∧
      ∀ x ∈ xs, db.attempt x.id = some x ∧ x.status = .Pending ∧
        x.created_at ≤ now - hours24 := by
  cases h
  refine ⟨select_rows.1, fun x hx => ?_⟩
  obtain ⟨hf, hc⟩ := select_rows.2 x hx
  exact ⟨hf, of_decide_eq_true hc⟩

theorem run_schedule_retry {a : Uuid} {m : Int32} {n : ℕ}
    (h : run now c db (.schedule_retry m a) = .ok (ws, n)) :
    ws = [] ∨ ∃ row, db.attempt a = some row ∧ ∃ k at_, ws = [.put_attempt
      { row with retry_count := k, next_retry_at := at_, updated_at := now }] := by
  rcases rows_affected_ok h with ⟨-, hws, -⟩ | ⟨row, row', hf, -, hs, hws, -⟩
  · exact .inl hws
  · obtain ⟨-, rfl⟩ := map_next_i32_ok hs
    exact .inr ⟨row, hf, _, _, hws⟩

/-! ### Customers and webhooks -/

theorem run_insert_customer {id b : Uuid} {name email : String} {r : Customer}
    (h : run now c db (.insert_customer id b name email) = .ok (ws, r)) :
    db.customers.find r.id = none ∧ r.business_id = b ∧ ws = [.put_customer r] := by
  simp only [run] at h
  cases hu : unused db.customers id "customers_pkey" with
  | error e => rw [hu] at h; cases h
  | ok u =>
    rw [hu] at h
    simp only [bind, Except.bind] at h
    split at h
    · cases h
    · cases h; exact ⟨unused_ok hu, rfl, rfl⟩

theorem run_insert_endpoint {b : Uuid} {url secret : String} {r : WebhookEndpoint}
    (h : run now c db (.insert_endpoint b url secret) = .ok (ws, r)) :
    db.webhook_endpoints.find r.id = none ∧ r.business_id = b ∧ ws = [.put_endpoint r] := by
  simp only [run] at h
  cases hu : unused db.webhook_endpoints c.uuid "webhook_endpoints_pkey" with
  | error e => rw [hu] at h; cases h
  | ok u => rw [hu] at h; cases h; exact ⟨unused_ok hu, rfl, rfl⟩

theorem run_deactivate_endpoint {id b : Uuid} {n : ℕ}
    (h : run now c db (.deactivate_endpoint id b) = .ok (ws, n)) :
    (n = 0 ∧ ws = []) ∨ ∃ r, db.webhook_endpoints.find id = some r ∧ r.business_id = b ∧
      ws = [.put_endpoint { r with active := false }] := by
  rcases rows_affected_ok h with ⟨hn, hws, -⟩ | ⟨r, r', hf, hb, hs, hws, -⟩
  · exact .inl ⟨hn, hws⟩
  · cases hs; exact .inr ⟨r, hf, of_decide_eq_true hb, hws⟩

theorem run_select_active_endpoints {b : Uuid} {rows : List WebhookEndpoint}
    (h : run now c db (.select_active_endpoints b) = .ok (ws, rows)) :
    ws = [] ∧ (rows.map (·.id)).Nodup ∧ ∀ e r, db.endpoint e = some r → r.business_id = b →
      r.active = true → e ∈ rows.map (·.id) := by
  cases h
  refine ⟨rfl, select_rows.1, fun e r hr hb ha => ?_⟩
  exact List.mem_map.mpr
    ⟨r, mem_select.mpr ⟨Table.mem_of_find hr, decide_eq_true ⟨hb, ha⟩⟩, Table.find_key hr⟩

theorem run_insert_delivery {e : Uuid} {event_type : String} {payload : Json} {n : ℕ}
    (h : run now c db (.insert_delivery e event_type payload) = .ok (ws, n)) :
    ∃ row, db.delivery row.id = none ∧ (∃ r, db.endpoint row.webhook_endpoint_id = some r) ∧
      row.webhook_endpoint_id = e ∧ row.status = .pending ∧ row.attempt_count = 0 ∧
      row.event_type = event_type ∧ row.payload = payload ∧ ws = [.put_delivery row] := by
  simp only [run] at h
  cases hu : unused db.webhook_deliveries c.uuid "webhook_deliveries_pkey" with
  | error e => rw [hu] at h; cases h
  | ok u =>
    cases hc : references db.webhook_endpoints e with
    | error e => rw [hu, hc] at h; cases h
    | ok u' =>
      rw [hu, hc] at h
      cases h
      exact ⟨_, unused_ok hu, references_ok hc, rfl, rfl, rfl, rfl, rfl, rfl⟩

/-- The INSERT of a delivery for an endpoint that is there. -/
theorem run_insert_delivery_of {e : Uuid} {event_type : String} {payload : Json}
    {r : WebhookEndpoint} (he : db.endpoint e = some r) :
    run now c db (.insert_delivery e event_type payload) =
      if (db.delivery c.uuid).isSome then
        .error (.UniqueViolation "webhook_deliveries_pkey")
      else .ok ([.put_delivery
        { id := c.uuid, webhook_endpoint_id := e, event_type, payload, status := .pending,
          attempt_count := 0, next_retry_at := some now, created_at := now,
          updated_at := now }], (1 : ℕ)) := by
  simp only [run, unused, references_of he]
  split <;> rfl

theorem run_mark_delivered {d : Uuid} {n : ℕ}
    (h : run now c db (.mark_delivered d) = .ok (ws, n)) :
    (ws = [] ∧ db.delivery d = none) ∨ ∃ row, db.delivery d = some row ∧
      ws = [.put_delivery { row with
        status := .delivered, attempt_count := row.attempt_count + 1, updated_at := now }] := by
  rcases rows_affected_ok h with ⟨-, hws, hno⟩ | ⟨row, row', hf, -, hs, hws, -⟩
  · exact .inl ⟨hws, Option.eq_none_iff_forall_ne_some.mpr fun r hr => absurd (hno r hr) nofun⟩
  · obtain ⟨-, rfl⟩ := map_next_i32_ok hs
    exact .inr ⟨row, hf, hws⟩

theorem run_schedule_redelivery {d : Uuid} {n : ℕ}
    (h : run now c db (.schedule_redelivery d) = .ok (ws, n)) :
    (ws = [] ∧ db.delivery d = none) ∨ ∃ row, db.delivery d = some row ∧
      ws = [.put_delivery { row with
        status := if row.attempt_count ≥ 4 then .failed else .pending,
        attempt_count := row.attempt_count + 1,
        next_retry_at := some (now + redelivery_delay row.attempt_count), updated_at := now }] := by
  rcases rows_affected_ok h with ⟨-, hws, hno⟩ | ⟨row, row', hf, -, hs, hws, -⟩
  · exact .inl ⟨hws, Option.eq_none_iff_forall_ne_some.mpr fun r hr => absurd (hno r hr) nofun⟩
  · obtain ⟨-, rfl⟩ := map_next_i32_ok hs
    exact .inr ⟨row, hf, hws⟩

theorem run_select_due_deliveries {xs : List DueDelivery}
    (h : run now c db .select_due_deliveries = .ok (ws, xs)) :
    ws = [] ∧ (xs.map (·.id)).Nodup ∧ ∀ x ∈ xs, ∃ row, db.delivery x.id = some row ∧
      row.status = .pending ∧ ∃ t ∈ row.next_retry_at, t ≤ now := by
  cases h
  have hjoin : ∀ (wd : WebhookDelivery) (x : DueDelivery),
      (db.endpoint wd.webhook_endpoint_id).map (fun we =>
        (⟨wd.id, wd.payload, wd.attempt_count, we.url, we.secret⟩ : DueDelivery)) = some x →
      x.id = wd.id := by
    intro wd x hx
    obtain ⟨we, -, rfl⟩ := Option.map_eq_some_iff.mp hx
    rfl
  refine ⟨rfl, ?_, fun x hx => ?_⟩
  · refine ((List.take_sublist ..).map _).nodup ?_
    exact (map_filterMap_sublist hjoin _).nodup select_rows.1
  · obtain ⟨wd, hwd, hx⟩ := List.mem_filterMap.mp (List.mem_of_mem_take hx)
    obtain ⟨hf, hc⟩ := select_rows.2 wd hwd
    exact ⟨wd, hjoin wd x hx ▸ hf, of_decide_eq_true hc⟩

/-! ### Statements that find what they ask for -/

theorem run_claim_draft_of {i : Uuid} {r : Invoice} (hr : db.invoice i = some r)
    (hd : r.state = .Draft) (hmax : r.versioning ≠ Int32.maxValue) :
    run now c db (.claim_draft i r.versioning) =
      .ok ([.put_invoice { r with updated_at := now, versioning := r.versioning + 1 }],
        (1 : ℕ)) := by
  rw [run]
  exact rows_affected_of hr (by simp [hd]) (by rw [next_i32, if_neg hmax]; rfl)

theorem run_update_due_date_of {i : Uuid} {d : NaiveDate} {r : Invoice}
    (hr : db.invoice i = some r) : run now c db (.update_due_date d i) =
      .ok ([.put_invoice { r with due_date := d, updated_at := now }], (1 : ℕ)) := by
  rw [run]
  exact rows_affected_of hr rfl rfl

theorem run_update_total_of {i : Uuid} {total : Int64} {r : Invoice}
    (hr : db.invoice i = some r) : run now c db (.update_total total i) =
      .ok ([.put_invoice { r with total_cents := total, updated_at := now }], (1 : ℕ)) := by
  rw [run]
  exact rows_affected_of hr rfl rfl

theorem run_claim_open_of {t : KeyIndex} {v : Int32} {r : Invoice} (h : Payable t v db r) :
    run now c db (.claim_open t.2.2 v) =
      .ok ([.put_invoice { r with
        state := .Processing, updated_at := now, versioning := r.versioning + 1 }], (1 : ℕ)) := by
  obtain ⟨hr, hs, rfl, hmax, -⟩ := h
  rw [run]
  exact rows_affected_of hr (by simp [hs]) (by rw [next_i32, if_neg hmax]; rfl)

theorem run_schedule_retry_of {a : Uuid} {m : Int32} {row : AttemptRow}
    (hrow : db.attempt a = some row) (hmax : row.retry_count ≠ Int32.maxValue) :
    run now c db (.schedule_retry m a) = .ok ([.put_attempt { row with
      retry_count := row.retry_count + 1, next_retry_at := some (now + m.toInt * minute),
      updated_at := now }], (1 : ℕ)) := by
  rw [run]
  exact rows_affected_of hrow rfl (by rw [next_i32, if_neg hmax]; rfl)

theorem run_select_response_of {t : KeyIndex} (h : db.idempotency_key t = none) :
    run now c db (.select_response t) = .ok ([], none) := by
  rw [run, lookup, show db.idempotency_keys.find t = none from h]
  rfl

theorem run_insert_attempt_of {a i : Uuid} {card : String} {r : Invoice}
    (ha : db.attempt a = none) (hr : db.invoice i = some r) :
    ∃ row : AttemptRow, run now c db (.insert_attempt a i card) =
      .ok ([.put_attempt row], row.toPaymentAttempt) ∧ row.id = a := by
  simp only [run, unused_of ha, references_of hr]
  exact ⟨_, rfl, rfl⟩

theorem run_insert_key_of {t : KeyIndex} {status : Int32} {body : Json} {r : Invoice}
    (ht : db.idempotency_key t = none) (hr : db.invoice t.2.2 = some r) :
    ∃ kr : IdempotencyKey, run now c db (.insert_key t status body) =
      .ok ([.put_key kr], (1 : ℕ)) ∧ kr.index = t := by
  simp only [run, unused_of ht, references_of hr]
  exact ⟨_, rfl, rfl⟩

end Payman.Stmt
