import Payman.Safety.Workers

/-! Every job keeps its contract. -/

namespace Payman
open Schemes

variable {K : Setting} {T : Pid} {w : World}

-- the checks on texts need not be evaluated
attribute [local irreducible] trim starts_with

/-! ### Customers and webhook endpoints -/

theorem create_customer_keeps {b : Uuid} {req : CreateCustomerRequest} (htx : Idle T w) :
    Keeps K T (.call (.create_customer b req)) (fun _ => Idle T) (Idle T)
      (Handlers.create_customer b req) w := by
  unfold Handlers.create_customer Payman.create_customer
  refine .seq (.reject_if htx fun _ => .seq (.reject_if htx fun _ => .seq ?_))
  refine .new_v4 fun id w₁ _ htx₁ => .adapt (.sql_outside (htx₁.trans htx) (fun _ _ h => h)
    fun c ws r w₂ _ hrun => ?_)
  obtain ⟨hfresh, hb, rfl⟩ := Stmt.run_insert_customer hrun
  exact ⟨nofun, fun _ => ⟨.customer hfresh hb, fun _ hs => hs.tx⟩⟩

theorem create_endpoint_keeps {b : Uuid} {req : CreateWebhookEndpointRequest} (htx : Idle T w) :
    Keeps K T (.call (.create_endpoint b req)) (fun _ => Idle T) (Idle T)
      (Handlers.create_endpoint b req) w := by
  unfold Handlers.create_endpoint Payman.create_endpoint
  refine .seq (.reject_if htx fun _ => .seq (.reject_if htx fun _ => .seq ?_))
  refine .new_v4 fun id w₁ _ htx₁ => .sql_outside (htx₁.trans htx) (fun _ _ h => h)
    fun c ws r w₂ _ hrun => ?_
  obtain ⟨hfresh, hb, rfl⟩ := Stmt.run_insert_endpoint hrun
  exact ⟨nofun, fun _ => ⟨.endpoint hfresh hb, fun _ hs => hs.tx⟩⟩

/-- Endpoint `e` has been deleted. -/
def Db.Deleted (db : Db) (e : Uuid) : Prop := ∃ r, db.endpoint e = some r ∧ r.active = false

theorem Grows.deleted {db db' : Db} {e : Uuid} (h : Grows db db') (hd : db.Deleted e) :
    db'.Deleted e :=
  let ⟨r, hr, ha⟩ := hd
  let ⟨r', hr', _, ha'⟩ := h.endpoint e r hr
  ⟨r', hr', ha' ha⟩

theorem delete_endpoint_keeps {id b : Uuid} (htx : Idle T w) :
    Keeps K T (.call (.delete_endpoint id b)) (fun _ w' => Idle T w' ∧ w'.db.Deleted id) (Idle T)
      (delete_endpoint id b) w := by
  have hupdate : Keeps K T (.call (.delete_endpoint id b))
      (fun (n : ℕ) w' => Idle T w' ∧ (n ≠ 0 → w'.db.Deleted id)) (Idle T)
      (sql (.deactivate_endpoint id b)) w := by
    refine .sql_outside htx (fun _ _ h => h) fun c ws n w₁ _ hrun => ?_
    rcases Stmt.run_deactivate_endpoint hrun with ⟨rfl, rfl⟩ | ⟨r, hr, hb, rfl⟩
    · exact ⟨fun _ h => ⟨h, fun hne => absurd rfl hne⟩, fun hne => absurd rfl hne⟩
    · refine ⟨nofun, fun _ => ⟨.deactivate hr hb, fun w₂ hs => ⟨hs.tx, fun _ => ?_⟩⟩⟩
      rw [hs.db]
      exact ⟨_, (Table.find_put ..).trans (if_pos (Db.id_of_endpoint hr)), rfl⟩
  exact .bind hupdate fun n w₂ h₂ => .reject_if h₂.1 fun hn => ⟨h₂.1, h₂.2 hn⟩

theorem get_customer_keeps {id b : Uuid} {j : Job} (htx : Idle T w) :
    Keeps K T j (fun _ => Idle T) (Idle T) (get_customer id b) w :=
  .seq (.sql_read htx (fun _ _ h => h) (fun _ _ _ _ _ h => by cases h; rfl)
    fun _ _ _ _ htx₁ _ => .ok_or htx₁ fun _ _ => htx₁)

theorem list_customers_keeps {b : Uuid} {j : Job} (htx : Idle T w) :
    Keeps K T j (fun _ => Idle T) (Idle T) (list_customers b) w :=
  .sql_read htx (fun _ _ h => h) (fun _ _ _ _ _ h => by cases h; rfl) fun _ _ _ _ htx₁ _ => htx₁

theorem get_endpoint_keeps {id b : Uuid} {j : Job} (htx : Idle T w) :
    Keeps K T j (fun _ => Idle T) (Idle T) (get_endpoint id b) w :=
  .seq (.sql_read htx (fun _ _ h => h) (fun _ _ _ _ _ h => by cases h; rfl)
    fun _ _ _ _ htx₁ _ => .ok_or htx₁ fun _ _ => htx₁)

theorem list_endpoints_keeps {b : Uuid} {j : Job} (htx : Idle T w) :
    Keeps K T j (fun _ => Idle T) (Idle T) (list_endpoints b) w :=
  .sql_read htx (fun _ _ h => h) (fun _ _ _ _ _ h => by cases h; rfl) fun _ _ _ _ htx₁ _ => htx₁

/-! ### All jobs -/

/-- When a job may start. -/
structure Starts (K : Setting) (T : Pid) (j : Job) (w : World) : Prop where
  idle : Idle T w
  start : K.alone → K.start w.db
  fresh : ∀ q, j = .call q → Fresh T w

/-- What a job's answer promises: a payment that has created its attempt has stored what it answers,
    and a deletion has taken effect. -/
def Promise (T : Pid) : Job → Response → World → Prop
  | .call (.pay_invoice i b (some k) _), .attempt a, w => Answered T (k, b, i) a w
  | .call (.delete_endpoint e _), _, w => w.db.Deleted e
  | _, _, _ => True

theorem Promise.later {j : Job} {r : Response} {e : Option Eff} {w' : World}
    (h : Promise T j r w) (hl : Later K T j e w w') : Promise T j r w' := by
  unfold Promise at h ⊢
  split at h
  · exact h.later hl
  · exact hl.grows.deleted h
  · trivial

/-- What holds once a job has returned: it has no transaction, and its answer is true. -/
def Returned (T : Pid) (j : Job) : Except AppError Response → World → Prop :=
  Safe.Either (fun r w => Idle T w ∧ Promise T j r w) (Idle T)

/-- A job whose answer carries no promise. -/
theorem safe_of_idle {α : Type} {j : Job} {x : App α} {f : α → Response}
    (hj : ∀ r w, Promise T j r w) (h : Keeps K T j (fun _ => Idle T) (Idle T) x w) :
    Safe (contract K T j) (Returned T j) (f <$> x).run w :=
  Keeps.map (.imp h (fun _ _ h => ⟨h, hj _ _⟩) fun _ h => h)

/-- CORRECT: every job, under any interference that its contract admits, makes no step beyond its
    contract. -/
theorem job_safe {j : Job} (h : Starts K T j w) :
    Safe (contract K T j) (Returned T j) j.program.run w := by
  obtain ⟨htx, hstart, hfresh⟩ := h
  unfold Job.program
  cases j with
  | dispatch t => exact safe_of_idle (fun _ _ => trivial) (dispatch_keeps htx)
  | tick => exact safe_of_idle (fun _ _ => trivial) (tick_keeps htx)
  | deliveries => exact safe_of_idle (fun _ _ => trivial) (process_pending_deliveries_keeps htx)
  | call q =>
    simp only
    unfold Request.program
    cases q with
    | create_invoice b req => exact safe_of_idle (fun _ _ => trivial) (create_invoice_keeps htx)
    | get_invoice i b => exact safe_of_idle (fun _ _ => trivial) (get_invoice_keeps htx)
    | edit_invoice i b req => exact safe_of_idle (fun _ _ => trivial) (edit_invoice_keeps htx hstart)
    | list_invoices b query => exact safe_of_idle (fun _ _ => trivial) (list_invoices_keeps htx)
    | finalize_invoice i b req => exact safe_of_idle (fun _ _ => trivial) (finalize_invoice_keeps htx)
    | void_invoice i b req => exact safe_of_idle (fun _ _ => trivial) (void_invoice_keeps htx)
    | create_customer b req => exact safe_of_idle (fun _ _ => trivial) (create_customer_keeps htx)
    | get_customer id b => exact safe_of_idle (fun _ _ => trivial) (get_customer_keeps htx)
    | list_customers b => exact safe_of_idle (fun _ _ => trivial) (list_customers_keeps htx)
    | create_endpoint b req => exact safe_of_idle (fun _ _ => trivial) (create_endpoint_keeps htx)
    | get_endpoint id b => exact safe_of_idle (fun _ _ => trivial) (get_endpoint_keeps htx)
    | list_endpoints b => exact safe_of_idle (fun _ _ => trivial) (list_endpoints_keeps htx)
    | delete_endpoint id b => exact Keeps.map (delete_endpoint_keeps htx)
    | pay_invoice i b k req =>
      cases k with
      | none => exact htx
      | some k =>
        exact Keeps.map (pay_invoice_keeps htx (hfresh _ rfl) hstart)

end Payman
