import Payman.Claims.ApiKeys
import Payman.Safety.Checks

/-! The foreign keys of the schema hold in every state.

    Signing up and billing do not share a transaction, so a row of billing names its business because
    whoever had it written was authenticated as that business before. The customer of a new invoice
    is looked up before the transaction that inserts the invoice; nobody deletes it in between. -/

namespace Payman
open Schemes

/-! ### Billing -/

/-- Some call was made as the business `b`. -/
def Sys.Called (σ : Sys) (b : Uuid) : Prop := ∃ p q, σ.job p = some (.call q) ∧ q.business = b

variable {σ σ' : Sys}

/-- A call was there before, or it has just arrived. -/
theorem Sys.job_before {l : Sys.Label} {p : Pid} {q : Request} (hstep : σ.step l = some σ')
    (hp : σ'.job p = some (.call q)) :
    σ.job p = some (.call q) ∨ ∃ n, p = .call n ∧ l = .arrive n q := by
  cases l with
  | arrive n q' =>
    simp only [step] at hstep
    split at hstep <;> cases hstep
    by_cases hpp : p = .call n
    · subst hpp
      rw [start, job_of_procs set_procs_self] at hp
      cases hp
      exact .inr ⟨n, rfl, rfl⟩
    · rw [start, job, set_procs_ne hpp] at hp
      exact .inl hp
  | _ =>
    left
    cases Sys.moves hstep with
    | start p' j _ _ _ hj =>
      by_cases hpp : p = p'
      · subst hpp
        rw [start, job_of_procs set_procs_self] at hp
        obtain ⟨n, hl⟩ := hj q (Option.some.inj hp)
        cases hl
      · rw [start, job, set_procs_ne hpp] at hp
        exact hp
    | exec p' c _ j e k w r hp' => exact (Sys.set_job (Sys.job_of_procs hp')).symm.trans hp
    | kill p' _ j e k hp' => exact (Sys.set_job (Sys.job_of_procs hp')).symm.trans hp

theorem Sys.Called.before {l : Sys.Label} {b : Uuid} (h : σ'.Called b)
    (hstep : σ.step l = some σ') : σ.Called b ∨ ∃ n q, l = .arrive n q ∧ q.business = b := by
  obtain ⟨p, q, hp, hb⟩ := h
  rcases Sys.job_before hstep hp with hp | ⟨n, -, rfl⟩
  · exact .inl ⟨p, q, hp, hb⟩
  · exact .inr ⟨n, q, rfl, hb⟩

/-- CORRECT (run): every row refers to rows that are there, and to a business that made a call. -/
theorem Sys.Reachable.linked (h : σ.Reachable) : σ.db.Linked σ.Called := by
  induction h with
  | refl =>
    exact ⟨nofun, nofun, nofun, nofun, nofun, nofun, nofun⟩
  | @tail τ τ' hτ hs ih =>
    obtain ⟨l, -, hstep⟩ := hs
    have hinv := Sys.Reachable.inv hτ
    have hcalled : ∀ b, τ.Called b → τ'.Called b := fun b ⟨p, q, hp, hb⟩ =>
      ⟨p, q, hinv.job_stays hstep hp, hb⟩
    cases Sys.moves hstep with
    | start p j => exact ih.imp hcalled
    | kill p => exact ih.imp hcalled
    | exec p c hl j e k w r hp hx =>
      refine Db.Linked.imp (?_ : w.db.Linked τ.Called) hcalled
      cases (hinv.exec_keeps .any hp hx).1.1 with
      | quiet hdb _ _ => exact hdb ▸ ih
      | send _ _ hdb _ _ _ => exact hdb ▸ ih
      | commit ws hdb hh _ he =>
        rw [hdb]
        have hwatched := Sys.Reachable.watched hτ fun _ _ => Checking.upholds
        refine (he.refer ih (fun q hq => ?_) (Checking.commits_checked hwatched hp hx hh).1).linked ih
        subst hq
        exact ⟨p, q, Sys.job_of_procs hp, rfl⟩

namespace Registry
variable {sha256 : String → List UInt8} {s s' : Server}

/-! ### The server -/

/-- A step of the server is one of billing or leaves billing alone; a call that arrives there is
    made by somebody who has been authenticated as its business. -/
theorem Server.billing_of_step {l : Label} (h : s.step sha256 l = some s') :
    s'.billing = s.billing ∨ ∃ lb, s.billing.step lb = some s'.billing ∧
      ∀ n q, lb = .arrive n q → l = .handle n q ∧ ∃ biz,
        s.outcome n = some (.ok (.authenticated biz)) ∧ biz.id = q.business := by
  cases Server.moves h with
  | arrive => exact .inl rfl
  | exec => exact .inl rfl
  | kill => exact .inl rfl
  | billing hstep hcall => exact .inr ⟨_, hstep, hcall⟩

/-- A call of billing has been handed over by the request of its number. -/
theorem Server.job_before {l : Label} {n : ℕ} {q : Request} (h : s.step sha256 l = some s')
    (hq : s'.billing.job (.call n) = some (.call q)) :
    s.billing.job (.call n) = some (.call q) ∨ l = .handle n q ∧ ∃ biz,
      s.outcome n = some (.ok (.authenticated biz)) ∧ biz.id = q.business := by
  rcases Server.billing_of_step h with heq | ⟨lb, hlb, harrive⟩
  · exact .inl (heq ▸ hq)
  · rcases Sys.job_before hlb hq with hq | ⟨m, hm, rfl⟩
    · exact .inl hq
    · cases hm
      exact .inr (harrive n q rfl)

/-- Billing runs as it would on its own. -/
theorem Server.Reachable.billing (h : s.Reachable sha256) : s.billing.Reachable := by
  induction h with
  | refl => exact .refl
  | tail _ hs ih =>
    obtain ⟨l, hstep⟩ := hs
    rcases Server.billing_of_step hstep with heq | ⟨lb, hlb, -⟩
    · exact heq ▸ ih
    · exact ih.tail ⟨lb, trivial, hlb⟩

/-- Whoever calls has been authenticated. -/
theorem Server.Reachable.callers (h : s.Reachable sha256) {b : Uuid} (hb : s.billing.Called b) :
    ∃ m biz, s.outcome m = some (.ok (.authenticated biz)) ∧ biz.id = b := by
  induction h with
  | refl =>
    obtain ⟨p, q, hp, -⟩ := hb
    cases hp
  | @tail s s' hs hl ih =>
    obtain ⟨l, hstep⟩ := hl
    have hold : s.billing.Called b → ∃ m biz,
        s'.outcome m = some (.ok (.authenticated biz)) ∧ biz.id = b := fun hb => by
      obtain ⟨m, biz, hm, hid⟩ := ih hb
      exact ⟨m, biz, Server.outcome_stays hstep hm, hid⟩
    rcases Server.billing_of_step hstep with heq | ⟨lb, hlb, harrive⟩
    · exact hold (heq ▸ hb)
    · rcases hb.before hlb with hb | ⟨n, q, rfl, rfl⟩
      · exact hold hb
      · obtain ⟨-, biz, hn, hid⟩ := harrive n q rfl
        exact ⟨n, biz, Server.outcome_stays hstep hn, hid⟩

/-- The business `b` is registered. -/
def Server.Registers (s : Server) (b : Uuid) : Prop :=
  ∃ biz, s.registry.db.businesses.find b = some biz

theorem Server.entry_of_outcome {n : ℕ} {r : Except AppError Outcome} (h : s.outcome n = some r) :
    ∃ entry, s.procs n = some ⟨entry, some (.ret r)⟩ := by
  unfold outcome at h
  split at h
  · rename_i entry r' hp
    cases h
    exact ⟨entry, hp⟩
  · cases h

/-- The business that a sign-up has returned is registered. -/
theorem Server.Inv.created (h : s.Inv sha256) {n : ℕ} {k b : Uuid}
    (hn : s.outcome n = some (.ok (.created (result k b)))) : s.Registers b := by
  obtain ⟨entry, hp⟩ := Server.entry_of_outcome hn
  cases entry with
  | create_business req =>
    have he : s.entry n = some (.create_business req) := by rw [Server.entry, hp, Option.map_some]
    obtain ⟨_, -, hreg⟩ := h.registered he hn
    obtain ⟨biz, hbiz, -⟩ := hreg.business
    exact ⟨biz, hbiz⟩
  | authenticate header =>
    obtain ⟨-, hasks⟩ := h.asks n header _ hp
    cases hasks

/-- Whoever has been authenticated has sent a key with the digest of one that a sign-up has returned
    for the business. -/
theorem Server.Inv.shown (h : s.Inv sha256) {n : ℕ} {biz : Business}
    (hn : s.outcome n = some (.ok (.authenticated biz))) : ∃ header key m k,
    s.entry n = some (.authenticate header) ∧ extract_api_key header = .ok key ∧
      s.outcome m = some (.ok (.created (result k biz.id))) ∧
      hash_api_key sha256 key = stored_hash sha256 k := by
  obtain ⟨entry, hp⟩ := Server.entry_of_outcome hn
  cases entry with
  | create_business req =>
    obtain ⟨x, hfollows, -⟩ := h.signs n req _ hp
    exact hfollows.elim
  | authenticate header =>
    obtain ⟨-, hasks⟩ := h.asks n header _ hp
    cases hasks with
    | @accepted key _ hkey hrow =>
      obtain ⟨row, hrow, hb⟩ := hrow
      obtain ⟨m, k, hm, hdigest⟩ := h.issued _ row hrow
      exact ⟨header, key, m, k, by rw [Server.entry, hp, Option.map_some], hkey, hb ▸ hm, hdigest⟩

/-- CORRECT (foreign keys): in every state of the server every reference of the schema is to a row
    that is there, businesses included, and an invoice's customer is one of its own business. -/
theorem foreign_keys_hold (h : s.Reachable sha256) :
    s.billing.db.Linked s.Registers ∧
      ∀ hash row, s.registry.db.api_keys.find hash = some row → s.Registers row.business_id := by
  refine ⟨h.billing.linked.imp fun b hb => ?_, fun hash row hrow => ?_⟩
  · obtain ⟨m, biz, hm, rfl⟩ := h.callers hb
    obtain ⟨_, _, n, k, -, -, hn, -⟩ := h.inv.shown hm
    exact h.inv.created hn
  · obtain ⟨n, k, hn, -⟩ := h.inv.issued hash row hrow
    exact h.inv.created hn

/-- Acme's first customer. -/
def first_customer : List Server.Label :=
  signed_up ++ [drawing 1 0, .handle 1 (.create_customer 7 ⟨"Wile E.", "wile@acme.example"⟩)] ++
    [.billing (.exec (.call 1) { Sys.calm with uuid := 9 }), .billing (.exec (.call 1) Sys.calm)]

/-- The customer's business is there. -/
theorem foreign_keys_hold_customer : ∃ s ∈ Server.initial.steps acme_digest first_customer,
    ∃ r, s.billing.db.customers.find 9 = some r ∧ s.Registers r.business_id := by
  obtain ⟨s, hs, hsome⟩ : ∃ s ∈ Server.initial.steps acme_digest first_customer,
      (s.billing.db.customers.find 9).isSome := by decide +kernel
  obtain ⟨r, hr⟩ := Option.isSome_iff_exists.mp hsome
  exact ⟨s, hs, r, hr, (foreign_keys_hold (Server.reachable_of_steps .refl hs)).1.customer 9 r hr⟩

end Registry

end Payman
