import Payman.Safety.Contract

/-! What an effect leaves alone.

    No job changes the owner of an invoice or the identity of an attempt, writes items of an invoice
    without writing its row too, or writes the record of an idempotency key that another process has
    taken. These are the facts that make every job's steps acceptable to all the others. -/

namespace Payman
open Schemes

variable {K : Setting} {T : Pid} {past : List Commit} {db db' : Db} {j : Job} {ws : List Write}

/-- What an edit leaves behind: the invoice's row and its items. -/
theorem applyAll_edit {pre : List Write} {r r' rt : Invoice} {gone : List Uuid}
    {lines : List LineItem} (hpre : (pre = [] ∧ r' = r) ∨ pre = [.put_invoice r']) :
    applyAll db (pre ++ gone.map .delete_line_item ++ lines.map .put_line_item ++
      [.put_invoice rt]) =
    { applyAll db pre with
      invoice_line_items := lines.foldl Table.put (gone.foldl Table.erase db.invoice_line_items)
      invoices := (applyAll db pre).invoices.put rt } := by
  rw [applyAll_append, applyAll_append, applyAll_append, Db.applyAll_put_line_items,
    Db.applyAll_delete_line_items]
  rcases hpre with ⟨rfl, -⟩ | rfl <;> rfl

/-! ### Nothing is lost -/

theorem Grows.of_eq (hi : db'.invoices = db.invoices)
    (ha : db'.payment_attempts = db.payment_attempts)
    (hk : db'.idempotency_keys = db.idempotency_keys)
    (he : db'.webhook_endpoints = db.webhook_endpoints)
    (hd : db'.webhook_deliveries = db.webhook_deliveries) : Grows db db' where
  invoice := fun i r h => ⟨r, by rw [Db.invoice, hi]; exact h, rfl⟩
  attempt := fun a row h => ⟨row, by rw [Db.attempt, ha]; exact h, rfl, rfl, rfl⟩
  key := fun t kr h => ⟨kr, by rw [Db.idempotency_key, hk]; exact h⟩
  endpoint := fun e r h => ⟨r, by rw [Db.endpoint, he]; exact h, rfl, id⟩
  delivery := fun d row h => ⟨row, by rw [Db.delivery, hd]; exact h, rfl⟩

theorem Grows.with_items (h : Grows db db') (items : Table LineItem) :
    Grows db { db' with invoice_line_items := items } := h.trans (.of_eq rfl rfl rfl rfl rfl)

theorem Grows.put_invoice {r : Invoice}
    (h : ∀ r₀, db.invoice r.id = some r₀ → r.business_id = r₀.business_id) :
    Grows db { db with invoices := db.invoices.put r } where
  invoice := fun i r₀ hr₀ => by
    by_cases hi : r.id = i
    · exact ⟨r, (Table.find_put ..).trans (if_pos hi), h r₀ (hi ▸ hr₀)⟩
    · exact ⟨r₀, (Table.find_put_ne _ hi).trans hr₀, rfl⟩
  attempt := fun a row hrow => ⟨row, hrow, rfl, rfl, rfl⟩
  key := fun t kr hkr => ⟨kr, hkr⟩
  endpoint := fun e r hr => ⟨r, hr, rfl, id⟩
  delivery := fun d row hrow => ⟨row, hrow, rfl⟩

theorem Grows.put_attempt {row : AttemptRow}
    (h : ∀ row₀, db.attempt row.id = some row₀ → row.invoice_id = row₀.invoice_id ∧
      row.card_token = row₀.card_token ∧ row.created_at = row₀.created_at) :
    Grows db { db with payment_attempts := db.payment_attempts.put row } where
  invoice := fun i r hr => ⟨r, hr, rfl⟩
  attempt := fun a row₀ hrow₀ => by
    by_cases ha : row.id = a
    · exact ⟨row, (Table.find_put ..).trans (if_pos ha), h row₀ (ha ▸ hrow₀)⟩
    · exact ⟨row₀, (Table.find_put_ne _ ha).trans hrow₀, rfl, rfl, rfl⟩
  key := fun t kr hkr => ⟨kr, hkr⟩
  endpoint := fun e r hr => ⟨r, hr, rfl, id⟩
  delivery := fun d row hrow => ⟨row, hrow, rfl⟩

theorem Grows.put_key {kr : IdempotencyKey} :
    Grows db { db with idempotency_keys := db.idempotency_keys.put kr } where
  invoice := fun i r hr => ⟨r, hr, rfl⟩
  attempt := fun a row hrow => ⟨row, hrow, rfl, rfl, rfl⟩
  key := fun t kr₀ hkr₀ => by
    by_cases ht : kr.index = t
    · exact ⟨kr, (Table.find_put ..).trans (if_pos ht)⟩
    · exact ⟨kr₀, (Table.find_put_ne _ ht).trans hkr₀⟩
  endpoint := fun e r hr => ⟨r, hr, rfl, id⟩
  delivery := fun d row hrow => ⟨row, hrow, rfl⟩

theorem Grows.put_endpoint {r : WebhookEndpoint}
    (h : ∀ r₀, db.endpoint r.id = some r₀ → r.business_id = r₀.business_id ∧
      (r₀.active = false → r.active = false)) :
    Grows db { db with webhook_endpoints := db.webhook_endpoints.put r } where
  invoice := fun i r hr => ⟨r, hr, rfl⟩
  attempt := fun a row hrow => ⟨row, hrow, rfl, rfl, rfl⟩
  key := fun t kr hkr => ⟨kr, hkr⟩
  endpoint := fun e r₀ hr₀ => by
    by_cases he : r.id = e
    · exact ⟨r, (Table.find_put ..).trans (if_pos he), h r₀ (he ▸ hr₀)⟩
    · exact ⟨r₀, (Table.find_put_ne _ he).trans hr₀, rfl, id⟩
  delivery := fun d row hrow => ⟨row, hrow, rfl⟩

theorem Grows.put_delivery {row : WebhookDelivery}
    (h : ∀ row₀, db.delivery row.id = some row₀ →
      row.webhook_endpoint_id = row₀.webhook_endpoint_id) :
    Grows db { db with webhook_deliveries := db.webhook_deliveries.put row } where
  invoice := fun i r hr => ⟨r, hr, rfl⟩
  attempt := fun a row hrow => ⟨row, hrow, rfl, rfl, rfl⟩
  key := fun t kr hkr => ⟨kr, hkr⟩
  endpoint := fun e r hr => ⟨r, hr, rfl, id⟩
  delivery := fun d row₀ hrow₀ => by
    by_cases hd : row.id = d
    · exact ⟨row, (Table.find_put ..).trans (if_pos hd), h row₀ (hd ▸ hrow₀)⟩
    · exact ⟨row₀, (Table.find_put_ne _ hd).trans hrow₀, rfl⟩

/-- Writing a row that is there with its owner. -/
theorem Grows.put_invoice_of {i : Uuid} {r r' : Invoice} (hr : db.invoice i = some r)
    (hid : r'.id = r.id) (hb : r'.business_id = r.business_id) :
    Grows db { db with invoices := db.invoices.put r' } :=
  .put_invoice fun r₀ hr₀ => by
    rw [hid, Db.id_of_invoice hr, hr, Option.some.injEq] at hr₀
    exact hr₀ ▸ hb

theorem Grows.put_attempt_of {a : Uuid} {row row' : AttemptRow} (hrow : db.attempt a = some row)
    (hid : row'.id = row.id) (hi : row'.invoice_id = row.invoice_id)
    (hc : row'.card_token = row.card_token) (ht : row'.created_at = row.created_at) :
    Grows db { db with payment_attempts := db.payment_attempts.put row' } :=
  .put_attempt fun row₀ hrow₀ => by
    rw [hid, Db.id_of_attempt hrow, hrow, Option.some.injEq] at hrow₀
    exact hrow₀ ▸ ⟨hi, hc, ht⟩

theorem Grows.cons {w : Write} (h : Grows db (RowWrite.apply db w))
    (h' : Grows (RowWrite.apply db w) (applyAll (RowWrite.apply db w) ws)) :
    Grows db (applyAll db (w :: ws)) := h.trans h'

theorem Effect.grows (h : Effect K T past db j ws) : Grows db (applyAll db ws) := by
  cases h with
  | edit_nothing => exact .refl db
  | create hfresh _ =>
    refine .cons (.put_invoice fun r₀ hr₀ => ?_) ?_
    · cases hfresh.symm.trans hr₀
    · rw [Db.applyAll_put_line_items]; exact .of_eq rfl rfl rfl rfl rfl
  | claim_draft hr => exact .put_invoice_of hr rfl rfl
  | edit_due_date hr => exact .put_invoice_of hr rfl rfl
  | @edit_items b i req r r' pre items gone lines t hr _ _ hpre =>
    have hpre' : Grows db (applyAll db pre) ∧ (applyAll db pre).invoice i = some r' := by
      rcases hpre with ⟨rfl, rfl⟩ | ⟨rfl, d, hr'⟩
      · exact ⟨.refl db, hr⟩
      · subst hr'
        exact ⟨.put_invoice_of hr rfl rfl, (Table.find_put ..).trans (if_pos (Db.id_of_invoice hr))⟩
    rw [applyAll_append, applyAll_append, applyAll_append, Db.applyAll_put_line_items,
      Db.applyAll_delete_line_items]
    obtain ⟨hgrows, hr₁⟩ := hpre'
    exact (hgrows.with_items _).trans (.put_invoice_of hr₁ rfl rfl)
  | finalize hr => exact .put_invoice_of hr rfl rfl
  | void hr => exact .put_invoice_of hr rfl rfl
  | pay_start hr hrow hfresh =>
    subst hrow
    refine .cons (.put_invoice_of hr.1 rfl rfl) (.cons (.put_attempt fun row₀ h => ?_)
      (.cons .put_key (.refl _)))
    cases hfresh.symm.trans h
  | pay_record _ hrow hr =>
    exact .cons (.put_attempt_of hrow (by simp) (by simp) (by simp) (by simp))
      (.cons (.put_invoice_of hr rfl rfl) (.cons .put_key (.refl _)))
  | pay_leave => exact .put_key
  | retry hrow => exact .put_attempt_of hrow rfl rfl rfl rfl
  | settle hrow hr =>
    exact .cons (.put_attempt_of hrow (by simp) (by simp) (by simp) (by simp))
      (.cons (.put_invoice_of hr rfl rfl) (.refl _))
  | settle_only hrow => exact .put_attempt_of hrow (by simp) (by simp) (by simp) (by simp)
  | customer => exact .of_eq rfl rfl rfl rfl rfl
  | endpoint hfresh =>
    refine .put_endpoint fun r₀ hr₀ => ?_
    cases hfresh.symm.trans hr₀
  | deactivate hr =>
    refine .put_endpoint fun r₀ hr₀ => ⟨?_, fun _ => rfl⟩
    rw [show db.endpoint _ = some _ from Db.id_of_endpoint hr ▸ hr, Option.some.injEq] at hr₀
    exact hr₀ ▸ rfl
  | delivery hfresh =>
    refine .put_delivery fun row₀ hrow₀ => ?_
    cases hfresh.symm.trans hrow₀
  | report hrow =>
    refine .put_delivery fun row₀ hrow₀ => ?_
    rw [show db.delivery _ = some _ from Db.id_of_delivery hrow ▸ hrow, Option.some.injEq] at hrow₀
    exact hrow₀ ▸ rfl

/-! ### Items are written under the invoice's lock -/

/-- Writes without line items. -/
theorem items_of_eq {i : Uuid} (h : db'.invoice_line_items = db.invoice_line_items) :
    db'.items i = db.items i := by rw [Db.items, h]; rfl

theorem Inserted.invoice_id {gone : List Uuid} {i : Uuid} {reqs : List CreateLineItemRequest}
    {lines : List LineItem} (h : Inserted db gone i reqs lines) :
    ∀ x ∈ lines, x.invoice_id = i := by
  have hrows := h.rows
  clear h
  induction hrows with
  | nil => exact nofun
  | cons hx _ ih => exact List.forall_mem_cons.mpr ⟨hx.1, ih⟩

/-- Replaced items, as rows: the others stay and the new ones follow. -/
theorem Inserted.rows_eq {gone : List Uuid} {i : Uuid} {reqs : List CreateLineItemRequest}
    {lines : List LineItem} (h : Inserted db gone i reqs lines) :
    (lines.foldl Table.put (gone.foldl Table.erase db.invoice_line_items)).rows =
      (db.invoice_line_items.rows.filter fun x => decide (x.id ∉ gone)) ++ lines := by
  rw [Table.rows_foldl_put _ _ h.nodup fun x hx => ?_, Table.rows_foldl_erase]
  · rfl
  · rw [Table.find_foldl_erase]
    split
    · rfl
    · rename_i hx'
      exact Option.eq_none_iff_forall_ne_some.mpr fun y hy => hx' (h.fresh x hx y hy)

/-- The items of the other invoices stay as they are. -/
theorem Inserted.items_of_ne {gone : List Uuid} {i k : Uuid} {reqs : List CreateLineItemRequest}
    {lines : List LineItem} (h : Inserted db gone i reqs lines)
    (hgone : ∀ l ∈ gone, ∃ y, db.line_item l = some y ∧ y.invoice_id = i) (hk : k ≠ i)
    (hdb' : db'.invoice_line_items = lines.foldl Table.put (gone.foldl Table.erase
      db.invoice_line_items)) : db'.items k = db.items k := by
  have hnil : (lines.filter fun x => decide (x.invoice_id = k)) = [] :=
    List.filter_eq_nil_iff.mpr fun x hx => by simp [h.invoice_id x hx, hk.symm]
  rw [Db.items, hdb', h.rows_eq, List.filter_append, List.filter_filter, Db.items, hnil,
    List.append_nil]
  refine List.filter_congr fun x hx => ?_
  by_cases hxk : x.invoice_id = k
  · have hnot : x.id ∉ gone := fun hl => by
      obtain ⟨y, hy, hyi⟩ := hgone _ hl
      have hxy : x = y := Option.some.inj ((Table.find_of_mem hx).symm.trans hy)
      exact hk (by rw [← hxk, hxy, hyi])
    simp [hxk, hnot]
  · simp [hxk]

theorem Effect.items_of_unlocked (h : Effect K T past db j ws) {k : Uuid}
    (hk : LockKey.invoice k ∉ lockSet ws) : (applyAll db ws).items k = db.items k := by
  cases h with
  | @create b i req lines t hfresh hlines =>
    have hki : k ≠ i := fun hki => hk (by simp [hki])
    refine hlines.items_of_ne nofun hki ?_
    rw [applyAll_cons, Db.applyAll_put_line_items]; rfl
  | @edit_items b i req r r' pre items gone lines t hr _ _ hpre hitems hgone _ hlines =>
    have hki : k ≠ i := fun hki => hk (by
      have hr' : r'.id = i := by
        rcases hpre with ⟨-, rfl⟩ | ⟨-, d, rfl⟩
        · exact Db.id_of_invoice hr
        · exact (Db.id_of_invoice hr : r.id = i)
      simp [hki, hr'])
    refine hlines.items_of_ne hgone hki ?_
    rw [applyAll_append, applyAll_append, applyAll_append, Db.applyAll_put_line_items,
      Db.applyAll_delete_line_items]
    rcases hpre with ⟨rfl, -⟩ | ⟨rfl, -⟩ <;> rfl
  | _ => exact items_of_eq rfl

/-! ### Records belong to the process that created them -/

/-- The history leads from the empty database to `db`. -/
def Chain : List Commit → Db → Prop
  | [], db => db = .empty
  | c :: past, db => db = c.after ∧ Chain past c.before

theorem key_applyAll {t : KeyIndex} : ∀ (ws : List Write) {db : Db},
    (∃ kr, db.idempotency_key t = some kr) → ∃ kr, (applyAll db ws).idempotency_key t = some kr
  | [], _, h => h
  | w :: ws, db, ⟨kr, hkr⟩ => by
    refine key_applyAll ws ?_
    cases w with
    | put_key kr' =>
      by_cases ht : kr'.index = t
      · exact ⟨kr', (Table.find_put ..).trans (if_pos ht)⟩
      · exact ⟨kr, (Table.find_put_ne _ ht).trans hkr⟩
    | _ => exact ⟨kr, hkr⟩

/-- A started payment has its record. -/
theorem Chain.key_of_starts {t : KeyIndex} {a : PaymentAttempt} {c : Commit} :
    ∀ {past : List Commit} {db : Db}, Chain past db → c ∈ past → c.Starts t a →
      ∃ kr, db.idempotency_key t = some kr
  | [], _, _, hc, _ => nomatch hc
  | c' :: past, db, ⟨hdb, hchain⟩, hc, hs => by
    rw [hdb]
    rcases List.mem_cons.mp hc with rfl | hc
    · obtain ⟨r, row, kr, hws, -, ht⟩ := hs.writes
      refine ⟨kr, ?_⟩
      rw [Commit.after, hws]
      exact (Table.find_put ..).trans (if_pos ht)
    · exact key_applyAll _ (hchain.key_of_starts hc hs)

/-- A key is taken once. -/
theorem Chain.starts_unique {t : KeyIndex} {a₁ a₂ : PaymentAttempt} {c₁ c₂ : Commit} :
    ∀ {past : List Commit} {db : Db}, Chain past db → c₁ ∈ past → c₂ ∈ past → c₁.Starts t a₁ →
      c₂.Starts t a₂ → c₁ = c₂
  | [], _, _, hc, _, _, _ => nomatch hc
  | c :: past, db, ⟨_, hchain⟩, hc₁, hc₂, hs₁, hs₂ => by
    rcases List.mem_cons.mp hc₁ with h₁ | h₁ <;> rcases List.mem_cons.mp hc₂ with h₂ | h₂
    · rw [h₁, h₂]
    · obtain ⟨kr, hkr⟩ := hchain.key_of_starts h₂ hs₂
      cases (h₁ ▸ hs₁.key_absent).symm.trans hkr
    · obtain ⟨kr, hkr⟩ := hchain.key_of_starts h₁ hs₁
      cases (h₂ ▸ hs₂.key_absent).symm.trans hkr
    · exact hchain.starts_unique h₁ h₂ hs₁ hs₂

theorem Chain.pid_unique (h : Chain past db) {p q : Pid} {t : KeyIndex} {a₁ a₂ : PaymentAttempt}
    (h₁ : Started past p t a₁) (h₂ : Started past q t a₂) : p = q := by
  obtain ⟨c₁, hc₁, rfl, hs₁⟩ := h₁
  obtain ⟨c₂, hc₂, rfl, hs₂⟩ := h₂
  rw [h.starts_unique hc₁ hc₂ hs₁ hs₂]

/-- Nobody but the process that has taken a key writes its record. -/
theorem Effect.key_of_started (h : Effect K T past db j ws) (hchain : Chain past db) {q : Pid}
    {t : KeyIndex} {a : PaymentAttempt} (hq : q ≠ T) (hs : Started past q t a) :
    (applyAll db ws).idempotency_key t = db.idempotency_key t := by
  obtain ⟨c, hc, -, hst⟩ := id hs
  obtain ⟨kr₀, hkr₀⟩ := hchain.key_of_starts hc hst
  cases h with
  | create =>
    rw [applyAll_cons, Db.applyAll_put_line_items]; rfl
  | edit_items hr _ _ hpre =>
    rw [applyAll_append, applyAll_append, applyAll_append, Db.applyAll_put_line_items,
      Db.applyAll_delete_line_items]
    rcases hpre with ⟨rfl, -⟩ | ⟨rfl, -⟩ <;> rfl
  | pay_start hr hrow hfresh hkr =>
    subst hkr
    refine Table.find_put_ne _ fun ht => ?_
    have habs : db.idempotency_key t = none := (show _ = t from ht) ▸ hr.2.2.2.2
    cases habs.symm.trans hkr₀
  | pay_record hb _ _ _ hkr =>
    refine Table.find_put_ne _ fun ht => hq ?_
    exact hchain.pid_unique hs ((Db.index_of_key hkr).symm.trans ht ▸ hb.started)
  | pay_leave hb hkr =>
    refine Table.find_put_ne _ fun ht => hq ?_
    exact hchain.pid_unique hs ((Db.index_of_key hkr).symm.trans ht ▸ hb.started)
  | _ => rfl

end Payman
