import Payman.Safety.Effects
import Payman.Safety.Exec

/-! The contract of one process, and the rule for each operation.

    `Later` is what the steps of others preserve for a process: committed facts stay, rows it owns
    by idempotency key stay as they are, and whatever the setting promises. `Held` is what the row
    locks of its transaction add. The rules below turn these into one proof step an operation, so
    that a program's proof follows its text. -/

namespace Payman
open Schemes

/-! ### What others leave alone -/

/-- Columns that no job ever changes, and rows that no job ever deletes. -/
structure Grows (db db' : Db) : Prop where
  invoice : ∀ i r, db.invoice i = some r →
    ∃ r', db'.invoice i = some r' ∧ r'.business_id = r.business_id
  attempt : ∀ a row, db.attempt a = some row →
    ∃ row', db'.attempt a = some row' ∧ row'.invoice_id = row.invoice_id ∧
      row'.card_token = row.card_token ∧ row'.created_at = row.created_at
  key : ∀ t kr, db.idempotency_key t = some kr → ∃ kr', db'.idempotency_key t = some kr'
  endpoint : ∀ e r, db.endpoint e = some r →
    ∃ r', db'.endpoint e = some r' ∧ r'.business_id = r.business_id ∧
      (r.active = false → r'.active = false)
  delivery : ∀ d row, db.delivery d = some row →
    ∃ row', db'.delivery d = some row' ∧ row'.webhook_endpoint_id = row.webhook_endpoint_id

theorem Grows.refl (db : Db) : Grows db db where
  invoice := fun _ r h => ⟨r, h, rfl⟩
  attempt := fun _ row h => ⟨row, h, rfl, rfl, rfl⟩
  key := fun _ kr h => ⟨kr, h⟩
  endpoint := fun _ r h => ⟨r, h, rfl, id⟩
  delivery := fun _ row h => ⟨row, h, rfl⟩

theorem Grows.trans {db db' db'' : Db} (h : Grows db db') (h' : Grows db' db'') :
    Grows db db'' := by
  refine ⟨fun i r hr => ?_, fun a row hrow => ?_, fun t kr hkr => ?_, fun e r hr => ?_,
    fun d row hrow => ?_⟩
  · obtain ⟨r', hr', hb⟩ := h.invoice i r hr
    obtain ⟨r'', hr'', hb'⟩ := h'.invoice i r' hr'
    exact ⟨r'', hr'', hb'.trans hb⟩
  · obtain ⟨row', hrow', hi, hc, ht⟩ := h.attempt a row hrow
    obtain ⟨row'', hrow'', hi', hc', ht'⟩ := h'.attempt a row' hrow'
    exact ⟨row'', hrow'', hi'.trans hi, hc'.trans hc, ht'.trans ht⟩
  · obtain ⟨kr', hkr'⟩ := h.key t kr hkr
    exact h'.key t kr' hkr'
  · obtain ⟨r', hr', hb, ha⟩ := h.endpoint e r hr
    obtain ⟨r'', hr'', hb', ha'⟩ := h'.endpoint e r' hr'
    exact ⟨r'', hr'', hb'.trans hb, fun hf => ha' (ha hf)⟩
  · obtain ⟨row', hrow', he⟩ := h.delivery d row hrow
    obtain ⟨row'', hrow'', he'⟩ := h'.delivery d row' hrow'
    exact ⟨row'', hrow'', he'.trans he⟩

/-- What process `T` still knows after a while in which it issued no operation, or one that
    committed nothing. `e` is the operation it was about to issue. -/
structure Later (K : Setting) (T : Pid) (j : Job) (e : Option Eff) (w w' : World) : Prop where
  clock : w.now ≤ w'.now
  history : ∀ c ∈ w.history, c ∈ w'.history
  mine : ∀ c ∈ w'.history, c.pid = T → c ∈ w.history
  charges : ∀ ch ∈ w'.charges, ch.pid = T → ch ∈ w.charges
  was : ∀ φ, Was w.history w.db φ → Was w'.history w'.db φ
  grows : Grows w.db w'.db
  key : ∀ t a, Started w.history T t a → w'.db.idempotency_key t = w.db.idempotency_key t
  alone : K.alone → e ≠ none → w'.db = w.db
  drafts : K.drafts → ∀ i, rewriting j e = some i → ∀ r, w.db.invoice i = some r →
    r.state = .Draft → ∃ r', w'.db.invoice i = some r' ∧ r'.state = .Draft
  scans : K.scans → ∀ i, replacing j e = some i → w'.db.items i = w.db.items i

theorem Started.mono {past past' : List Commit} {T : Pid} {t : KeyIndex} {a : PaymentAttempt}
    (h : Started past T t a) (hsub : ∀ c ∈ past, c ∈ past') : Started past' T t a :=
  let ⟨c, hc, hs⟩ := h; ⟨c, hsub c hc, hs⟩

namespace Later
variable {K : Setting} {T : Pid} {j : Job} {e : Option Eff} {w w' w'' : World}

/-- Nothing was committed and no charge was sent. -/
theorem quiet (hnow : w.now ≤ w'.now) (hdb : w'.db = w.db) (hh : w'.history = w.history)
    (hc : w'.charges = w.charges) : Later K T j e w w' where
  clock := hnow
  history := fun c hc => hh ▸ hc
  mine := fun c hc _ => hh ▸ hc
  charges := fun ch hch _ => hc ▸ hch
  was := fun φ hφ => by rw [hh, hdb]; exact hφ
  grows := hdb ▸ Grows.refl _
  key := fun t a _ => by rw [hdb]
  alone := fun _ _ => hdb
  drafts := fun _ i _ r hr hs => ⟨r, by rw [hdb]; exact hr, hs⟩
  scans := fun _ i _ => by rw [hdb]

theorem refl : Later K T j e w w := quiet (Int.le_refl _) rfl rfl rfl

theorem trans (h : Later K T j e w w') (h' : Later K T j e w' w'') : Later K T j e w w'' where
  clock := Int.le_trans h.clock h'.clock
  history := fun c hc => h'.history c (h.history c hc)
  mine := fun c hc hT => h.mine c (h'.mine c hc hT) hT
  charges := fun ch hch hT => h.charges ch (h'.charges ch hch hT) hT
  was := fun φ hφ => h'.was φ (h.was φ hφ)
  grows := h.grows.trans h'.grows
  key := fun t a hs => (h'.key t a (hs.mono h.history)).trans (h.key t a hs)
  alone := fun hK he => (h'.alone hK he).trans (h.alone hK he)
  drafts := fun hK i hi r hr hs =>
    let ⟨r', hr', hs'⟩ := h.drafts hK i hi r hr hs
    h'.drafts hK i hi r' hr' hs'
  scans := fun hK i hi => (h'.scans hK i hi).trans (h.scans hK i hi)

/-- A begun payment stays begun while its process is not done. -/
theorem begun (h : Later K T j e w w') (he : e ≠ none) {t : KeyIndex} {v : Int32}
    {a : PaymentAttempt} (hb : Begun K T t v a w.history w.db) :
    Begun K T t v a w'.history w'.db where
  started := hb.started.mono h.history
  attempt := by
    obtain ⟨row, hrow, hi, hc, hp⟩ := hb.attempt
    obtain ⟨row', hrow', hi', hc', -⟩ := h.grows.attempt _ row hrow
    refine ⟨row', hrow', hi'.trans hi, hc'.trans hc, fun hK => ?_⟩
    rw [h.alone hK he, hrow, Option.some.injEq] at hrow'
    exact hrow' ▸ hp hK
  key := by rw [h.key t a hb.started]; exact hb.key
  invoice := by
    obtain ⟨r, hr, hp⟩ := hb.invoice
    obtain ⟨r', hr', hb'⟩ := h.grows.invoice _ r hr
    refine ⟨r', hr', fun hK => ?_⟩
    obtain ⟨db₀, r₀, hs, hpay, hb₀⟩ := hp hK
    exact ⟨db₀, r₀, hs, hpay, hb₀.trans hb'.symm⟩

end Later

/-- What the locks of the writes `ws` keep as it is. -/
structure Held (ws : List Write) (db db' : Db) : Prop where
  locked : ∀ k ∈ lockSet ws, ∀ {β : Type} (f : Db → β), ReadsOnly (W := Write) k f → f db' = f db
  items : ∀ i, LockKey.invoice i ∈ lockSet ws → db'.items i = db.items i

namespace Held
variable {ws : List Write} {db db' db'' : Db}

theorem trans (h : Held ws db db') (h' : Held ws db' db'') : Held ws db db'' :=
  ⟨fun k hk _ f hf => (h'.locked k hk f hf).trans (h.locked k hk f hf),
    fun i hi => (h'.items i hi).trans (h.items i hi)⟩

theorem invoice (h : Held ws db db') {i : Uuid} (hi : LockKey.invoice i ∈ lockSet ws) :
    db'.invoice i = db.invoice i := h.locked _ hi _ (Db.readsOnly_invoice i)

theorem attempt (h : Held ws db db') {a : Uuid} (ha : LockKey.attempt a ∈ lockSet ws) :
    db'.attempt a = db.attempt a := h.locked _ ha _ (Db.readsOnly_attempt a)

theorem line_item (h : Held ws db db') {l : Uuid} (hl : LockKey.line_item l ∈ lockSet ws) :
    db'.line_item l = db.line_item l := h.locked _ hl _ (Db.readsOnly_line_item l)

theorem key (h : Held ws db db') {t : KeyIndex} (ht : LockKey.key t ∈ lockSet ws) :
    db'.idempotency_key t = db.idempotency_key t := h.locked _ ht _ (Db.readsOnly_key t)

end Held

/-! ### The contract -/

/-- The steps of others. -/
structure Rely (K : Setting) (T : Pid) (j : Job) (e : Option Eff) (w w' : World) : Prop extends
    Later K T j e w w' where
  frame : Sessions.Frame T w.sessions w'.sessions
  items : ∀ tx, w.tx T = some tx → ∀ i, LockKey.invoice i ∈ lockSet tx.writes →
    w'.db.items i = w.db.items i

theorem Rely.trans {K : Setting} {T : Pid} {j : Job} {e : Option Eff} {w w' w'' : World}
    (h : Rely K T j e w w') (h' : Rely K T j e w' w'') : Rely K T j e w w'' :=
  ⟨h.toLater.trans h'.toLater, h.frame.trans h'.frame, fun tx htx i hi =>
    (h'.items tx (h.frame.tx.trans htx) i hi).trans (h.items tx htx i hi)⟩

theorem Rely.held {K : Setting} {T : Pid} {j : Job} {e : Option Eff} {w w' : World}
    {tx : Tx DateTime Write} (h : Rely K T j e w w') (htx : w.tx T = some tx) :
    Held tx.writes w.db w'.db :=
  ⟨fun k hk _ f hf => h.frame.locked tx htx k hk f hf, fun i hi => h.items tx htx i hi⟩

/-- What `T` still knows after others have run, or after an operation of its own that committed
    nothing: `Later`, and what its locks kept. -/
structure Next (K : Setting) (T : Pid) (j : Job) (e : Eff) (w w' : World) : Prop extends
    Later K T j (some e) w w' where
  held : ∀ tx, w.tx T = some tx → Held tx.writes w.db w'.db

theorem Rely.next {K : Setting} {T : Pid} {j : Job} {e : Eff} {w w' w'' : World}
    (h : Rely K T j (some e) w w') (hnow : w'.now ≤ w''.now) (hdb : w''.db = w'.db)
    (hh : w''.history = w'.history) (hc : w''.charges = w'.charges) : Next K T j e w w'' :=
  ⟨h.toLater.trans (.quiet hnow hdb hh hc), fun _ htx => by rw [hdb]; exact h.held htx⟩

/-- The steps of a process running job `j`. -/
inductive Guar (K : Setting) (T : Pid) (j : Job) (w w' : World) : Prop where
  | quiet (hdb : w'.db = w.db) (hh : w'.history = w.history) (hc : w'.charges = w.charges)
  | commit (ws : List Write) (hdb : w'.db = applyAll w.db ws)
      (hh : w'.history = ⟨T, w.db, ws⟩ :: w.history) (hc : w'.charges = w.charges)
      (he : Effect K T w.history w.db j ws)
  | send (attempt_id : Uuid) (card_token : String) (hdb : w'.db = w.db)
      (hh : w'.history = w.history) (hc : w'.charges = ⟨T, attempt_id, card_token⟩ :: w.charges)
      (hs : Sends K T w j attempt_id card_token)

theorem Guar.history {K : Setting} {T : Pid} {j : Job} {w w' : World} (h : Guar K T j w w') :
    ∀ c ∈ w.history, c ∈ w'.history := fun c hc => by
  cases h with
  | quiet _ hh _ => exact hh ▸ hc
  | commit _ _ hh _ _ => exact hh ▸ List.mem_cons_of_mem _ hc
  | send _ _ _ hh _ _ => exact hh ▸ hc

/-- The dispatches that a job may spawn. -/
def Job.Spawns : Job → DispatchTask → Prop
  | .call (.finalize_invoice i b _), t => t = ⟨b, i, "invoice.finalized"⟩
  | .call (.pay_invoice ..), _ => True
  | .tick, _ => True
  | _, _ => False

/-- What a step of a process running job `j` sends to endpoints and spawns: only the webhook worker
    posts, and only jobs with events dispatch. -/
structure Emits (j : Job) (w w' : World) : Prop where
  posts : w'.posts = w.posts ∨ j = .deliveries
  spawned : w'.spawned = w.spawned ∨ ∃ t, w'.spawned = t :: w.spawned ∧ j.Spawns t

theorem Emits.of_eq {j : Job} {w w' : World} (hp : w'.posts = w.posts)
    (hs : w'.spawned = w.spawned) : Emits j w w' := ⟨.inl hp, .inl hs⟩

/-- The PSP's answers that the setting admits. -/
def Admits (K : Setting) : Eff → Choice → Prop
  | .recv_charge a, c => K.answer true a c.answer
  | .get_charge a, c => K.answer false a c.answer
  | _, _ => True

/-- The contract of process `T` running job `j`. -/
def contract (K : Setting) (T : Pid) (j : Job) : Contract payman World Choice where
  exec := fun e c w => w.exec T e c
  allow := Admits K
  rely := Rely K T j
  guar := fun w w' => Guar K T j w w' ∧ Emits j w w'
  refl := fun _ _ => ⟨Later.refl, Sessions.Frame.refl .., fun _ _ _ _ => rfl⟩
  trans := fun _ _ _ _ => Rely.trans

end Payman
