import Mathlib.Algebra.Ring.Nat
import Mathlib.Data.Finset.Card
import Payman.Claims.Disorder
import Payman.Claims.References
import Payman.Gateway

/-! What the limiters' logs in Redis are made of.

    An address and a business never share a key, and a key has one address or one business. A log
    holds nothing but requests that have passed, in whatever order the scripts are executed and
    whatever is lost on the way. -/

namespace Payman
open Schemes

/-! ### Keys -/

theorem hex_digits_inj {u v : ℕ} (hu : u < 2 ^ 128) (hv : v < 2 ^ 128)
    (h : hex_digits u = hex_digits v) : u = v := by
  have hdigit : ∀ i < 32, (u >>> (4 * i)) % 16 = (v >>> (4 * i)) % 16 := fun i hi => by
    rw [hex_digits, hex_digits, String.ofList_inj] at h
    have hchar := List.map_inj_left.mp h i (by simpa using hi)
    exact digitChar_inj _ (Nat.mod_lt _ (by decide)) _ (Nat.mod_lt _ (by decide)) hchar
  refine Nat.eq_of_testBit_eq fun j => ?_
  by_cases hj : j < 128
  · have hbit : ∀ w : ℕ, w.testBit j = ((w >>> (4 * (j / 4))) % 16).testBit (j % 4) := fun w => by
      rw [show 16 = 2 ^ 4 from rfl, Nat.testBit_mod_two_pow, Nat.testBit_shiftRight,
        Nat.div_add_mod, decide_eq_true (Nat.mod_lt j (by decide)), Bool.true_and]
    rw [hbit u, hbit v, hdigit (j / 4) (by omega)]
  · have hlarge : 2 ^ 128 ≤ 2 ^ j := Nat.pow_le_pow_right (by decide) (by omega)
    rw [Nat.testBit_lt_two_pow (Nat.lt_of_lt_of_le hu hlarge),
      Nat.testBit_lt_two_pow (Nat.lt_of_lt_of_le hv hlarge)]

theorem hyphenated_inj {u v : ℕ} (hu : u < 2 ^ 128) (hv : v < 2 ^ 128)
    (h : hyphenated u = hyphenated v) : u = v :=
  hex_digits_inj hu hv (by rw [← remove_hyphens, h, remove_hyphens])

theorem hyphen_mem_hyphenated (u : ℕ) : '-' ∈ (hyphenated u).toList := by
  rw [hyphenated, String.toList_ofList]
  simp

theorem toString_inj {m n : ℕ} (h : toString m = toString n) : m = n := by
  rw [Nat.toString_eq_ofList_toDigits, Nat.toString_eq_ofList_toDigits, String.ofList_inj] at h
  rw [← Nat.ofDigitChars_ten_toDigits (n := m), h, Nat.ofDigitChars_ten_toDigits]

theorem isDigit_of_mem_toString {n : ℕ} {c : Char} (h : c ∈ (toString n).toList) :
    c.isDigit = true := by
  rw [Nat.toString_eq_ofList_toDigits, String.toList_ofList] at h
  exact Nat.isDigit_of_mem_toDigits (by decide) (by decide) h

/-- What comes before the first separator, and what comes after it. -/
theorem append_cons_inj {α : Type} {x : α} : ∀ {l₁ l₂ m₁ m₂ : List α}, x ∉ l₁ → x ∉ l₂ →
    l₁ ++ x :: m₁ = l₂ ++ x :: m₂ → l₁ = l₂ ∧ m₁ = m₂
  | [], [], _, _, _, _, h => ⟨rfl, (List.cons.inj h).2⟩
  | [], _ :: _, _, _, _, h₂, h => absurd ((List.cons.inj h).1 ▸ List.mem_cons_self ..) h₂
  | _ :: _, [], _, _, h₁, _, h => absurd ((List.cons.inj h).1 ▸ List.mem_cons_self ..) h₁
  | _ :: l₁, _ :: l₂, _, _, h₁, h₂, h => by
    obtain ⟨hhead, htail⟩ := List.cons.inj h
    obtain ⟨hl, hm⟩ := append_cons_inj (fun hmem => h₁ (.tail _ hmem)) (fun hmem => h₂ (.tail _ hmem))
      htail
    exact ⟨congrArg₂ _ hhead hl, hm⟩

namespace Registry

theorem Ipv4Addr.toList_to_string (ip : Ipv4Addr) : ip.to_string.toList =
    (toString ip.a.toNat).toList ++ '.' :: ((toString ip.b.toNat).toList ++ '.' ::
      ((toString ip.c.toNat).toList ++ '.' :: (toString ip.d.toNat).toList)) := by
  have hdot : ".".toList = ['.'] := rfl
  simp only [Ipv4Addr.to_string, String.toList_append, hdot, List.append_assoc, List.cons_append,
    List.nil_append]

/-- Addresses are told apart by their keys. -/
theorem Ipv4Addr.to_string_inj {ip ip' : Ipv4Addr} (h : ip.to_string = ip'.to_string) : ip = ip' := by
  have hdot : ∀ n : ℕ, '.' ∉ (toString n).toList := fun n hn => by
    cases isDigit_of_mem_toString hn
  have hoctet : ∀ {x y : UInt8}, (toString x.toNat).toList = (toString y.toNat).toList → x = y :=
    fun hxy => UInt8.toNat_inj.mp (toString_inj (String.toList_inj.mp hxy))
  rw [← String.toList_inj, toList_to_string, toList_to_string] at h
  obtain ⟨ha, h⟩ := append_cons_inj (hdot _) (hdot _) h
  obtain ⟨hb, h⟩ := append_cons_inj (hdot _) (hdot _) h
  obtain ⟨hc, hd⟩ := append_cons_inj (hdot _) (hdot _) h
  cases ip
  cases ip'
  rw [Ipv4Addr.mk.injEq]
  exact ⟨hoctet ha, hoctet hb, hoctet hc, hoctet hd⟩

/-- Members are told apart by their UUIDs. -/
theorem log_member_inj {now now' : ℕ} {u v : Uuid} (hu : u < 2 ^ 128) (hv : v < 2 ^ 128)
    (h : log_member now u = log_member now' v) : u = v := by
  have hdigit : ∀ n : ℕ, '-' ∉ (toString n).toList := fun n hn => by
    cases isDigit_of_mem_toString hn
  have hdash : "-".toList = ['-'] := rfl
  simp only [log_member, ← String.toList_inj, String.toList_append, hdash, List.append_assoc,
    List.singleton_append] at h
  exact hyphenated_inj hu hv (String.toList_inj.mp (append_cons_inj (hdigit _) (hdigit _) h).2)

/-- No address is written like a business. -/
theorem Ipv4Addr.to_string_ne (ip : Ipv4Addr) (u : Uuid) : ip.to_string ≠ hyphenated u := by
  intro h
  have hdigit : ∀ n : ℕ, '-' ∉ Nat.toDigits 10 n := fun n hn => by
    cases Nat.isDigit_of_mem_toDigits (by decide) (by decide) hn
  have hmem := hyphen_mem_hyphenated u
  rw [← h, toList_to_string] at hmem
  simp [hdigit] at hmem

end Registry

/-! ### What Redis has stored -/

/-- Every entry satisfies `φ`, whether its key has expired or not. -/
def Redis.Holds (φ : String → Scored → Prop) (db : Redis) : Prop :=
  ∀ key k, db.keys key = some k → ∀ x ∈ k.value.rows, φ key x

namespace Redis
variable {φ ψ : String → Scored → Prop} {db : Redis} {key : String}

theorem rows_nodup (db : Redis) (key : String) : (db.rows key).Nodup := by
  cases hk : db.get key with
  | none =>
    rw [rows_of_none hk]
    exact List.nodup_nil
  | some k =>
    rw [rows_of_get hk]
    exact k.value.nodup.of_map

namespace Holds

theorem imp (h : db.Holds φ) (himp : ∀ key x, φ key x → ψ key x) : db.Holds ψ :=
  fun key k hk x hx => himp key x (h key k hk x hx)

theorem of_get (h : db.Holds φ) {k : RedisKey} (hk : db.get key = some k) :
    ∀ x ∈ k.value.rows, φ key x := h key k (Option.filter_eq_some_iff.mp hk).1

theorem rows (h : db.Holds φ) : ∀ x ∈ db.rows key, φ key x := by
  cases hk : db.get key with
  | none =>
    rw [rows_of_none hk]
    exact nofun
  | some k =>
    rw [rows_of_get hk]
    exact h.of_get hk

theorem set (h : db.Holds φ) {o : Option RedisKey}
    (ho : ∀ k, o = some k → ∀ x ∈ k.value.rows, φ key x) : (db.set key o).Holds φ := by
  intro key' k hk
  by_cases hkey : key' = key
  · subst hkey
    have hset : (db.set key' o).keys key' = o := Function.update_self ..
    exact ho k (hset.symm.trans hk)
  · have hset : (db.set key o).keys key' = db.keys key' := Function.update_of_ne hkey ..
    exact h key' k (hset.symm.trans hk)

theorem zremrangebyscore (h : db.Holds φ) {min max : ℤ} :
    (db.zremrangebyscore key min max).Holds φ := by
  unfold Redis.zremrangebyscore
  split
  · exact h
  · rename_i k hk
    refine h.set fun k' hk' x hx => ?_
    split at hk' <;> cases hk'
    exact h.of_get hk x (List.mem_of_mem_filter hx)

theorem zadd (h : db.Holds φ) {score : ℤ} {member : String} (hφ : φ key ⟨member, score⟩) :
    (db.zadd key score member).Holds φ := by
  have hput : ∀ t : Table Scored, (∀ x ∈ t.rows, φ key x) →
      ∀ x ∈ (t.put ⟨member, score⟩).rows, φ key x := fun t ht x hx => by
    rcases Table.mem_put.mp hx with rfl | ⟨hx, -⟩
    · exact hφ
    · exact ht x hx
  unfold Redis.zadd
  split
  · refine h.set fun k hk => ?_
    cases hk
    exact hput _ nofun
  · rename_i k hk
    refine h.set fun k' hk' => ?_
    cases hk'
    exact hput _ (h.of_get hk)

theorem pexpire (h : db.Holds φ) {ms : ℕ} : (db.pexpire key ms).Holds φ := by
  unfold Redis.pexpire
  split
  · exact h
  · rename_i k hk
    refine h.set fun k' hk' => ?_
    cases hk'
    show ∀ x ∈ k.value.rows, φ key x
    exact h.of_get hk

end Holds

end Redis

/-! ### What a limiter makes of a request -/

namespace Limiter
variable {window max_req : ℕ} {s : Limiter} {x : Execution}

/-- Whatever is in a log has been allowed on its key. -/
def Known (s : Limiter) : Prop :=
  s.db.Holds fun key e => ∃ a ∈ s.allowed, a.key = key ∧ a.entry = e

/-- The requests allowed on a key after a time. -/
def since (s : Limiter) (key : String) (t : ℤ) : List RateRequest :=
  s.allowed.filter fun a => decide (a.key = key ∧ t < a.now)

/-- A script finds no more than what has been allowed in its window or later. -/
theorem Known.count_le (h : s.Known) :
    ((s.db.at_ x.time).zremrangebyscore x.request.key 0 (x.request.now - window)).zcard
      x.request.key ≤ (s.since x.request.key (x.request.now - window)).length := by
  have hknown : (s.db.at_ x.time).Holds fun key e => ∃ a ∈ s.allowed, a.key = key ∧ a.entry = e := h
  have hprune := (Redis.zremrangebyscore_self (s.db.at_ x.time) x.request.key 0
    (x.request.now - window)).1
  have hsub : ((s.db.at_ x.time).zremrangebyscore x.request.key 0
      (x.request.now - window)).rows x.request.key ⊆
      (s.since x.request.key (x.request.now - window)).map (·.entry) := by
    intro e he
    rw [hprune, List.mem_filter] at he
    obtain ⟨a, ha, hkey, rfl⟩ := hknown.rows e he.1
    refine List.mem_map.mpr ⟨a, List.mem_filter.mpr ⟨ha, decide_eq_true ⟨hkey, ?_⟩⟩, rfl⟩
    have hout : ¬(0 ≤ (a.now : ℤ) ∧ (a.now : ℤ) ≤ x.request.now - window) := by
      simpa [RateRequest.entry] using he.2
    omega
  have hlen := (List.subperm_of_subset (Redis.rows_nodup ..) hsub).length_le
  rwa [List.length_map, ← Redis.zcard_eq] at hlen

/-- What the script stores has been allowed. -/
theorem Known.execute (h : s.Known) : (s.execute window max_req x).Known := by
  have hgrow : ∀ l : List RateRequest, (∀ a ∈ s.allowed, a ∈ l) → (s.db.at_ x.time).Holds
      fun key e => ∃ a ∈ l, a.key = key ∧ a.entry = e := fun l hsub =>
    Redis.Holds.imp (show (s.db.at_ x.time).Holds _ from h)
      fun key e ⟨a, ha, hkey⟩ => ⟨a, hsub a ha, hkey⟩
  unfold Known Limiter.execute sliding_log_script
  simp only
  split
  · rw [if_neg (by simp [is_allowed])]
    exact (hgrow s.allowed fun _ ha => ha).zremrangebyscore
  · rw [if_pos (by simp [is_allowed])]
    have hpruned : ((s.db.at_ x.time).zremrangebyscore x.request.key 0
        ((x.request.now : ℤ) - window)).Holds
        fun key e => ∃ a ∈ s.allowed ++ [x.request], a.key = key ∧ a.entry = e :=
      (hgrow _ fun _ ha => List.mem_append_left _ ha).zremrangebyscore
    exact (hpruned.zadd ⟨x.request, by simp, rfl, rfl⟩).pexpire

end Limiter

namespace Registry
variable {fate : Fate} {s : Limiter} {x : Execution}

/-- How a limiter decides: the request joins the log, or passes without an answer, or finds the log
    full. -/
inductive Asked (fate : Fate) (s : Limiter) (x : Execution) : Limiter × Bool → Prop
  | joined (h : (s.execute WINDOW_MS MAX_REQUESTS x).allowed = s.allowed ++ [x.request]) :
      Asked fate s x (s.execute WINDOW_MS MAX_REQUESTS x, true)
  | unanswered {s' : Limiter} (hfate : fate ≠ .answered) (h : s'.allowed = s.allowed)
      (hs : s' = s ∨ s' = s.execute WINDOW_MS MAX_REQUESTS x) : Asked fate s x (s', true)
  | full (h : (s.execute WINDOW_MS MAX_REQUESTS x).allowed = s.allowed)
      (hcount : MAX_REQUESTS ≤ ((s.db.at_ x.time).zremrangebyscore x.request.key 0
        ((x.request.now : ℤ) - WINDOW_MS)).zcard x.request.key) :
      Asked fate s x (s.execute WINDOW_MS MAX_REQUESTS x, false)

theorem ask_asked : Asked fate s x (ask fate s x) := by
  by_cases hcount : MAX_REQUESTS ≤ ((s.db.at_ x.time).zremrangebyscore x.request.key 0
      ((x.request.now : ℤ) - WINDOW_MS)).zcard x.request.key
  · have hallowed : (s.execute WINDOW_MS MAX_REQUESTS x).allowed = s.allowed := by
      simp [Limiter.execute, sliding_log_script, hcount, is_allowed]
    cases fate with
    | answered =>
      have hno : (ask .answered s x).2 = false := by
        simp [ask, sliding_log_script, hcount, is_allowed]
      exact (Prod.ext rfl hno : ask .answered s x = (_, false)) ▸ .full hallowed hcount
    | lost => exact .unanswered (fun heq => by cases heq) hallowed (.inr rfl)
    | unreached => exact .unanswered (fun heq => by cases heq) rfl (.inl rfl)
  · have hallowed : (s.execute WINDOW_MS MAX_REQUESTS x).allowed = s.allowed ++ [x.request] := by
      simp [Limiter.execute, sliding_log_script, hcount, is_allowed]
    cases fate with
    | answered =>
      have hyes : (ask .answered s x).2 = true := by
        simp [ask, sliding_log_script, hcount, is_allowed]
      exact (Prod.ext rfl hyes : ask .answered s x = (_, true)) ▸ .joined hallowed
    | lost => exact .joined hallowed
    | unreached => exact .unanswered (fun heq => by cases heq) rfl (.inl rfl)

end Registry

end Payman
