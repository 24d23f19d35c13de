import Payman.Middleware.RateLimiter
import Payman.Schemes.SlidingLog

/-! The rate limiter is a sliding log.

    What Redis holds for a key is not the history of the key: it is pruned, extended only by
    admitted requests, and dropped when it expires. At the time of any later request it still holds
    exactly the admitted requests that can count. -/

namespace Payman
open Schemes

/-- The policy that the limiter is for. -/
def policy (window max_req : ℕ) : Policy RateRequest String where
  key := fun r => r.key
  time := fun r => r.now
  window := window
  limit := max_req

/-- A request as a member of its key's sorted set. -/
def RateRequest.entry (r : RateRequest) : Scored := ⟨r.member, r.now⟩

/-- The requests of `h` on key `k` that count at time `t` or may count later. -/
def kept (window : ℕ) (h : List RateRequest) (k : String) (t : ℤ) : List RateRequest :=
  h.filter fun a => decide (a.key = k ∧ t - window < a.now)

/-- Redis at the time of the latest request, `last`, and the admitted requests `h` so far. -/
structure Agrees (window : ℕ) (skew : ℤ) (db : Redis) (h : List RateRequest) (last : ℤ) :
    Prop where
  clock : db.clock = last + skew
  rows : ∀ k t, last ≤ t → (db.rows k).filter (fun x => decide (t - window < x.score)) =
    (kept window h k t).map (·.entry)
  known : ∀ k, ∀ x ∈ db.rows k, ∃ a ∈ h, a.entry = x
  deadline : ∀ k e, db.deadline k = some e → ∀ a ∈ h, a.key = k →
    (a.now : ℤ) + skew + window + 1000 ≤ e
  past : ∀ a ∈ h, (a.now : ℤ) ≤ last

section
variable {window : ℕ} {skew last : ℤ} {db : Redis} {h : List RateRequest}

/-- While time passes keys expire, but only when nothing of theirs can count any more. -/
theorem Agrees.elapse (ha : Agrees window skew db h last) {t : ℤ} (ht : last ≤ t) :
    Agrees window skew (db.at_ (t + skew)) h t := by
  have hclock : db.clock ≤ t + skew := by
    have hc := ha.clock
    omega
  refine ⟨rfl, fun k u hu => ?_, fun k x hx => ?_, fun k e he => ?_, fun a hmem => ?_⟩
  · rcases Redis.get_at hclock k with hget | ⟨hget, e, he, hlt⟩
    · have hrows : (db.at_ (t + skew)).rows k = db.rows k := by rw [Redis.rows, Redis.rows, hget]
      rw [hrows]
      exact ha.rows k u (Int.le_trans ht hu)
    · have hnone : kept window h k u = [] := by
        refine List.filter_eq_nil_iff.mpr fun a hmem hk => ?_
        obtain ⟨hkey, hcount⟩ := of_decide_eq_true hk
        have hd := ha.deadline k e he a hmem hkey
        omega
      rw [Redis.rows_of_none hget, hnone]
      rfl
  · rcases Redis.get_at hclock k with hget | ⟨hget, -⟩
    · rw [Redis.rows, hget] at hx
      exact ha.known k x hx
    · rw [Redis.rows_of_none hget] at hx
      cases hx
  · rcases Redis.get_at hclock k with hget | ⟨hget, -⟩
    · rw [Redis.deadline, hget] at he
      exact ha.deadline k e he
    · rw [Redis.deadline_of_none hget] at he
      cases he
  · exact Int.le_trans (ha.past a hmem) ht

/-- Pruning takes away what does not count any more. -/
theorem Agrees.prune (ha : Agrees window skew db h last) (key : String) :
    Agrees window skew (db.zremrangebyscore key 0 (last - window)) h last := by
  obtain ⟨hrows, hdead⟩ := Redis.zremrangebyscore_self db key 0 (last - window)
  have hother : ∀ {k}, k ≠ key → (db.zremrangebyscore key 0 (last - window)).get k = db.get k :=
    fun hk => Redis.get_zremrangebyscore_ne hk _ _
  refine ⟨?_, fun k t ht => ?_, fun k x hx => ?_, fun k e he => ?_, ha.past⟩
  · rw [← ha.clock]
    unfold Redis.zremrangebyscore
    split <;> rfl
  · by_cases hk : k = key
    · subst hk
      rw [hrows, List.filter_filter, ← ha.rows k t ht]
      refine List.filter_congr fun x _ => ?_
      rw [Bool.eq_iff_iff]
      simp only [Bool.and_eq_true, Bool.not_eq_true', decide_eq_true_eq, decide_eq_false_iff_not]
      omega
    · rw [Redis.rows, hother hk]
      exact ha.rows k t ht
  · by_cases hk : k = key
    · subst hk
      rw [hrows] at hx
      exact ha.known k x (List.mem_of_mem_filter hx)
    · rw [Redis.rows, hother hk] at hx
      exact ha.known k x hx
  · by_cases hk : k = key
    · subst hk
      exact ha.deadline k e (hdead e he)
    · rw [Redis.deadline, hother hk] at he
      exact ha.deadline k e he

/-- What is left for the key after pruning is what counts. -/
theorem Agrees.count (ha : Agrees window skew db h last) (max_req : ℕ) (r : RateRequest) :
    (db.zremrangebyscore r.key 0 (last - window)).zcard r.key =
      ((policy window max_req).span h r.key (last - window)).length := by
  have hprune := (Redis.zremrangebyscore_self db r.key 0 (last - window)).1
  have hspan : (policy window max_req).span h r.key (last - window) =
      kept window h r.key last := by
    refine List.filter_congr fun a hmem => decide_eq_decide.mpr ?_
    have hpast := ha.past a hmem
    show (a.key = r.key ∧ last - window < (a.now : ℤ) ∧ (a.now : ℤ) ≤ last - window + window) ↔
      a.key = r.key ∧ last - window < (a.now : ℤ)
    constructor
    · rintro ⟨hk, hlo, -⟩
      exact ⟨hk, hlo⟩
    · rintro ⟨hk, hlo⟩
      exact ⟨hk, hlo, by omega⟩
  have hfilter : (db.rows r.key).filter (fun x => !decide (0 ≤ x.score ∧ x.score ≤ last - window)) =
      (db.rows r.key).filter fun x => decide (last - window < x.score) := by
    refine List.filter_congr fun x hx => ?_
    obtain ⟨a, -, rfl⟩ := ha.known r.key x hx
    show (!decide (0 ≤ (a.now : ℤ) ∧ (a.now : ℤ) ≤ last - window)) =
      decide (last - window < (a.now : ℤ))
    by_cases hlo : last - window < (a.now : ℤ)
    · simp [hlo]
    · have hin : 0 ≤ (a.now : ℤ) ∧ (a.now : ℤ) ≤ last - window := by omega
      simp [hlo, hin]
  rw [Redis.zcard_eq, hprune, hfilter, ha.rows r.key last (Int.le_refl _), List.length_map, hspan]

theorem kept_concat (r : RateRequest) (k : String) (t : ℤ) :
    kept window (h ++ [r]) k t = kept window h k t ++ kept window [r] k t := List.filter_append ..

/-- An admitted request enters the sorted set of its key and renews its deadline. -/
theorem Agrees.admit (ha : Agrees window skew db h last) {r : RateRequest} (hr : r.now = last)
    (hnew : ∀ a ∈ h, a.member ≠ r.member) :
    Agrees window skew ((db.zadd r.key r.now r.member).pexpire r.key (window + 1000))
      (h ++ [r]) last := by
  have hfresh : ∀ x ∈ db.rows r.key, x.member ≠ r.member := fun x hx => by
    obtain ⟨a, hmem, rfl⟩ := ha.known r.key x hx
    exact hnew a hmem
  obtain ⟨k₀, hget₀, hrows₀⟩ := Redis.zadd_self r.now hfresh
  have hzadd : (db.zadd r.key r.now r.member).clock = last + skew := by
    rw [← ha.clock]
    unfold Redis.zadd
    split <;> rfl
  have hget := Redis.pexpire_self hget₀ (window + 1000)
  have hother : ∀ {k}, k ≠ r.key →
      ((db.zadd r.key r.now r.member).pexpire r.key (window + 1000)).get k = db.get k :=
    fun hk => (Redis.get_pexpire_ne hk _).trans (Redis.get_zadd_ne hk _ _)
  refine ⟨?_, fun k t ht => ?_, fun k x hx => ?_, fun k e he a hmem hkey => ?_, ?_⟩
  · rw [← hzadd]
    unfold Redis.pexpire
    split <;> rfl
  · rw [kept_concat, List.map_append, ← ha.rows k t ht]
    by_cases hk : k = r.key
    · subst hk
      rw [Redis.rows_of_get hget, hrows₀, List.filter_append]
      congr 1
      by_cases hc : t - window < r.now <;> simp [kept, RateRequest.entry, hc]
    · rw [Redis.rows, hother hk]
      simp [kept, Ne.symm hk, Redis.rows]
  · by_cases hk : k = r.key
    · subst hk
      rw [Redis.rows_of_get hget, hrows₀, List.mem_append, List.mem_singleton] at hx
      rcases hx with hx | rfl
      · obtain ⟨a, hmem, rfl⟩ := ha.known _ x hx
        exact ⟨a, List.mem_append_left _ hmem, rfl⟩
      · exact ⟨r, by simp, rfl⟩
    · rw [Redis.rows, hother hk] at hx
      obtain ⟨a, hmem, rfl⟩ := ha.known k x hx
      exact ⟨a, List.mem_append_left _ hmem, rfl⟩
  · by_cases hk : k = r.key
    · subst hk
      rw [Redis.deadline_of_get hget, Option.some.injEq] at he
      have hle : (a.now : ℤ) ≤ last := by
        rcases List.mem_append.mp hmem with hmem | hmem
        · exact ha.past a hmem
        · rw [List.mem_singleton.mp hmem]
          omega
      have hclock : ((db.zadd r.key r.now r.member).clock + (window + 1000 : ℕ) : ℤ) = e := he
      omega
    · rw [Redis.deadline, hother hk] at he
      refine ha.deadline k e he a ?_ hkey
      rcases List.mem_append.mp hmem with hmem | hmem
      · exact hmem
      · exact absurd (List.mem_singleton.mp hmem ▸ hkey) (Ne.symm hk)
  · simp only [List.forall_mem_append, List.forall_mem_singleton]
    exact ⟨ha.past, by omega⟩

/-- CORRECT (step): the script decides by the history of admitted requests, and Redis goes on to
    agree with it. -/
theorem Agrees.serve (ha : Agrees window skew db h last) (max_req : ℕ) {r : RateRequest}
    (hr : last ≤ r.now) (hnew : ∀ a ∈ h, a.member ≠ r.member) :
    (r.serve window max_req skew db).2 = (policy window max_req).admits h r ∧
      Agrees window skew (r.serve window max_req skew db).1
        ((policy window max_req).push h r) r.now := by
  have hnow := ha.elapse hr
  have hpruned := hnow.prune r.key
  have hcount := hnow.count max_req r
  unfold RateRequest.serve sliding_log_script Policy.push
  simp only [hcount]
  by_cases hle : max_req ≤ ((policy window max_req).span h r.key (r.now - window)).length
  · have hadm : (policy window max_req).admits h r = false :=
      decide_eq_false (Nat.not_lt.mpr hle)
    simp only [ge_iff_le, hle, if_true, hadm]
    exact ⟨rfl, hpruned⟩
  · have hadm : (policy window max_req).admits h r = true :=
      decide_eq_true (Nat.not_le.mp hle)
    simp only [ge_iff_le, hle, if_false, hadm]
    exact ⟨rfl, hpruned.admit rfl hnew⟩

/-- CORRECT (run): the decisions are those of the policy. -/
theorem Agrees.serve_all (max_req : ℕ) : ∀ {rs : List RateRequest} {db : Redis}
    {h : List RateRequest} {last : ℤ}, Agrees window skew db h last → (∀ r ∈ rs, last ≤ r.now) →
    rs.Pairwise (fun a b => a.now ≤ b.now) → (rs.map (·.member)).Nodup →
    (∀ a ∈ h, ∀ r ∈ rs, a.member ≠ r.member) →
    Payman.serve_all window max_req skew rs db = (policy window max_req).log h rs := by
  intro rs
  induction rs with
  | nil => intros; rfl
  | cons r rs ih =>
    intro db h last ha hlast hord hnd hnew
    rw [List.pairwise_cons] at hord
    rw [List.map_cons, List.nodup_cons] at hnd
    obtain ⟨hdec, hnext⟩ := ha.serve max_req (hlast r (List.mem_cons_self ..))
      fun a hmem => hnew a hmem r (List.mem_cons_self ..)
    have hrest := ih hnext (fun r' hr' => Int.ofNat_le.mpr (hord.1 r' hr')) hord.2 hnd.2 ?_
    · rw [Payman.serve_all, Policy.log, ← hdec, ← hrest]
    · intro a hmem r' hr'
      rcases Policy.mem_push hmem with hmem | rfl
      · exact hnew a hmem r' (List.mem_cons_of_mem _ hr')
      · intro heq
        exact hnd.1 (heq ▸ List.mem_map_of_mem hr')

/-- An empty Redis agrees with the empty history at any time. -/
theorem Agrees.empty (skew : ℤ) (drops : Bool) (t : ℤ) :
    Agrees window skew ((Redis.empty drops).at_ (t + skew)) [] t where
  clock := rfl
  rows := fun _ _ _ => rfl
  known := fun _ _ hx => by cases hx
  deadline := fun _ _ he => by cases he
  past := by simp

theorem serve_all_eq_log {max_req : ℕ} {rs : List RateRequest} (drops : Bool)
    (hord : rs.Pairwise fun a b => a.now ≤ b.now) (hnd : (rs.map (·.member)).Nodup) :
    serve_all window max_req skew rs (.empty drops) = (policy window max_req).log [] rs := by
  cases rs with
  | nil => rfl
  | cons r rs =>
    have hempty : Agrees window skew ((Redis.empty drops).at_ (r.now + skew)) [] r.now :=
      .empty skew drops r.now
    refine hempty.serve_all max_req (fun r' hr' => ?_) hord hnd (by simp)
    rcases List.mem_cons.mp hr' with rfl | hr'
    · exact Int.le_refl _
    · exact Int.ofNat_le.mpr ((List.pairwise_cons.mp hord).1 r' hr')

end

/-! ### What the limiter guarantees -/

/-- The requests that a log says were allowed. -/
def allowed_of (log : List (RateRequest × Bool)) : List RateRequest := (log.filter (·.2)).map (·.1)

/-- How many requests on `key` have a time in `times`. -/
def count_in (key : String) (times : ℤ → Prop) [DecidablePred times] (l : List RateRequest) : ℕ :=
  (l.filter fun a => decide (a.key = key ∧ times a.now)).length

/-- What it means for `log`, on the requests `rs`, to be that of a sliding log. -/
structure Slides (window max_req : ℕ) (log : List RateRequest → List (RateRequest × Bool))
    (rs : List RateRequest) : Prop where
  /-- A request is allowed iff fewer than `max_req` earlier ones on its key were allowed in the
      window that ends with it. -/
  exact : ∀ pre r post, rs = pre ++ r :: post → ∃ rest, log rs = log pre ++
    (r, decide (count_in r.key (fun t => (r.now : ℤ) - window < t ∧ t ≤ r.now)
      (allowed_of (log pre)) < max_req)) :: rest
  windows : ∀ key (t : ℤ),
    count_in key (fun u => t < u ∧ u ≤ t + window) (allowed_of (log rs)) ≤ max_req ∧
    count_in key (fun u => t ≤ u ∧ u < t + window) (allowed_of (log rs)) ≤ max_req
  /-- Without a request that was refused, all others are decided as before. -/
  refused : ∀ pre r post rest, rs = pre ++ r :: post → log rs = log pre ++ (r, false) :: rest →
    log (pre ++ post) = log pre ++ rest
  keys : ∀ key, (log rs).filter (fun x => decide (x.1.key = key)) =
    log (rs.filter fun r => decide (r.key = key))

theorem count_in_congr {key : String} {times times' : ℤ → Prop} [DecidablePred times]
    [DecidablePred times'] (h : ∀ t, times t ↔ times' t) (l : List RateRequest) :
    count_in key times l = count_in key times' l := by
  unfold count_in
  simp only [h]

/-- The policy's windows, in the words above. -/
theorem length_span_policy (window max_req : ℕ) (h : List RateRequest) (key : String) (t : ℤ) :
    ((policy window max_req).span h key t).length =
      count_in key (fun u => t < u ∧ u ≤ t + window) h := rfl

theorem allowed_policy (window max_req : ℕ) (rs : List RateRequest) :
    (policy window max_req).allowed rs = allowed_of ((policy window max_req).log [] rs) :=
  Policy.foldl_push rs []

theorem ordered_policy {window max_req : ℕ} {rs : List RateRequest}
    (h : rs.Pairwise fun a b => a.now ≤ b.now) : (policy window max_req).Ordered rs :=
  h.imp fun hle => Int.ofNat_le.mpr hle

/-- The policy's log is that of a sliding log. -/
theorem policy_slides {window max_req : ℕ} {rs : List RateRequest}
    (hord : rs.Pairwise fun a b => a.now ≤ b.now) :
    Slides window max_req ((policy window max_req).log []) rs where
  exact := by
    rintro pre r post rfl
    have hadm : (policy window max_req).admits ((policy window max_req).allowed pre) r =
        decide (count_in r.key (fun t => (r.now : ℤ) - window < t ∧ t ≤ r.now)
          (allowed_of ((policy window max_req).log [] pre)) < max_req) := by
      rw [allowed_policy, Policy.admits, length_span_policy]
      refine decide_eq_decide.mpr ?_
      have hcount : count_in r.key (fun u => (r.now : ℤ) - window < u ∧
            u ≤ (r.now : ℤ) - window + window) (allowed_of ((policy window max_req).log [] pre)) =
          count_in r.key (fun u => (r.now : ℤ) - window < u ∧ u ≤ r.now)
            (allowed_of ((policy window max_req).log [] pre)) :=
        count_in_congr (fun u => by omega) _
      exact hcount ▸ Iff.rfl
    rw [← hadm, Policy.log_append]
    exact ⟨_, rfl⟩
  windows := by
    intro key t
    have hle : ∀ t, count_in key (fun u => t < u ∧ u ≤ t + window)
        (allowed_of ((policy window max_req).log [] rs)) ≤ max_req := by
      intro t
      rw [← allowed_policy, ← length_span_policy window max_req]
      exact Policy.length_span_allowed (ordered_policy hord) key t
    refine ⟨hle t, ?_⟩
    have hshift : count_in key (fun u => t ≤ u ∧ u < t + window)
          (allowed_of ((policy window max_req).log [] rs)) =
        count_in key (fun u => t - 1 < u ∧ u ≤ t - 1 + window)
          (allowed_of ((policy window max_req).log [] rs)) :=
      count_in_congr (fun u => by omega) _
    rw [hshift]
    exact hle (t - 1)
  refused := by
    rintro pre r post rest rfl hlog
    rw [Policy.log_append] at hlog
    obtain ⟨hdec, hrest⟩ := List.cons.inj (List.append_cancel_left hlog)
    have hrefused : (policy window max_req).admits ((policy window max_req).allowed pre) r = false :=
      congrArg Prod.snd hdec
    rw [Policy.log_append, ← hrest]
    exact congrArg (fun h => _ ++ (policy window max_req).log h post)
      (Policy.push_refused hrefused).symm
  keys := fun key => Policy.log_filter_key (P := policy window max_req) key rs []

/-- CORRECT: on every sequence of requests in time order with distinct members, over any number of
    keys, the script decides exactly as a sliding log does, and dropping expired keys changes no
    decision. -/
theorem rate_limiter_slides {window max_req : ℕ} {skew : ℤ} {rs : List RateRequest}
    (hord : rs.Pairwise fun a b => a.now ≤ b.now) (hnd : (rs.map (·.member)).Nodup) :
    Slides window max_req (fun rs => serve_all window max_req skew rs (.empty true)) rs ∧
      serve_all window max_req skew rs (.empty true) =
        serve_all window max_req skew rs (.empty false) := by
  have heq : ∀ {l : List RateRequest}, l.Sublist rs →
      serve_all window max_req skew l (.empty true) = (policy window max_req).log [] l :=
    fun hsub => serve_all_eq_log true (hord.sublist hsub) ((hsub.map _).nodup hnd)
  have hslides : Slides window max_req ((policy window max_req).log []) rs := policy_slides hord
  refine ⟨⟨?_, ?_, ?_, fun key => ?_⟩, ?_⟩
  · rintro pre r post rfl
    rw [heq (List.Sublist.refl _), heq (List.sublist_append_left ..)]
    exact hslides.exact pre r post rfl
  · rw [heq (List.Sublist.refl _)]
    exact hslides.windows
  · rintro pre r post rest rfl hlog
    rw [heq (List.Sublist.refl _), heq (List.sublist_append_left ..)] at hlog
    rw [heq ((List.sublist_cons_self ..).append_left _), heq (List.sublist_append_left ..)]
    exact hslides.refused pre r post rest rfl hlog
  · rw [heq (List.Sublist.refl _), heq List.filter_sublist]
    exact hslides.keys key
  · rw [heq (List.Sublist.refl _), serve_all_eq_log false hord hnd]

/-- Two clients under a limit of two requests a minute: the first one is refused once within its
    window and once at its inclusive end, and comes back after its key has expired. -/
def burst : List RateRequest :=
  [⟨"a", 0, "m0"⟩, ⟨"a", 10, "m1"⟩, ⟨"b", 10, "m2"⟩, ⟨"a", 59999, "m3"⟩, ⟨"a", 60000, "m4"⟩,
    ⟨"a", 60000, "m5"⟩, ⟨"a", 200000, "m6"⟩]

theorem rate_limiter_slides_burst :
    (serve_all WINDOW_MS 2 0 burst (.empty true)).map (·.2) =
      [true, true, true, false, true, false, true] ∧
    Slides WINDOW_MS 2 (fun rs => serve_all WINDOW_MS 2 0 rs (.empty true)) burst ∧
      serve_all WINDOW_MS 2 0 burst (.empty true) = serve_all WINDOW_MS 2 0 burst (.empty false) :=
  ⟨by decide +kernel, rate_limiter_slides (by decide +kernel) (by decide +kernel)⟩

end Payman
