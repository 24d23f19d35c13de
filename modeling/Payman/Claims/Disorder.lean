import Mathlib.Data.List.Nodup
import Payman.Claims.RateLimit

/-! The rate limiter when requests overtake each other.

    The script forgets what is out of the window of the request at hand. A request with an earlier
    time that is executed after it may still need what has been forgotten; it is then counted
    against too few. While Redis still holds all that shares a window with the request at hand, the
    limit is kept in whatever order the times come. -/

namespace Payman
open Schemes

namespace Limiter
variable {window max_req : ℕ} {s : Limiter} {x : Execution}

/-- No window contains too many allowed requests of one key. -/
def Bounded (window max_req : ℕ) (s : Limiter) : Prop :=
  ∀ k t, ((policy window max_req).span s.allowed k t).length ≤ max_req

/-- When the script of `x` starts, Redis still holds every allowed request on its key that some
    window contains together with it. -/
def Remembers (window max_req : ℕ) (s : Limiter) (x : Execution) : Prop :=
  ∀ a ∈ (policy window max_req).near s.allowed x.request,
    a.entry ∈ (s.db.at_ x.time).rows x.request.key

instance (window max_req : ℕ) (s : Limiter) (x : Execution) :
    Decidable (s.Remembers window max_req x) :=
  inferInstanceAs (Decidable (∀ a ∈ _, _))

/-- Every script of `xs` meets the condition `ok` when it starts. -/
def Throughout (window max_req : ℕ) (ok : Limiter → Execution → Prop) :
    Limiter → List Execution → Prop
  | _, [] => True
  | s, x :: xs => ok s x ∧ Throughout window max_req ok (s.execute window max_req x) xs

instance decidableThroughout (window max_req : ℕ) (ok : Limiter → Execution → Prop)
    [∀ s x, Decidable (ok s x)] :
    ∀ (s : Limiter) (xs : List Execution), Decidable (Throughout window max_req ok s xs)
  | _, [] => isTrue trivial
  | s, x :: xs =>
    have := decidableThroughout window max_req ok (s.execute window max_req x) xs
    inferInstanceAs (Decidable (_ ∧ _))

/-- A request is refused, or joins the allowed ones. -/
theorem allowed_execute (window max_req : ℕ) (s : Limiter) (x : Execution) :
    (s.execute window max_req x).allowed = s.allowed ∨
      (s.execute window max_req x).allowed = s.allowed ++ [x.request] := by
  unfold execute
  simp only
  split
  · exact .inr rfl
  · exact .inl rfl

/-- An allowed request was counted against fewer than the limit. -/
theorem counted_of_execute
    (h : (s.execute window max_req x).allowed = s.allowed ++ [x.request]) :
    ((s.db.at_ x.time).zremrangebyscore x.request.key 0 (x.request.now - window)).zcard
      x.request.key < max_req := by
  unfold execute sliding_log_script at h
  simp only [ge_iff_le] at h
  by_cases hle : max_req ≤ ((s.db.at_ x.time).zremrangebyscore x.request.key 0
      (x.request.now - window)).zcard x.request.key
  · simp [hle, is_allowed] at h
  · exact Nat.not_le.mp hle

/-- What Redis remembers it counts: pruning leaves alone whatever shares a window with the
    request. -/
theorem Remembers.near_le (h : s.Remembers window max_req x)
    (hnd : (s.allowed.map (·.member)).Nodup) :
    ((policy window max_req).near s.allowed x.request).length ≤
      ((s.db.at_ x.time).zremrangebyscore x.request.key 0 (x.request.now - window)).zcard
        x.request.key := by
  have hprune := (Redis.zremrangebyscore_self (s.db.at_ x.time) x.request.key 0
    (x.request.now - window)).1
  have hsub : ((policy window max_req).near s.allowed x.request).map (·.entry) ⊆
      ((s.db.at_ x.time).zremrangebyscore x.request.key 0 (x.request.now - window)).rows
        x.request.key := by
    intro e he
    obtain ⟨a, ha, rfl⟩ := List.mem_map.mp he
    rw [hprune]
    refine List.mem_filter.mpr ⟨h a ha, ?_⟩
    obtain ⟨-, hlo, -⟩ := of_decide_eq_true (List.mem_filter.mp ha).2
    have hout : ¬(0 ≤ (a.now : ℤ) ∧ (a.now : ℤ) ≤ x.request.now - window) := fun hin =>
      Int.not_le.mpr hlo hin.2
    simpa [RateRequest.entry] using hout
  have hnodup : (((policy window max_req).near s.allowed x.request).map (·.entry)).Nodup := by
    refine List.Nodup.of_map Scored.member ?_
    rw [List.map_map]
    exact (List.filter_sublist.map _).nodup hnd
  have hlen := (List.subperm_of_subset hnodup hsub).length_le
  rwa [List.length_map, ← Redis.zcard_eq] at hlen

/-- The step lemma. -/
theorem Bounded.execute (h : s.Bounded window max_req) (hx : s.Remembers window max_req x)
    (hnd : (s.allowed.map (·.member)).Nodup) :
    (s.execute window max_req x).Bounded window max_req := by
  intro k t
  rcases allowed_execute window max_req s x with heq | heq
  · rw [heq]
    exact h k t
  · have hnear : ((policy window max_req).near s.allowed x.request).length < max_req :=
      Nat.lt_of_le_of_lt (hx.near_le hnd) (counted_of_execute heq)
    rw [heq]
    exact Policy.length_span_concat (P := policy window max_req) hnear k t (h k t)

/-- The run lemma. -/
theorem Bounded.execute_all : ∀ {xs : List Execution} {s : Limiter}, s.Bounded window max_req →
    Throughout window max_req (Remembers window max_req) s xs →
    ((s.allowed ++ xs.map (·.request)).map (·.member)).Nodup →
    (s.execute_all window max_req xs).Bounded window max_req
  | [], _, h, _, _ => h
  | x :: xs, s, h, ⟨hx, hxs⟩, hnd => by
    rw [List.map_cons, List.append_cons] at hnd
    have hold : (s.allowed.map (·.member)).Nodup :=
      ((List.sublist_append_left ..).trans (List.sublist_append_left ..) |>.map _).nodup hnd
    have hnext : (((s.execute window max_req x).allowed ++ xs.map (·.request)).map
        (·.member)).Nodup := by
      rcases allowed_execute window max_req s x with heq | heq
      · rw [heq]
        exact (((List.sublist_append_left ..).append_right _).map _).nodup hnd
      · rw [heq]
        exact hnd
    exact Bounded.execute_all (s := s.execute window max_req x) (h.execute hx hold) hxs hnext

/-! ### Requests in time order -/

/-- The script of a request, executed `skew` after the request's own time. -/
theorem execute_serve (skew : ℤ) (r : RateRequest) :
    s.execute window max_req ⟨r.now + skew, r⟩ = ⟨(r.serve window max_req skew s.db).1,
      if (r.serve window max_req skew s.db).2 then s.allowed ++ [r] else s.allowed⟩ := rfl

/-- Nothing that counts has been forgotten when the requests come in time order. -/
theorem remembers_of_agrees {skew last : ℤ} (ha : Agrees window skew s.db s.allowed last)
    {r : RateRequest} (hr : last ≤ r.now) : s.Remembers window max_req ⟨r.now + skew, r⟩ := by
  intro a hnear
  obtain ⟨hmem, hnear⟩ := List.mem_filter.mp hnear
  obtain ⟨hkey, hlo, -⟩ := of_decide_eq_true hnear
  have hkept : a ∈ kept window s.allowed r.key r.now :=
    List.mem_filter.mpr ⟨hmem, decide_eq_true ⟨hkey, hlo⟩⟩
  have hrows := (ha.elapse hr).rows r.key r.now (Int.le_refl _)
  have hentry : a.entry ∈ ((s.db.at_ (r.now + skew)).rows r.key).filter
      fun x => decide ((r.now : ℤ) - window < x.score) := by
    rw [hrows]
    exact List.mem_map_of_mem hkept
  exact (List.mem_filter.mp hentry).1

/-- When the script has run, Redis agrees with the requests allowed by then. -/
theorem agrees_execute {skew last : ℤ} (ha : Agrees window skew s.db s.allowed last) (max_req : ℕ)
    {r : RateRequest} (hr : last ≤ r.now) (hnew : ∀ a ∈ s.allowed, a.member ≠ r.member) :
    Agrees window skew (s.execute window max_req ⟨r.now + skew, r⟩).db
      (s.execute window max_req ⟨r.now + skew, r⟩).allowed r.now := by
  obtain ⟨hdec, hnext⟩ := ha.serve max_req hr hnew
  have hallowed : (s.execute window max_req ⟨r.now + skew, r⟩).allowed =
      (policy window max_req).push s.allowed r := by
    rw [execute_serve, hdec]
    rfl
  rw [hallowed]
  exact hnext

/-- Requests in time order meet the condition at every script. -/
theorem remembers_of_ordered {skew : ℤ} : ∀ {rs : List RateRequest} {s : Limiter} {last : ℤ},
    Agrees window skew s.db s.allowed last → (∀ r ∈ rs, last ≤ r.now) →
    rs.Pairwise (fun a b => a.now ≤ b.now) → (rs.map (·.member)).Nodup →
    (∀ a ∈ s.allowed, ∀ r ∈ rs, a.member ≠ r.member) →
    Throughout window max_req (Remembers window max_req) s (rs.map fun r => ⟨r.now + skew, r⟩)
  | [], _, _, _, _, _, _, _ => trivial
  | r :: rs, s, last, ha, hlast, hord, hnd, hnew => by
    rw [List.pairwise_cons] at hord
    rw [List.map_cons, List.nodup_cons] at hnd
    have hr := hlast r (List.mem_cons_self ..)
    have hnext := agrees_execute ha max_req hr fun a hmem => hnew a hmem r (List.mem_cons_self ..)
    refine ⟨remembers_of_agrees ha hr, remembers_of_ordered hnext ?_ hord.2 hnd.2 ?_⟩
    · exact fun r' hr' => Int.ofNat_le.mpr (hord.1 r' hr')
    · intro a hmem r' hr'
      rcases allowed_execute window max_req s ⟨r.now + skew, r⟩ with heq | heq
      · exact hnew a (heq ▸ hmem) r' (List.mem_cons_of_mem _ hr')
      · rcases List.mem_append.mp (heq ▸ hmem) with hmem | hmem
        · exact hnew a hmem r' (List.mem_cons_of_mem _ hr')
        · intro hab
          rw [List.mem_singleton.mp hmem] at hab
          exact hnd.1 (hab ▸ List.mem_map_of_mem hr')

/-! ### The limit -/

/-- The windows of a bounded limiter, closed on either side. -/
theorem Bounded.count_le (h : s.Bounded window max_req) (key : String) (t : ℤ) :
    count_in key (fun u => t ≤ u ∧ u < t + window) s.allowed ≤ max_req ∧
      count_in key (fun u => t < u ∧ u ≤ t + window) s.allowed ≤ max_req := by
  have hshift : count_in key (fun u => t ≤ u ∧ u < t + window) s.allowed =
      count_in key (fun u => t - 1 < u ∧ u ≤ t - 1 + window) s.allowed :=
    count_in_congr (fun u => by omega) _
  exact ⟨hshift ▸ h key (t - 1), h key t⟩

/-- Scripts that meet the condition, from the start. -/
theorem bounded_of_remembers {xs : List Execution} (hnd : (xs.map (·.request.member)).Nodup)
    (hxs : initial.Throughout window max_req (Remembers window max_req) xs) :
    (initial.execute_all window max_req xs).Bounded window max_req := by
  have hnone : initial.Bounded window max_req := fun _ _ => Nat.zero_le _
  refine hnone.execute_all hxs ?_
  rw [initial, List.nil_append, List.map_map]
  exact hnd

/-- Scripts in the order of their requests' times, by a Redis whose clock is `skew` ahead. -/
theorem bounded_of_ordered {rs : List RateRequest} (skew : ℤ) (hstart : ∀ r ∈ rs, 0 ≤ r.now + skew)
    (hord : rs.Pairwise fun a b => a.now ≤ b.now) (hnd : (rs.map (·.member)).Nodup) :
    (initial.execute_all window max_req (rs.map fun r => ⟨r.now + skew, r⟩)).Bounded
      window max_req := by
  refine bounded_of_remembers (by rwa [List.map_map]) ?_
  have hempty : Agrees window skew initial.db initial.allowed (-skew) := by
    have hagrees : Agrees window skew ((Redis.empty true).at_ (-skew + skew)) [] (-skew) :=
      .empty skew true (-skew)
    rwa [Int.add_left_neg] at hagrees
  refine remembers_of_ordered hempty (fun r hr => ?_) hord hnd (fun _ ha => by cases ha)
  have hlo := hstart r hr
  omega

end Limiter

/-! ### What holds in any order -/

/-- CORRECT (the limit in any order): if Redis, whenever a script starts, still holds every allowed
    request on its key that shares a window with the script's own, no half-open window of a key
    contains more than `max_req` allowed requests, in whatever order the scripts are executed. -/
theorem limit_kept {window max_req : ℕ} {xs : List Execution}
    (hnd : (xs.map (·.request.member)).Nodup)
    (hxs : Limiter.initial.Throughout window max_req (Limiter.Remembers window max_req) xs)
    (key : String) (t : ℤ) :
    count_in key (fun u => t ≤ u ∧ u < t + window)
        (Limiter.initial.execute_all window max_req xs).allowed ≤ max_req ∧
      count_in key (fun u => t < u ∧ u ≤ t + window)
        (Limiter.initial.execute_all window max_req xs).allowed ≤ max_req :=
  (Limiter.bounded_of_remembers hnd hxs).count_le key t

/-- Three requests out of order: the second script forgets nothing that the third one needs. -/
def overtaking : List Execution :=
  [⟨1000, ⟨"a", 1000, "m0"⟩⟩, ⟨30000, ⟨"a", 30000, "m1"⟩⟩, ⟨30000, ⟨"a", 999, "m2"⟩⟩]

theorem limit_kept_overtaking :
    count_in "a" (fun u => 999 ≤ u ∧ u < 999 + WINDOW_MS)
        (Limiter.initial.execute_all WINDOW_MS MAX_REQUESTS overtaking).allowed ≤ MAX_REQUESTS ∧
      count_in "a" (fun u => 999 < u ∧ u ≤ 999 + WINDOW_MS)
        (Limiter.initial.execute_all WINDOW_MS MAX_REQUESTS overtaking).allowed ≤ MAX_REQUESTS :=
  limit_kept (by decide +kernel) (by decide +kernel) "a" 999

/-- CORRECT (the limit in time order): what Redis has forgotten no longer counts when the scripts are
    executed in the order of their requests' times, so the limit is kept. -/
theorem limit_kept_in_order {window max_req : ℕ} {rs : List RateRequest} (skew : ℤ)
    (hstart : ∀ r ∈ rs, 0 ≤ r.now + skew) (hord : rs.Pairwise fun a b => a.now ≤ b.now)
    (hnd : (rs.map (·.member)).Nodup) (key : String) (t : ℤ) :
    count_in key (fun u => t ≤ u ∧ u < t + window)
        (Limiter.initial.execute_all window max_req (rs.map fun r => ⟨r.now + skew, r⟩)).allowed ≤
          max_req ∧
      count_in key (fun u => t < u ∧ u ≤ t + window)
        (Limiter.initial.execute_all window max_req (rs.map fun r => ⟨r.now + skew, r⟩)).allowed ≤
          max_req :=
  (Limiter.bounded_of_ordered skew hstart hord hnd).count_le key t

/-- A hundred requests at one time; a request that comes a window later prunes them all; and one
    with a time a millisecond before, whose script is executed after it. -/
def forgotten : List Execution :=
  (List.range 100).map (fun n => ⟨1000, ⟨"a", 1000, toString n⟩⟩) ++
    [⟨61000, ⟨"a", 61000, "later"⟩⟩, ⟨61000, ⟨"a", 60999, "earlier"⟩⟩]

theorem limit_exceeded : ¬∀ xs : List Execution, (xs.map (·.request.member)).Nodup →
    (xs.map (·.time)).Pairwise (· ≤ ·) → ∀ key (t : ℤ),
      count_in key (fun u => t ≤ u ∧ u < t + WINDOW_MS)
        (Limiter.initial.execute_all WINDOW_MS MAX_REQUESTS xs).allowed ≤ MAX_REQUESTS := by
  intro h
  have hle := h forgotten (by decide +kernel) (by decide +kernel) "a" 1000
  have hcount : count_in "a" (fun u => (1000 : ℤ) ≤ u ∧ u < 1000 + WINDOW_MS)
      (Limiter.initial.execute_all WINDOW_MS MAX_REQUESTS forgotten).allowed = 101 := by
    decide +kernel
  rw [hcount] at hle
  exact absurd hle (by decide)

end Payman
