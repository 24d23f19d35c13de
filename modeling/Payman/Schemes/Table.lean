import Mathlib.Data.List.Nodup
import Mathlib.Data.List.Induction
import Mathlib.Data.List.Perm.Basic

/-! Keyed tables.

    A table is the list of its rows together with the fact that no two rows share a primary key, so
    a duplicate key cannot be built. `find` reads by key, `put` inserts a row or replaces the row
    with its key, `erase` deletes by key; rows keep their place, a new row goes to the end. -/

namespace Schemes

/-- Rows that carry their own primary key. -/
class Keyed (ρ : Type) (κ : outParam Type) where
  key : ρ → κ

/-- A table: its rows, no two with the same key. -/
structure Table (ρ : Type) {κ : Type} [Keyed ρ κ] where
  rows : List ρ
  nodup : (rows.map Keyed.key).Nodup

namespace Table
variable {ρ κ : Type} [Keyed ρ κ]

/-- The table without rows. -/
def empty : Table ρ := ⟨[], List.nodup_nil⟩

theorem ext_rows {t t' : Table ρ} (h : t.rows = t'.rows) : t = t' := by
  cases t; cases t'; cases h; rfl

variable [DecidableEq κ]

/-- The row with primary key `k`. -/
def find (t : Table ρ) (k : κ) : Option ρ := t.rows.find? (fun r => decide (Keyed.key r = k))

/-- `x` with its row replaced by `r` when the keys agree. -/
def swap (r x : ρ) : ρ := if Keyed.key x = Keyed.key r then r else x

theorem key_swap (r x : ρ) : Keyed.key (swap r x) = Keyed.key x := by
  unfold swap; split
  · rename_i h; exact h.symm
  · rfl

theorem map_key_swap (r : ρ) (l : List ρ) :
    (l.map (swap r)).map Keyed.key = l.map Keyed.key := by
  rw [List.map_map]; exact List.map_congr_left fun x _ => key_swap r x

theorem find_eq_none {t : Table ρ} {k : κ} : t.find k = none ↔ ∀ r ∈ t.rows, Keyed.key r ≠ k := by
  simp [find]

theorem find_eq_some {t : Table ρ} {k : κ} {r : ρ} :
    t.find k = some r ↔ r ∈ t.rows ∧ Keyed.key r = k := by
  constructor
  · intro h
    exact ⟨List.mem_of_find?_eq_some h, by simpa using List.find?_some h⟩
  · rintro ⟨hr, rfl⟩
    cases hf : t.find (Keyed.key r) with
    | none => exact absurd rfl (find_eq_none.mp hf r hr)
    | some x =>
      have hx : x ∈ t.rows := List.mem_of_find?_eq_some hf
      have hk : Keyed.key x = Keyed.key r := by simpa using List.find?_some hf
      rw [List.inj_on_of_nodup_map t.nodup hx hr hk]

theorem find_key {t : Table ρ} {k : κ} {r : ρ} (h : t.find k = some r) : Keyed.key r = k :=
  (find_eq_some.mp h).2

theorem mem_of_find {t : Table ρ} {k : κ} {r : ρ} (h : t.find k = some r) : r ∈ t.rows :=
  (find_eq_some.mp h).1

theorem find_of_mem {t : Table ρ} {r : ρ} (h : r ∈ t.rows) : t.find (Keyed.key r) = some r :=
  find_eq_some.mpr ⟨h, rfl⟩

/-- The rows after `put`: the row with `r`'s key becomes `r`, or `r` is appended. -/
def putRows (t : Table ρ) (r : ρ) : List ρ :=
  if (t.find (Keyed.key r)).isSome then t.rows.map (swap r) else t.rows ++ [r]

/-- Insert `r`, or replace the row with `r`'s key. -/
def put (t : Table ρ) (r : ρ) : Table ρ where
  rows := t.putRows r
  nodup := by
    unfold putRows; split
    · rw [map_key_swap]; exact t.nodup
    · rename_i h
      have hn : t.find (Keyed.key r) = none := by simpa using h
      rw [List.map_append, List.nodup_append]
      refine ⟨t.nodup, List.nodup_singleton _, ?_⟩
      rintro k hk k' hk' rfl
      obtain ⟨x, hx, rfl⟩ := List.mem_map.mp hk
      exact find_eq_none.mp hn x hx (by simpa using hk')

/-- Delete the row with key `k`, if there is one. -/
def erase (t : Table ρ) (k : κ) : Table ρ where
  rows := t.rows.filter (fun r => decide (Keyed.key r ≠ k))
  nodup := (List.filter_sublist.map _).nodup t.nodup

/-- Keep the rows that satisfy `p`. -/
def filter (t : Table ρ) (p : ρ → Bool) : Table ρ where
  rows := t.rows.filter p
  nodup := (List.filter_sublist.map _).nodup t.nodup

omit [DecidableEq κ] in
theorem rows_filter (t : Table ρ) (p : ρ → Bool) : (t.filter p).rows = t.rows.filter p := rfl

theorem rows_put_of_none {t : Table ρ} {r : ρ} (h : t.find (Keyed.key r) = none) :
    (t.put r).rows = t.rows ++ [r] := by simp [put, putRows, h]

theorem rows_put_of_some {t : Table ρ} {r x : ρ} (h : t.find (Keyed.key r) = some x) :
    (t.put r).rows = t.rows.map (swap r) := by simp [put, putRows, h]

theorem mem_put {t : Table ρ} {r x : ρ} :
    x ∈ (t.put r).rows ↔ x = r ∨ (x ∈ t.rows ∧ Keyed.key x ≠ Keyed.key r) := by
  cases hf : t.find (Keyed.key r) with
  | none =>
    rw [rows_put_of_none hf, List.mem_append, List.mem_singleton]
    constructor
    · rintro (h | h)
      · exact .inr ⟨h, find_eq_none.mp hf x h⟩
      · exact .inl h
    · rintro (h | ⟨h, _⟩)
      · exact .inr h
      · exact .inl h
  | some y =>
    rw [rows_put_of_some hf, List.mem_map]
    constructor
    · rintro ⟨z, hz, rfl⟩
      unfold swap; split
      · exact .inl rfl
      · rename_i hne; exact .inr ⟨hz, hne⟩
    · rintro (rfl | ⟨h, hne⟩)
      · exact ⟨y, mem_of_find hf, if_pos (find_key hf)⟩
      · exact ⟨x, h, if_neg hne⟩

theorem mem_erase {t : Table ρ} {k : κ} {x : ρ} :
    x ∈ (t.erase k).rows ↔ x ∈ t.rows ∧ Keyed.key x ≠ k := by simp [erase]

@[simp] theorem find_put (t : Table ρ) (r : ρ) (k : κ) :
    (t.put r).find k = if Keyed.key r = k then some r else t.find k := by
  by_cases hk : Keyed.key r = k
  · rw [if_pos hk, find_eq_some]
    exact ⟨mem_put.mpr (.inl rfl), hk⟩
  · rw [if_neg hk]
    ext x
    rw [find_eq_some, find_eq_some, mem_put]
    constructor
    · rintro ⟨rfl | ⟨hx, _⟩, hxk⟩
      · exact absurd hxk hk
      · exact ⟨hx, hxk⟩
    · rintro ⟨hx, rfl⟩
      exact ⟨.inr ⟨hx, fun h => hk h.symm⟩, rfl⟩

theorem find_put_ne (t : Table ρ) {r : ρ} {k : κ} (h : Keyed.key r ≠ k) :
    (t.put r).find k = t.find k := by rw [find_put, if_neg h]

/-- The second row version hides the first. -/
theorem put_put (t : Table ρ) {r r' : ρ} (h : Keyed.key r' = Keyed.key r) :
    (t.put r).put r' = t.put r' := by
  refine ext_rows ?_
  have hfind : (t.put r).find (Keyed.key r') = some r := by rw [h, find_put, if_pos rfl]
  rw [rows_put_of_some hfind]
  cases hf : t.find (Keyed.key r) with
  | none =>
    have hkeep : ∀ x ∈ t.rows, swap r' x = x := fun x hx => by
      rw [swap, if_neg (h ▸ find_eq_none.mp hf x hx)]
    rw [rows_put_of_none hf, rows_put_of_none (h ▸ hf), List.map_append,
      List.map_congr_left hkeep, List.map_id']
    simp [swap, h]
  | some x =>
    rw [rows_put_of_some hf, rows_put_of_some (h ▸ hf), List.map_map]
    refine List.map_congr_left fun y _ => ?_
    rw [Function.comp_apply, swap, swap, swap, h]
    split
    · rw [if_pos rfl]
    · rfl

/-- The row that is there. -/
theorem put_self {t : Table ρ} {r : ρ} (h : t.find (Keyed.key r) = some r) : t.put r = t := by
  refine ext_rows ?_
  rw [rows_put_of_some h]
  refine (List.map_congr_left fun y hy => ?_).trans (List.map_id' _)
  rw [swap]
  split
  · rename_i hk
    exact (Option.some.inj ((find_of_mem hy).symm.trans (hk ▸ h))).symm
  · rfl

theorem find_put_cases {t : Table ρ} {r x : ρ} {k : κ} (h : (t.put r).find k = some x) :
    x = r ∨ t.find k = some x := by
  rw [find_put] at h
  split at h
  · exact .inl (Option.some.inj h).symm
  · exact .inr h

theorem find_erase (t : Table ρ) (k k' : κ) :
    (t.erase k).find k' = if k = k' then none else t.find k' := by
  ext x
  rw [find_eq_some, mem_erase]
  split
  · rename_i h; subst h
    simp
  · rename_i h
    rw [find_eq_some]
    constructor
    · rintro ⟨⟨hx, _⟩, hk⟩; exact ⟨hx, hk⟩
    · rintro ⟨hx, rfl⟩; exact ⟨⟨hx, Ne.symm h⟩, rfl⟩

theorem find_of_erase {t : Table ρ} {x : ρ} {k k' : κ} (h : (t.erase k').find k = some x) :
    t.find k = some x := by
  rw [find_erase] at h
  split at h
  · cases h
  · exact h

/-- Selecting by key finds one row at most. -/
theorem filter_key (t : Table ρ) (k : κ) :
    t.rows.filter (fun r => decide (Keyed.key r = k)) = (t.find k).toList := by
  rw [find]
  obtain ⟨rows, hnd⟩ := t
  induction rows with
  | nil => rfl
  | cons r l ih =>
    rw [List.map_cons, List.nodup_cons] at hnd
    by_cases hk : Keyed.key r = k
    · have hrest : l.filter (fun r => decide (Keyed.key r = k)) = [] := by
        rw [List.filter_eq_nil_iff]
        intro x hx hxk
        exact hnd.1 (List.mem_map.mpr ⟨x, hx, (of_decide_eq_true hxk).trans hk.symm⟩)
      rw [List.filter_cons_of_pos (by simpa using hk), hrest,
        List.find?_cons_of_pos (by simpa using hk)]
      rfl
    · rw [List.filter_cons_of_neg (by simpa using hk), ih hnd.2,
        List.find?_cons_of_neg (by simpa using hk)]

/-- A selection sees nothing of a `put` if it takes neither the old row nor the new one. -/
theorem filter_rows_put {t : Table ρ} {r : ρ} {p : ρ → Bool} (hr : p r = false)
    (hold : ∀ x, t.find (Keyed.key r) = some x → p x = false) :
    (t.put r).rows.filter p = t.rows.filter p := by
  cases hf : t.find (Keyed.key r) with
  | none => simp [rows_put_of_none hf, hr]
  | some x =>
    have hother : ∀ y ∈ t.rows, p y = true → Keyed.key y ≠ Keyed.key r := fun y hy hpy hk => by
      rw [hold y (find_eq_some.mpr ⟨hy, hk⟩)] at hpy
      cases hpy
    have hcomp : t.rows.filter (p ∘ swap r) = t.rows.filter p := by
      refine List.filter_congr fun y hy => ?_
      rw [Function.comp_apply, swap]
      split
      · rename_i hk
        rw [hr, hold y (find_eq_some.mpr ⟨hy, hk⟩)]
      · rfl
    rw [rows_put_of_some hf, List.filter_map, hcomp]
    conv_rhs => rw [← List.map_id (t.rows.filter p)]
    refine List.map_congr_left fun y hy => if_neg ?_
    exact hother y (List.mem_of_mem_filter hy) (List.of_mem_filter hy)

theorem filter_rows_erase {t : Table ρ} {k : κ} {p : ρ → Bool}
    (hold : ∀ x, t.find k = some x → p x = false) :
    (t.erase k).rows.filter p = t.rows.filter p := by
  rw [erase, List.filter_filter]
  refine List.filter_congr fun y hy => ?_
  by_cases hk : Keyed.key y = k
  · simp [hold y (find_eq_some.mpr ⟨hy, hk⟩)]
  · simp [hk]

/-- Selecting commutes with looking up. -/
theorem find_filter (t : Table ρ) (p : ρ → Bool) (k : κ) :
    (t.filter p).find k = (t.find k).filter p := by
  ext r
  rw [find_eq_some, Option.filter_eq_some_iff, find_eq_some, filter, List.mem_filter]
  constructor
  · rintro ⟨⟨hr, hp⟩, hk⟩
    exact ⟨⟨hr, hk⟩, hp⟩
  · rintro ⟨⟨hr, hk⟩, hp⟩
    exact ⟨⟨hr, hp⟩, hk⟩

/-- Selecting commutes with a `put` of a selected row, new or for a selected row. -/
theorem filter_put {t : Table ρ} {r : ρ} {p : ρ → Bool} (hr : p r = true)
    (hold : ∀ x, t.find (Keyed.key r) = some x → p x = true) :
    (t.put r).filter p = (t.filter p).put r := by
  apply ext_rows
  cases hf : t.find (Keyed.key r) with
  | none =>
    have hf' : (t.filter p).find (Keyed.key r) = none := by rw [find_filter, hf]; rfl
    rw [rows_put_of_none hf', rows_filter, rows_put_of_none hf, List.filter_append]
    simp [rows_filter, hr]
  | some x =>
    have hf' : (t.filter p).find (Keyed.key r) = some x := by
      rw [find_filter, hf, Option.filter_some, if_pos (hold x hf)]
    have hcomp : t.rows.filter (p ∘ swap r) = t.rows.filter p := by
      refine List.filter_congr fun y hy => ?_
      rw [Function.comp_apply, swap]
      split
      · rename_i hk
        rw [hr, hold y (find_eq_some.mpr ⟨hy, hk⟩)]
      · rfl
    rw [rows_put_of_some hf', rows_filter, rows_put_of_some hf, List.filter_map, hcomp, rows_filter]

omit [DecidableEq κ] in
/-- A selection of what another selection keeps. -/
theorem filter_of_filter {t t' : Table ρ} {p q : ρ → Bool} (hp : ∀ r, p r = true → q r = true)
    (h : t.rows.filter q = t'.rows.filter q) : t.filter p = t'.filter p := by
  have hand : (fun r => p r && q r) = p := by
    funext r
    by_cases hr : p r = true
    · rw [hr, hp r hr]
      rfl
    · rw [Bool.eq_false_iff.mpr hr]
      rfl
  have hfilter : ∀ t : Table ρ, t.rows.filter p = (t.rows.filter q).filter p := fun t => by
    rw [List.filter_filter, hand]
  apply ext_rows
  rw [rows_filter, rows_filter, hfilter, hfilter t', h]

/-! ### Many rows at once -/

theorem find_foldl_erase : ∀ (l : List κ) (t : Table ρ) (k : κ),
    (l.foldl erase t).find k = if k ∈ l then none else t.find k
  | [], _, _ => by simp
  | k' :: l, t, k => by
    rw [List.foldl_cons, find_foldl_erase l, find_erase]
    by_cases hl : k ∈ l
    · simp [hl]
    · by_cases hk : k' = k
      · simp [hk]
      · simp [hl, hk, Ne.symm hk]

theorem find_foldl_put_eq_none : ∀ (l : List ρ) (t : Table ρ) (k : κ),
    (l.foldl put t).find k = none ↔ t.find k = none ∧ k ∉ l.map Keyed.key
  | [], _, _ => by simp
  | r :: l, t, k => by
    rw [List.foldl_cons, find_foldl_put_eq_none l, find_put, List.map_cons, List.mem_cons]
    by_cases hk : Keyed.key r = k
    · simp [hk]
    · simp [hk, Ne.symm hk]

theorem rows_foldl_erase : ∀ (l : List κ) (t : Table ρ),
    (l.foldl erase t).rows = t.rows.filter fun r => decide (Keyed.key r ∉ l)
  | [], _ => by simp
  | k :: l, t => by
    rw [List.foldl_cons, rows_foldl_erase l]
    simp only [erase, List.filter_filter]
    refine List.filter_congr fun r _ => ?_
    simp [Bool.and_comm]

/-- New rows go to the end, in order. -/
theorem rows_foldl_put : ∀ (l : List ρ) (t : Table ρ), (l.map Keyed.key).Nodup →
    (∀ r ∈ l, t.find (Keyed.key r) = none) → (l.foldl put t).rows = t.rows ++ l
  | [], _, _, _ => by simp
  | r :: l, t, hnd, hnew => by
    rw [List.map_cons, List.nodup_cons] at hnd
    have hr := hnew r (List.mem_cons_self ..)
    rw [List.foldl_cons, rows_foldl_put l _ hnd.2 fun x hx => ?_, rows_put_of_none hr,
      List.append_assoc, List.singleton_append]
    have hne : Keyed.key r ≠ Keyed.key x := fun h => hnd.1 (h ▸ List.mem_map_of_mem hx)
    rw [find_put_ne _ hne]
    exact hnew x (List.mem_cons_of_mem _ hx)

end Table

/-- `l` in the order that `order` lists its positions, or as it is when `order` is no arrangement of
    them: what a query without ORDER BY may return. -/
def arrange {α : Type} (order : List ℕ) (l : List α) : List α :=
  if order.Perm (List.range l.length) then order.filterMap (fun i => l[i]?) else l

theorem filterMap_getElem?_range {α : Type} (l : List α) :
    (List.range l.length).filterMap (fun i => l[i]?) = l := by
  induction l using List.reverseRecOn with
  | nil => rfl
  | append_singleton l a ih =>
    have hl : (List.range l.length).filterMap (fun i => (l ++ [a])[i]?) = l :=
      (List.filterMap_congr fun _ hj =>
        List.getElem?_append_left (List.mem_range.mp hj)).trans ih
    rw [List.length_append, List.length_singleton, List.range_succ, List.filterMap_append, hl]
    simp

theorem arrange_perm {α : Type} (order : List ℕ) (l : List α) : (arrange order l).Perm l := by
  unfold arrange; split
  · rename_i h
    have hp := h.filterMap (fun i => l[i]?)
    rwa [filterMap_getElem?_range] at hp
  · exact List.Perm.refl _

/-- Dropping some elements and mapping the others keeps what `h` says of them in order. -/
theorem map_filterMap_sublist {α β γ : Type} {g : α → Option β} {f : β → γ} {h : α → γ}
    (hg : ∀ a b, g a = some b → f b = h a) : ∀ l : List α,
    ((l.filterMap g).map f).Sublist (l.map h) := by
  intro l
  induction l with
  | nil => exact List.Sublist.refl _
  | cons a l ih =>
    cases ha : g a with
    | none =>
      rw [List.filterMap_cons_none ha]
      exact ih.cons _
    | some b =>
      rw [List.filterMap_cons_some ha, List.map_cons, List.map_cons, hg a b ha]
      exact ih.cons_cons _

theorem mem_arrange {α : Type} {order : List ℕ} {l : List α} {x : α} :
    x ∈ arrange order l ↔ x ∈ l := (arrange_perm order l).mem_iff

end Schemes
