import Payman.Schemes.Table
import Mathlib.Data.Int.Notation
import Mathlib.Data.Nat.Notation
import Mathlib.Logic.Function.Basic

/-! Redis, as far as the rate limiter uses it: sorted sets that expire.

    A sorted set has unique members; the commands used here do not see its order. A key past its
    deadline is gone for every command. `drops := false` is a Redis that keeps such keys. -/

namespace Payman
open Schemes

/-- A member of a sorted set. -/
structure Scored where
  member : String
  score : ℤ
  deriving DecidableEq

instance : Keyed Scored String := ⟨Scored.member⟩

@[simp] theorem key_scored (x : Scored) : Keyed.key x = x.member := rfl

/-- A key: its sorted set, and when it expires, in milliseconds. -/
structure RedisKey where
  value : Table Scored
  expires_at : Option ℤ

structure Redis where
  keys : String → Option RedisKey
  clock : ℤ
  drops : Bool

namespace Redis

/-- Without any key. -/
def empty (drops : Bool) : Redis := ⟨fun _ => none, 0, drops⟩

def expired (db : Redis) (k : RedisKey) : Bool :=
  db.drops && k.expires_at.any fun e => decide (e < db.clock)

/-- The key as every command sees it: one that has expired is not there. -/
def get (db : Redis) (key : String) : Option RedisKey :=
  (db.keys key).filter fun k => !db.expired k

def set (db : Redis) (key : String) (k : Option RedisKey) : Redis :=
  { db with keys := Function.update db.keys key k }

/-- The same Redis when its clock shows `t`. -/
def at_ (db : Redis) (t : ℤ) : Redis := { db with clock := t }

/-- `ZREMRANGEBYSCORE key min max`: both bounds are included; an empty set is deleted. -/
def zremrangebyscore (key : String) (min max : ℤ) (db : Redis) : Redis :=
  match db.get key with
  | none => db
  | some k =>
    let value := k.value.filter fun x => !decide (min ≤ x.score ∧ x.score ≤ max)
    db.set key (if value.rows.isEmpty then none else some { k with value })

def zcard (key : String) (db : Redis) : ℕ :=
  match db.get key with
  | none => 0
  | some k => k.value.rows.length

/-- `ZADD key score member`: a new key does not expire. -/
def zadd (key : String) (score : ℤ) (member : String) (db : Redis) : Redis :=
  match db.get key with
  | none => db.set key (some ⟨Table.empty.put ⟨member, score⟩, none⟩)
  | some k => db.set key (some { k with value := k.value.put ⟨member, score⟩ })

def pexpire (key : String) (ms : ℕ) (db : Redis) : Redis :=
  match db.get key with
  | none => db
  | some k => db.set key (some { k with expires_at := some (db.clock + ms) })

/-! ### What a key holds, and until when -/

def rows (db : Redis) (key : String) : List Scored :=
  match db.get key with
  | none => []
  | some k => k.value.rows

def deadline (db : Redis) (key : String) : Option ℤ := (db.get key).bind (·.expires_at)

variable {db : Redis} {key key' : String} {k : RedisKey}

@[simp] theorem clock_set (o : Option RedisKey) : (db.set key o).clock = db.clock := rfl

@[simp] theorem drops_set (o : Option RedisKey) : (db.set key o).drops = db.drops := rfl

theorem get_set_ne (h : key' ≠ key) (o : Option RedisKey) :
    (db.set key o).get key' = db.get key' := by
  have hkeys : (db.set key o).keys key' = db.keys key' := Function.update_of_ne h ..
  rw [get, get, hkeys]
  rfl

theorem get_set_self (o : Option RedisKey) :
    (db.set key o).get key = o.filter fun k => !db.expired k := by
  have hkeys : (db.set key o).keys key = o := Function.update_self ..
  rw [get, hkeys]
  rfl

theorem get_set_some (h : db.expired k = false) : (db.set key (some k)).get key = some k := by
  rw [get_set_self, Option.filter_some, h]
  rfl

theorem alive_of_get (h : db.get key = some k) : db.expired k = false := by
  have hk := (Option.filter_eq_some_iff.mp h).2
  simpa using hk

theorem rows_of_get (h : db.get key = some k) : db.rows key = k.value.rows := by rw [rows, h]

theorem rows_of_none (h : db.get key = none) : db.rows key = [] := by rw [rows, h]

theorem deadline_of_get (h : db.get key = some k) : db.deadline key = k.expires_at := by
  rw [deadline, h]
  rfl

theorem deadline_of_none (h : db.get key = none) : db.deadline key = none := by
  rw [deadline, h]
  rfl

theorem zcard_eq : db.zcard key = (db.rows key).length := by
  unfold zcard rows
  cases db.get key <;> rfl

/-! ### What the commands do -/

theorem get_zremrangebyscore_ne (h : key' ≠ key) (min max : ℤ) :
    (db.zremrangebyscore key min max).get key' = db.get key' := by
  unfold zremrangebyscore
  split
  · rfl
  · exact get_set_ne h _

theorem zremrangebyscore_self (db : Redis) (key : String) (min max : ℤ) :
    (db.zremrangebyscore key min max).rows key =
        (db.rows key).filter (fun x => !decide (min ≤ x.score ∧ x.score ≤ max)) ∧
      ∀ e, (db.zremrangebyscore key min max).deadline key = some e → db.deadline key = some e := by
  unfold zremrangebyscore
  cases hk : db.get key with
  | none => simp [rows_of_none hk]
  | some k =>
    have halive := alive_of_get hk
    simp only [rows_of_get hk, deadline_of_get hk]
    split
    · rename_i hemp
      have hget : (db.set key none).get key = none := get_set_self none
      rw [rows_of_none hget, deadline_of_none hget]
      exact ⟨(List.isEmpty_iff.mp hemp).symm, by simp⟩
    · have hget : (db.set key (some { k with
          value := k.value.filter fun x => !decide (min ≤ x.score ∧ x.score ≤ max) })).get key =
          some { k with
            value := k.value.filter fun x => !decide (min ≤ x.score ∧ x.score ≤ max) } :=
        get_set_some halive
      rw [rows_of_get hget, deadline_of_get hget]
      exact ⟨rfl, fun _ h => h⟩

theorem get_zadd_ne (h : key' ≠ key) (score : ℤ) (member : String) :
    (db.zadd key score member).get key' = db.get key' := by
  unfold zadd
  split <;> exact get_set_ne h _

/-- A new member. -/
theorem zadd_self (score : ℤ) {member : String} (h : ∀ x ∈ db.rows key, x.member ≠ member) :
    ∃ k, (db.zadd key score member).get key = some k ∧
      k.value.rows = db.rows key ++ [⟨member, score⟩] := by
  unfold zadd
  cases hk : db.get key with
  | none =>
    have halive : db.expired ⟨Table.empty.put ⟨member, score⟩, none⟩ = false := by simp [expired]
    exact ⟨_, get_set_some halive, by rw [rows_of_none hk]; rfl⟩
  | some k =>
    rw [rows_of_get hk] at h ⊢
    have hnew : k.value.find member = none := Table.find_eq_none.mpr h
    have halive : db.expired { k with value := k.value.put ⟨member, score⟩ } = db.expired k := rfl
    rw [alive_of_get hk] at halive
    exact ⟨_, get_set_some halive, Table.rows_put_of_none hnew⟩

theorem get_pexpire_ne (h : key' ≠ key) (ms : ℕ) :
    (db.pexpire key ms).get key' = db.get key' := by
  unfold pexpire
  split
  · rfl
  · exact get_set_ne h _

theorem pexpire_self (h : db.get key = some k) (ms : ℕ) :
    (db.pexpire key ms).get key = some { k with expires_at := some (db.clock + ms) } := by
  have halive : db.expired { k with expires_at := some (db.clock + ms) } = false := by
    simp only [expired, Option.any_some, Bool.and_eq_false_imp, decide_eq_false_iff_not]
    intro _
    omega
  unfold pexpire
  simp only [h]
  exact get_set_some halive

/-- As time passes a key stays as it is until its deadline has passed. -/
theorem get_at {t : ℤ} (ht : db.clock ≤ t) (key : String) : (db.at_ t).get key = db.get key ∨
    ((db.at_ t).get key = none ∧ ∃ e, db.deadline key = some e ∧ e < t) := by
  have hkeys : (db.at_ t).keys key = db.keys key := rfl
  have hdrops : (db.at_ t).drops = db.drops := rfl
  cases hk : db.keys key with
  | none =>
    left
    rw [get, get, hkeys, hk]
    rfl
  | some k =>
    have hget : db.get key = if db.expired k then none else some k := by
      rw [get, hk, Option.filter_some]
      cases db.expired k <;> rfl
    have hget' : (db.at_ t).get key = if (db.at_ t).expired k then none else some k := by
      rw [get, hkeys, hk, Option.filter_some]
      cases (db.at_ t).expired k <;> rfl
    by_cases hnow : db.expired k
    · -- what has expired stays so
      have hlater : (db.at_ t).expired k = true := by
        simp only [expired, Bool.and_eq_true, Option.any_eq_true, decide_eq_true_eq] at hnow ⊢
        obtain ⟨hd, e, he, hlt⟩ := hnow
        exact ⟨hd, e, he, Int.lt_of_lt_of_le hlt ht⟩
      left
      rw [hget, hget', if_pos hnow, if_pos hlater]
    · by_cases hlater : (db.at_ t).expired k
      · right
        have hsame : db.get key = some k := by rw [hget, if_neg hnow]
        rw [if_pos hlater] at hget'
        simp only [expired, Bool.and_eq_true, Option.any_eq_true, decide_eq_true_eq] at hlater
        obtain ⟨-, e, he, hlt⟩ := hlater
        exact ⟨hget', e, (deadline_of_get hsame).trans he, hlt⟩
      · left
        rw [hget, hget', if_neg hnow, if_neg hlater]

end Redis

end Payman
