import IotTransfer.Core.Bytes
import Mathlib.Algebra.BigOperators.Fin
import Mathlib.Algebra.BigOperators.Ring.Finset
import Mathlib.Data.List.Nodup
import Mathlib.Data.List.Range
import Mathlib.Data.Nat.ModEq
import Mathlib.Tactic.Ring
import Mathlib.Tactic.Linarith

/-!
# Little-endian counters

A byte array read as a number, least significant byte first.

An increment that is written by hand, with its own treatment of the carry, is hard to follow byte by
byte and easy to follow as a number.  `leNat_update` says what a store to one byte does to the
number: it moves it by the difference of the old and the new byte, times the weight of the byte.
Every branch of such an increment is then a sum, and whether the carry was taken along is a question
about that sum.  `leNat_add_byte` and `leNat_add_byte_wrap` are the two cases of adding to a byte,
with room and without.  To show that a result is not what it should be, it is enough to look at the
bytes below some index, since these fix the number modulo a power of 256 (`leNat_modEq_of_agree`).

The last section is about counters that come round: a periodic sequence, injective on one period,
has no repetition among its first `m` values exactly when `m` is at most the period.
-/

namespace Firmware

open Finset

variable {n : ℕ}

/-- The number a byte array stands for, least significant byte first. -/
def leNat (b : Bytes n) : ℕ := ∑ i : Fin n, (b i).toNat * 256 ^ i.1

/-- Storing `v` at index `i` exchanges the old byte's share of the number for the new one's. -/
lemma leNat_update (b : Bytes n) (i : Fin n) (v : UInt8) :
    leNat (Function.update b i v) + (b i).toNat * 256 ^ i.1
      = leNat b + v.toNat * 256 ^ i.1 := by
  simp only [leNat]
  rw [← Finset.add_sum_erase _ _ (Finset.mem_univ i),
    ← Finset.add_sum_erase (a := i) univ (fun j => (b j).toNat * 256 ^ j.1) (Finset.mem_univ i)]
  have hrest : ∑ j ∈ univ.erase i, (Function.update b i v j).toNat * 256 ^ j.1
      = ∑ j ∈ univ.erase i, (b j).toNat * 256 ^ j.1 := by
    refine Finset.sum_congr rfl fun j hj => ?_
    rw [Function.update_of_ne (Finset.ne_of_mem_erase hj)]
  rw [hrest, Function.update_self]
  omega

/-- Adding `k` to a byte that has room for it. -/
lemma leNat_add_byte (b : Bytes n) (i : Fin n) (k : UInt8) (h : (b i).toNat + k.toNat < 256) :
    leNat (Function.update b i (b i + k)) = leNat b + k.toNat * 256 ^ i.1 := by
  have hu := leNat_update b i (b i + k)
  have hk : (b i + k).toNat = (b i).toNat + k.toNat := by
    rw [UInt8.toNat_add]
    exact Nat.mod_eq_of_lt h
  rw [hk, Nat.add_mul] at hu
  omega

/-- Adding `k` to a byte that wraps: the number is short of the sum by one unit of the next byte. -/
lemma leNat_add_byte_wrap (b : Bytes n) (i : Fin n) (k : UInt8)
    (h : 256 ≤ (b i).toNat + k.toNat) :
    leNat (Function.update b i (b i + k)) + 256 ^ (i.1 + 1) = leNat b + k.toNat * 256 ^ i.1 := by
  have hu := leNat_update b i (b i + k)
  have hk : (b i + k).toNat + 256 = (b i).toNat + k.toNat := by
    have h1 := (b i).toNat_lt
    have h2 := k.toNat_lt
    rw [UInt8.toNat_add]
    omega
  have hm : (b i + k).toNat * 256 ^ i.1 + 256 ^ (i.1 + 1)
      = (b i).toNat * 256 ^ i.1 + k.toNat * 256 ^ i.1 := by
    rw [pow_succ, Nat.mul_comm _ 256, ← Nat.add_mul, hk, Nat.add_mul]
  omega

/-- Reading off the least significant byte. -/
lemma leNat_succ (b : Bytes (n + 1)) :
    leNat b = (b 0).toNat + 256 * leNat (fun i : Fin n => b i.succ) := by
  simp only [leNat, Fin.sum_univ_succ, Finset.mul_sum]
  congr 1
  · simp
  · refine Finset.sum_congr rfl fun i _ => ?_
    rw [Fin.val_succ, pow_succ]
    ring

lemma leNat_lt : ∀ {n : ℕ} (b : Bytes n), leNat b < 256 ^ n
  | 0, b => by simp [leNat]
  | n + 1, b => by
      have ih := leNat_lt (fun i : Fin n => b i.succ)
      have hb := (b 0).toNat_lt
      rw [leNat_succ, pow_succ]
      omega

/-- Arrays that agree below index `k` are congruent modulo the weight of byte `k`. -/
lemma leNat_modEq_of_agree : ∀ {n : ℕ} (a b : Bytes n) (k : ℕ),
    (∀ i : Fin n, i.1 < k → a i = b i) → leNat a ≡ leNat b [MOD 256 ^ k]
  | 0, a, b, k, _ => by simp [leNat, Nat.ModEq]
  | n + 1, a, b, 0, _ => by simp [Nat.modEq_one]
  | n + 1, a, b, k + 1, h => by
      have ih := leNat_modEq_of_agree (fun i : Fin n => a i.succ) (fun i => b i.succ) k
        (fun i hi => h i.succ (by simpa using hi))
      rw [leNat_succ, leNat_succ, h 0 (by simp), pow_succ, Nat.mul_comm (256 ^ k)]
      exact Nat.ModEq.add_left _ (Nat.ModEq.mul_left' 256 ih)

/-- A number below the bound is the reduction of `v` exactly when it is congruent to `v`. -/
lemma leNat_eq_mod_iff (b : Bytes n) (v : ℕ) :
    leNat b = v % 256 ^ n ↔ leNat b ≡ v [MOD 256 ^ n] := by
  rw [Nat.ModEq, Nat.mod_eq_of_lt (leNat_lt b)]

/-! ## Counters that come round -/

/-- A sequence of period `p` that is injective on one period has no repetition among its first `m`
values exactly when `m ≤ p`. -/
theorem nodup_map_range_iff {α : Type*} (f : ℕ → α) {p : ℕ}
    (hper : ∀ i, f (i + p) = f i) (hinj : ∀ i < p, ∀ j < p, f i = f j → i = j) (m : ℕ)
    (hp : 0 < p) : ((List.range m).map f).Nodup ↔ m ≤ p := by
  constructor
  · intro h
    by_contra hm
    have hi := List.inj_on_of_nodup_map h (x := 0) (by simp; omega) (y := p) (by simp; omega)
      (by rw [← hper 0, Nat.zero_add])
    omega
  · intro hm
    refine List.Nodup.map_on (fun i hi j hj => ?_) List.nodup_range
    rw [List.mem_range] at hi hj
    exact hinj i (by omega) j (by omega)

end Firmware
