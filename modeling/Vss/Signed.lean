import Mathlib.Algebra.Order.Ring.Int
/-!
# Signed — Rust's `i64` and `i32`

`version` is an `i64` column and `page_size` an `i32` field.  `SInt w` keeps a `w`-bit value as an `Int` with its
range as two proof fields, so an out-of-range version cannot be built.  `saturatingAdd` is Rust's
`saturating_add`: the sum is clamped to the range instead of wrapping, which is how `execute_conditional_update`
computes a record's next version.
-/
namespace Vss

/-- A `w`-bit two's-complement integer. -/
structure SInt (w : Nat) where
  val : Int
  min_le : -2 ^ (w - 1) ≤ val
  lt_bound : val < 2 ^ (w - 1)
deriving DecidableEq

/-- Rust's `i64`. -/
abbrev I64 := SInt 64

/-- Rust's `i32`. -/
abbrev I32 := SInt 32

namespace SInt

variable {w : Nat}

theorem two_pow_pos (w : Nat) : (0 : Int) < 2 ^ (w - 1) := pow_pos (by decide) _

/-- An integer brought into range, the ends absorbing what lies beyond them. -/
def saturate (w : Nat) (x : Int) : SInt w :=
  if h₁ : x < -2 ^ (w - 1) then ⟨-2 ^ (w - 1), le_rfl, by have := two_pow_pos w; omega⟩
  else if h₂ : 2 ^ (w - 1) ≤ x then ⟨2 ^ (w - 1) - 1, by have := two_pow_pos w; omega, by omega⟩
  else ⟨x, by omega, by omega⟩

/-- Literals, as in `version: 0`; every literal of the source is in range, where this is exact. -/
instance (n : Nat) : OfNat (SInt w) n := ⟨saturate w n⟩

/-- `i64::MAX`, `i32::MAX`. -/
def maxValue (w : Nat) : SInt w := saturate w (2 ^ (w - 1) - 1)

/-- **`saturating_add`.** -/
def saturatingAdd (a b : SInt w) : SInt w := saturate w (a.val + b.val)

/-- `std::cmp::min`. -/
def min (a b : SInt w) : SInt w := if a.val ≤ b.val then a else b

/-- `as i64` on an `i32`: sign extension, which keeps the value. -/
def toI64 (a : I32) : I64 := ⟨a.val, by have := a.min_le; simp at this ⊢; omega, by have := a.lt_bound; simp at this ⊢; omega⟩

theorem ext_val {a b : SInt w} (h : a.val = b.val) : a = b := by
  cases a; cases b; cases h; rfl

theorem val_saturate (x : Int) :
    (saturate w x).val = if x < -2 ^ (w - 1) then -2 ^ (w - 1) else if 2 ^ (w - 1) ≤ x then 2 ^ (w - 1) - 1 else x := by
  unfold saturate; split_ifs <;> rfl

theorem val_saturate_of_mem {x : Int} (h₁ : -2 ^ (w - 1) ≤ x) (h₂ : x < 2 ^ (w - 1)) :
    (saturate w x).val = x := by
  rw [val_saturate, if_neg (by omega), if_neg (by omega)]

@[simp] theorem val_maxValue : (maxValue w).val = 2 ^ (w - 1) - 1 :=
  val_saturate_of_mem (by have := two_pow_pos w; omega) (by omega)

theorem le_maxValue (a : SInt w) : a.val ≤ (maxValue w).val := by
  have := a.lt_bound; rw [val_maxValue]; omega

@[simp] theorem val_one_i64 : (1 : I64).val = 1 := rfl

@[simp] theorem val_zero_i64 : (0 : I64).val = 0 := rfl

@[simp] theorem two_pow_63 : (2 : Int) ^ (64 - 1) = 9223372036854775808 := rfl

/-- Adding one to an `i64` saturates exactly at `i64::MAX`. -/
theorem val_saturatingAdd_one (a : I64) :
    (a.saturatingAdd 1).val = if a.val = 9223372036854775807 then a.val else a.val + 1 := by
  have hlt := a.lt_bound
  have hle := a.min_le
  simp only [two_pow_63] at hlt hle
  rw [saturatingAdd, val_saturate, val_one_i64, two_pow_63]
  split_ifs <;> omega

theorem le_saturatingAdd_one (a : I64) : a.val ≤ (a.saturatingAdd 1).val := by
  rw [val_saturatingAdd_one]; split_ifs <;> omega

theorem one_le_saturatingAdd_one {a : I64} (h : 0 ≤ a.val) : 1 ≤ (a.saturatingAdd 1).val := by
  rw [val_saturatingAdd_one]; split_ifs <;> omega

/-- An increment that changes a version adds exactly one. -/
theorem val_saturatingAdd_one_of_ne {a : I64} (h : a.saturatingAdd 1 ≠ a) : (a.saturatingAdd 1).val = a.val + 1 := by
  rw [val_saturatingAdd_one]
  split_ifs with hm
  · exact absurd (ext_val (by rw [val_saturatingAdd_one, if_pos hm])) h
  · rfl

/-- Adding one with saturation keeps the order of `i64`s. -/
theorem saturatingAdd_one_mono {a b : I64} (h : a.val ≤ b.val) : (a.saturatingAdd 1).val ≤ (b.saturatingAdd 1).val := by
  have := b.lt_bound
  simp only [two_pow_63] at this
  rw [val_saturatingAdd_one, val_saturatingAdd_one]
  split_ifs <;> omega

end SInt

end Vss
