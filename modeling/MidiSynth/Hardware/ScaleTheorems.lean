/-
MidiSynth.Hardware.ScaleTheorems — the volume scaling, read as two's
complement.

The generators multiply and divide an UNSIGNED word, so `scale x v` is
exactly `⌊x * v / 127⌋`. A codec reads the result as signed. Scaling is
linear in that reading as long as both samples, and both results, are on
one side of `2 ^ 23`, where the reading jumps by `2 ^ 24`; across the jump
it is linear at volume 0 and at full volume only.

The comparison is one of rationals; `within_iff` clears the denominator,
`scale_error` separates the rounding from the jumps, and what is left is
whether the jumps cancel (`scalesLinearly_iff_jumps`).
-/
import Mathlib.Algebra.Order.Field.Rat
import Mathlib.Tactic.Push
import Mathlib.Tactic.Ring
import Mathlib.Tactic.Linarith
import Mathlib.Tactic.LinearCombination
import MidiSynth.Hardware.Oscillators

namespace MidiSynth.Hardware

open MidiSynth.Verilog MidiSynth.Verilog.Expr

/-- The scaled sample over the integers: the product fits the 32 bits it is
computed in. -/
theorem toNat_scale (x : BitVec 24) (v : BitVec 7) :
    (scale x v).toNat = x.toNat * v.toNat / 127 := by
  have hx := x.isLt
  have hv := v.isLt
  have hprod : x.toNat * v.toNat ≤ x.toNat * 127 := Nat.mul_le_mul_left _ (by omega)
  have hq := ((denotes_sig x 32).mul (denotes_sig v 32)).div
    (denotes_ofNat (n := 127) 32 (by decide)) (by omega) (by decide)
  refine hq.toNat_assign_of_lt ?_
  omega

theorem scale_zero (x : BitVec 24) : scale x 0 = 0 := by
  apply BitVec.eq_of_toNat_eq
  rw [toNat_scale]
  simp

theorem scale_full (x : BitVec 24) : scale x 127 = x := by
  apply BitVec.eq_of_toNat_eq
  rw [toNat_scale]
  exact Nat.mul_div_cancel _ (by decide)

/-- 1 for the words past the jump, which read as negative. -/
def jump (x : BitVec 24) : ℤ := if 2 ^ 23 ≤ x.toNat then 1 else 0

/-- The two's complement reading. -/
theorem toInt_eq (x : BitVec 24) : x.toInt = x.toNat - 2 ^ 24 * jump x := by
  rw [BitVec.toInt_eq_toNat_cond, jump]
  split_ifs <;> omega

theorem jump_eq_iff (x y : BitVec 24) :
    jump x = jump y ↔ (2 ^ 23 ≤ x.toNat ↔ 2 ^ 23 ≤ y.toNat) := by
  rw [jump, jump]
  split_ifs <;> omega

theorem jump_cases (x : BitVec 24) : jump x = 0 ∨ jump x = 1 := by
  rw [jump]
  split_ifs
  · exact Or.inr rfl
  · exact Or.inl rfl

/-- A scaled sample is past the jump when its product is. -/
theorem le_toNat_scale_iff (x : BitVec 24) (v : BitVec 7) :
    2 ^ 23 ≤ (scale x v).toNat ↔ 127 * 2 ^ 23 ≤ x.toNat * v.toNat := by
  rw [toNat_scale]
  omega

/-! ## Linearity -/

/-- The difference of two scaled samples is within 2 of the scaled
difference, all samples read as two's complement. -/
def ScalesLinearly (a b : BitVec 24) (v : BitVec 7) : Prop :=
  |(((scale a v).toInt : ℚ) - (scale b v).toInt)
      - ((a.toInt : ℚ) - b.toInt) * v.toNat / 127| ≤ 2

/-- The same over the integers. -/
theorem within_iff (d t : ℤ) :
    |(d : ℚ) - t / 127| ≤ 2 ↔ -254 ≤ 127 * d - t ∧ 127 * d - t ≤ 254 := by
  have hcast : (d : ℚ) - t / 127 = ((127 * d - t : ℤ) : ℚ) / 127 := by
    push_cast
    ring
  rw [hcast, abs_le, le_div_iff₀ (by norm_num), div_le_iff₀ (by norm_num)]
  constructor
  · rintro ⟨hlo, hhi⟩
    have hlo' : (-254 : ℚ) ≤ ((127 * d - t : ℤ) : ℚ) := by linarith
    have hhi' : ((127 * d - t : ℤ) : ℚ) ≤ 254 := by linarith
    exact ⟨by exact_mod_cast hlo', by exact_mod_cast hhi'⟩
  · rintro ⟨hlo, hhi⟩
    have hlo' : (-254 : ℚ) ≤ ((127 * d - t : ℤ) : ℚ) := by exact_mod_cast hlo
    have hhi' : ((127 * d - t : ℤ) : ℚ) ≤ 254 := by exact_mod_cast hhi
    constructor <;> linarith

theorem scalesLinearly_iff_int (a b : BitVec 24) (v : BitVec 7) :
    ScalesLinearly a b v ↔
      -254 ≤ 127 * ((scale a v).toInt - (scale b v).toInt) - (a.toInt - b.toInt) * v.toNat ∧
        127 * ((scale a v).toInt - (scale b v).toInt) - (a.toInt - b.toInt) * v.toNat ≤ 254 := by
  rw [← within_iff, ScalesLinearly]
  push_cast
  rfl

/-- What keeps scaling from being linear: a jump in the result weighs 127
times `2 ^ 24`, a jump in the sample `v` times. The rest is rounding. -/
theorem scale_error (a b : BitVec 24) (v : BitVec 7) :
    127 * ((scale a v).toInt - (scale b v).toInt) - (a.toInt - b.toInt) * v.toNat =
      ((b.toNat * v.toNat % 127 : Nat) - (a.toNat * v.toNat % 127 : Nat) : ℤ)
        - 2 ^ 24 * (127 * (jump (scale a v) - jump (scale b v)) - (jump a - jump b) * v.toNat) := by
  have hround : ∀ x : BitVec 24, (127 * (scale x v).toNat : ℤ)
      = x.toNat * v.toNat - (x.toNat * v.toNat % 127 : Nat) := by
    intro x
    have hdiv := Nat.div_add_mod (x.toNat * v.toNat) 127
    rw [toNat_scale]
    push_cast at hdiv ⊢
    omega
  have ha := hround a
  have hb := hround b
  rw [toInt_eq a, toInt_eq b, toInt_eq (scale a v), toInt_eq (scale b v)]
  linear_combination ha - hb

/-- Scaling is linear when the jumps cancel. -/
theorem scalesLinearly_iff_jumps (a b : BitVec 24) (v : BitVec 7) :
    ScalesLinearly a b v ↔
      127 * (jump (scale a v) - jump (scale b v)) = (jump a - jump b) * v.toNat := by
  have ha := Nat.mod_lt (a.toNat * v.toNat) (show 127 > 0 by decide)
  have hb := Nat.mod_lt (b.toNat * v.toNat) (show 127 > 0 by decide)
  rw [scalesLinearly_iff_int, scale_error]
  generalize (jump a - jump b) * (v.toNat : ℤ) = sample
  constructor
  · rintro ⟨hlo, hhi⟩
    omega
  · intro h
    constructor <;> omega

/-- Linear at volume 0, at full volume, and for samples on one side of the
jump whose products are on one side of it too. -/
theorem scalesLinearly_iff (a b : BitVec 24) (v : BitVec 7) :
    ScalesLinearly a b v ↔
      v = 0 ∨ v = 127 ∨
        ((2 ^ 23 ≤ a.toNat ↔ 2 ^ 23 ≤ b.toNat) ∧
          (127 * 2 ^ 23 ≤ a.toNat * v.toNat ↔ 127 * 2 ^ 23 ≤ b.toNat * v.toNat)) := by
  rw [scalesLinearly_iff_jumps, ← jump_eq_iff, ← le_toNat_scale_iff, ← le_toNat_scale_iff,
    ← jump_eq_iff]
  constructor
  · intro h
    have hcancel : v.toNat = 0 ∨ v.toNat = 127 ∨
        (jump a = jump b ∧ jump (scale a v) = jump (scale b v)) := by
      rcases jump_cases a with ha | ha <;> rcases jump_cases b with hb | hb <;>
        rcases jump_cases (scale a v) with hsa | hsa <;>
        rcases jump_cases (scale b v) with hsb | hsb <;>
        rw [ha, hb, hsa, hsb] at h <;> omega
    rcases hcancel with h0 | h127 | hsame
    · exact Or.inl (BitVec.eq_of_toNat_eq h0)
    · exact Or.inr (Or.inl (BitVec.eq_of_toNat_eq h127))
    · exact Or.inr (Or.inr hsame)
  · rintro (rfl | rfl | ⟨hside, hscaled⟩)
    · rw [scale_zero, scale_zero]
      simp
    · rw [scale_full, scale_full, mul_comm]
      rfl
    · rw [hside, hscaled]
      simp

/-- **Volume scaling** is linear in the two's complement reading under
exactly these conditions; for the two levels of the square wave they come
down to volume 0 and full volume. -/
theorem volume_scaling_iff (v : BitVec 7) :
    (∀ a b : BitVec 24, ScalesLinearly a b v ↔
      v = 0 ∨ v = 127 ∨
        ((2 ^ 23 ≤ a.toNat ↔ 2 ^ 23 ≤ b.toNat) ∧
          (127 * 2 ^ 23 ≤ a.toNat * v.toNat ↔ 127 * 2 ^ 23 ≤ b.toNat * v.toNat))) ∧
    (ScalesLinearly (~~~resetLevel) resetLevel v ↔ v = 0 ∨ v = 127) := by
  refine ⟨fun a b => scalesLinearly_iff a b v, ?_⟩
  have hhigh : (~~~resetLevel).toNat = 2 ^ 23 - 1 := rfl
  have hreset : resetLevel.toNat = 2 ^ 23 := rfl
  rw [scalesLinearly_iff, hhigh, hreset]
  constructor
  · rintro (h0 | h127 | ⟨hside, -⟩)
    · exact Or.inl h0
    · exact Or.inr h127
    · omega
  · rintro (h0 | h127)
    · exact Or.inl h0
    · exact Or.inr (Or.inl h127)

/-- The square wave's two levels at half volume come out nowhere near half
its swing. -/
theorem not_volume_scaling :
    ¬ ∀ (a b : BitVec 24) (v : BitVec 7), ScalesLinearly a b v := by
  intro h
  have hsquare := h 0x7FFFFF 0x800000 64
  rw [scalesLinearly_iff_int] at hsquare
  exact absurd hsquare (by decide)

end MidiSynth.Hardware
