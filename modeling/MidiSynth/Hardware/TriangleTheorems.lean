/-
MidiSynth.Hardware.TriangleTheorems — how far the triangle ramp goes.

From the reset level the ramp takes `h = period/2` steps of
`33554431/h` each: nearly `2 ^ 25` in all, in a 24-bit register. Whichever
way the register is read, unsigned or as two's complement, the ramp leaves
its range, unless `h = 1`, where the one step is cut to 24 bits and spans
the two's complement range exactly.

As long as the exact level stays in range, `local_val` IS the exact level
(`value_level`), and rising and falling follow (`noOverflow_of_inRange`).
-/
import Mathlib.Tactic.Push
import MidiSynth.Hardware.TriangleCycleTheorems

namespace MidiSynth.Hardware.TriangleWave

open MidiSynth.Machine

/-! ## §1 Readings of a sample -/

/-- How a 24-bit sample is read. -/
inductive Reading where
  | unsigned
  | twosComplement
  deriving DecidableEq, Repr

def Reading.value : Reading → BitVec 24 → ℤ
  | .unsigned, x => x.toNat
  | .twosComplement, x => x.toInt

/-- The greatest sample. -/
def Reading.max : Reading → ℤ
  | .unsigned => 2 ^ 24 - 1
  | .twosComplement => 2 ^ 23 - 1

/-- The exact level `n` above the reset level, as long as it is in range. -/
theorem value_add {r : Reading} {n : Nat} (h : r.value resetLevel + n ≤ r.max) :
    r.value (resetLevel + BitVec.ofNat 24 n) = r.value resetLevel + n := by
  have hreset : resetLevel.toNat = 2 ^ 23 := rfl
  have hsum : (resetLevel + BitVec.ofNat 24 n).toNat = (2 ^ 23 + n) % 2 ^ 24 := by
    rw [BitVec.toNat_add, hreset, BitVec.toNat_ofNat, Nat.add_mod_mod]
  cases r with
  | unsigned =>
    simp only [Reading.value, Reading.max, hsum, hreset] at h ⊢
    omega
  | twosComplement =>
    have hint : resetLevel.toInt = -2 ^ 23 := rfl
    simp only [Reading.value, Reading.max, hint] at h ⊢
    rw [BitVec.toInt_eq_toNat_cond, hsum]
    split_ifs <;> omega

/-! ## §2 The ramp -/

variable {p : BitVec 23}

/-- The first half cycle rises from the reset level. -/
theorem level_rise {n : Nat} (hn : n ≤ p.toNat / 2) :
    level p n = resetLevel + BitVec.ofNat 24 n * increment p := by
  have hinit : (signals p).init.toNat = p.toNat / 2 := toNat_init p
  have hpos := position_rise (signals p) (s := resetState p) rfl rfl (hinit.symm ▸ hn)
  rw [level, run_held, localVal_eq (signals p), base_run, base_resetState, hpos]
  rfl

theorem level_eq {n : Nat} (hn : n ≤ p.toNat / 2) :
    level p n = resetLevel + BitVec.ofNat 24 (n * (increment p).toNat) := by
  rw [level_rise hn, BitVec.ofNat_mul, BitVec.ofNat_toNat, BitVec.setWidth_eq]

/-- The falling half mirrors the rising half. -/
theorem level_mirror {n : Nat} (hn : n ≤ p.toNat / 2) :
    level p (p.toNat / 2 + 1 + n) = level p (p.toNat / 2 - n) := by
  have hmirror := (cycleExact_held p 0).2 n hn
  rwa [Nat.zero_mul, Nat.zero_add, Nat.zero_add] at hmirror

theorem increment_pos (hp : 1 ≤ p.toNat / 2) : 0 < (increment p).toNat := by
  have hlt := p.isLt
  rw [toNat_increment]
  rcases Nat.eq_or_lt_of_le hp with h1 | h2
  · rw [← h1]
    decide
  · have hlo : 33554431 / 4194304 ≤ 33554431 / (p.toNat / 2) :=
      Nat.div_le_div_left (by omega) (by omega)
    have hhi : 33554431 / (p.toNat / 2) ≤ 33554431 / 2 :=
      Nat.div_le_div_left h2 (by decide)
    rw [Nat.mod_eq_of_lt (by omega)]
    omega

/-! ## §3 Overflow -/

/-- The exact level stays in range through the first half cycle, `local_val`
rises through it, and falls through the next one. -/
structure NoOverflow (r : Reading) (p : BitVec 23) : Prop where
  inRange : ∀ k ≤ p.toNat / 2, r.value resetLevel + (k * (increment p).toNat : Nat) ≤ r.max
  rises : ∀ k < p.toNat / 2, r.value (level p k) < r.value (level p (k + 1))
  falls : ∀ k < p.toNat / 2,
    r.value (level p (p.toNat / 2 + 1 + (k + 1))) < r.value (level p (p.toNat / 2 + 1 + k))

/-- In range, the level is the exact one. -/
theorem value_level {r : Reading} {k : Nat} (hk : k ≤ p.toNat / 2)
    (h : r.value resetLevel + (k * (increment p).toNat : Nat) ≤ r.max) :
    r.value (level p k) = r.value resetLevel + (k * (increment p).toNat : Nat) := by
  rw [level_eq hk]
  exact value_add h

/-- Staying in range is all it takes. -/
theorem noOverflow_of_inRange {r : Reading} (hp : 1 ≤ p.toNat / 2)
    (h : ∀ k ≤ p.toNat / 2, r.value resetLevel + (k * (increment p).toNat : Nat) ≤ r.max) :
    NoOverflow r p := by
  have hinc := increment_pos hp
  have hstep : ∀ k < p.toNat / 2, r.value (level p k) < r.value (level p (k + 1)) := by
    intro k hk
    rw [value_level (by omega) (h k (by omega)), value_level hk (h (k + 1) hk), Nat.succ_mul]
    omega
  refine ⟨h, hstep, fun k hk => ?_⟩
  have hmirror := hstep (p.toNat / 2 - (k + 1)) (by omega)
  have hnext : p.toNat / 2 - (k + 1) + 1 = p.toNat / 2 - k := by omega
  rw [hnext] at hmirror
  rw [level_mirror hk, level_mirror (Nat.le_of_lt hk)]
  exact hmirror

/-- In either reading, `n` above the reset level is out of range from
`2 ^ 24` on. -/
theorem lt_of_inRange {r : Reading} {n : Nat} (h : r.value resetLevel + n ≤ r.max) :
    n < 2 ^ 24 := by
  have hnat : (resetLevel.toNat : ℤ) = 2 ^ 23 := rfl
  have hint : resetLevel.toInt = -2 ^ 23 := rfl
  cases r with
  | unsigned =>
    simp only [Reading.value, Reading.max, hnat] at h
    omega
  | twosComplement =>
    simp only [Reading.value, Reading.max, hint] at h
    omega

/-- From two steps on, the steps add up to nearly `2 ^ 25`. -/
theorem ramp_overshoots (hp : 2 ≤ p.toNat / 2) :
    2 ^ 24 ≤ p.toNat / 2 * (increment p).toNat := by
  have hlt := p.isLt
  have hhi : 33554431 / (p.toNat / 2) ≤ 33554431 / 2 := Nat.div_le_div_left hp (by decide)
  have hdiv := Nat.div_add_mod 33554431 (p.toNat / 2)
  have hmod := Nat.mod_lt 33554431 (show 0 < p.toNat / 2 by omega)
  rw [toNat_increment, Nat.mod_eq_of_lt (by omega)]
  omega

/-- **The triangle ramp overflows** in either reading, unless the half
period is a single clock. -/
theorem triangle_no_overflow_iff (p : BitVec 23) (hp : 1 ≤ p.toNat / 2) :
    (∃ r, NoOverflow r p) ↔ p.toNat / 2 = 1 := by
  constructor
  · rintro ⟨r, h⟩
    by_contra hne
    have htop := lt_of_inRange (h.inRange (p.toNat / 2) (Nat.le_refl _))
    have hover := ramp_overshoots (p := p) (by omega)
    omega
  · intro h1
    have hinc : (increment p).toNat = 2 ^ 24 - 1 := by
      rw [toNat_increment, h1]
      decide
    refine ⟨.twosComplement, noOverflow_of_inRange hp (fun k hk => ?_)⟩
    have hint : resetLevel.toInt = -2 ^ 23 := rfl
    rw [h1] at hk
    simp only [Reading.value, Reading.max, hint, hinc]
    omega

/-- Period 2: one step of `2 ^ 24 - 1`. -/
theorem triangle_no_overflow_iff_two :
    (∃ r, NoOverflow r 2) ↔ (2 : BitVec 23).toNat / 2 = 1 :=
  triangle_no_overflow_iff 2 (by decide)

/-- Period 113636, the 440 Hz of the comment in the source: 56818 steps of
590. -/
theorem not_triangle_no_overflow :
    ¬ ∀ p : BitVec 23, 1 ≤ p.toNat / 2 → ∃ r, NoOverflow r p := by
  intro h
  obtain ⟨r, hr⟩ := h 113636 (by decide)
  have htop := lt_of_inRange (hr.inRange 56818 (by decide))
  exact absurd htop (by decide)

end MidiSynth.Hardware.TriangleWave
