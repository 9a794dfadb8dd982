/-
MidiSynth.Hardware.PitchTheorems — the sawtooth against the square wave.

The square wave counts the period down and is exact: one of its cycles is
`cycle p` clocks, from any phase (`SquareWave.run_cycle`). The sawtooth adds
a truncated quotient at every clock. Over one square cycle it adds
`cycle p * increment` where a whole turn would be `2 ^ 24`; the difference
is the `drift`, and over `M` cycles the wraps are off by
`M * drift / 2 ^ 24`, rounded down (`wraps_sub`).

The truncation loses up to one unit of the increment at every clock, so the
sawtooth is flat, and the lower the note the more: the increments of the
lowest octave are 2 and 3. Against its own period it is never sharp and
misses at most the fraction `p / 2 ^ 24` of its turns
(`sawtooth_frequency`).
-/
import Mathlib.Algebra.Order.Field.Rat
import Mathlib.Algebra.Order.Floor.Div
import Mathlib.Tactic.Linarith
import Mathlib.Tactic.Push
import MidiSynth.Hardware.OscillatorTheorems

namespace MidiSynth.Hardware

open MidiSynth.Machine MidiSynth.Verilog

/-! ## §1 One cycle -/

/-- What the sawtooth adds over one cycle of the square wave. -/
def turn (p : BitVec 23) : Nat := SquareWave.cycle p * (33554431 / (2 * p.toNat))

/-- That, short of (or beyond) one whole turn. -/
def drift (p : BitVec 23) : ℤ := turn p - 2 ^ 24

/-- The wraps over `m` square cycles, against `m`. -/
theorem wraps_sub (p : BitVec 23) (x : BitVec 24) (m : Nat) :
    (SawtoothWave.wrapsFrom p x (m * SquareWave.cycle p) : ℤ) - m
      = ((x.toNat : ℤ) + m * drift p) / 2 ^ 24 := by
  have hturns : (x.toNat : ℤ) + m * turn p = (x.toNat + m * drift p) + m * 2 ^ 24 := by
    rw [drift]
    ring
  rw [SawtoothWave.wrapsFrom_eq, Nat.mul_assoc, ← turn]
  push_cast
  rw [hturns]
  omega

/-- What the sawtooth adds over one period: short of a whole turn, by the
period at most. -/
theorem period_increment_bounds {p : BitVec 23} (hp : 0 < p.toNat) :
    p.toNat * (33554431 / (2 * p.toNat)) < 2 ^ 24 ∧
      2 ^ 24 ≤ p.toNat * (33554431 / (2 * p.toNat)) + p.toNat := by
  have hdiv := Nat.div_add_mod 33554431 (2 * p.toNat)
  have hmod := Nat.mod_lt 33554431 (show 0 < 2 * p.toNat by omega)
  rw [Nat.mul_assoc] at hdiv
  omega

/-- The increment is a rounded-down quotient. -/
theorem turn_bounds {p : BitVec 23} (hp : 0 < p.toNat) :
    2 * turn p ≤ 33554431 + 4 * (33554431 / (2 * p.toNat)) ∧
      33554432 ≤ 2 * turn p + 2 * p.toNat := by
  obtain ⟨htop, hbot⟩ := period_increment_bounds hp
  rw [turn]
  generalize 33554431 / (2 * p.toNat) = inc at htop hbot ⊢
  have hlo : (p.toNat + 1) * inc ≤ SquareWave.cycle p * inc :=
    Nat.mul_le_mul_right _ (by rw [SquareWave.cycle]; omega)
  have hhi : SquareWave.cycle p * inc ≤ (p.toNat + 2) * inc :=
    Nat.mul_le_mul_right _ (by rw [SquareWave.cycle]; omega)
  rw [Nat.add_mul] at hlo hhi
  omega

/-! ## §2 In tune -/

/-- Over any number of square cycles, and from any phase, the sawtooth keeps
within 3 percent of the square wave's count, give or take one. -/
def StaysInTune (p : BitVec 23) : Prop :=
  ∀ (x : BitVec 24) (m : Nat),
    |(SawtoothWave.wrapsFrom p x (m * SquareWave.cycle p) : ℚ) - m| ≤ 3 / 100 * m + 1

/-- The same over the integers. -/
theorem off_by_iff (d : ℤ) (m : Nat) :
    |(d : ℚ)| ≤ 3 / 100 * m + 1 ↔ -(3 * m + 100) ≤ 100 * d ∧ 100 * d ≤ 3 * (m : ℤ) + 100 := by
  rw [abs_le]
  constructor
  · rintro ⟨hlo, hhi⟩
    have hlo' : (-(3 * m + 100) : ℚ) ≤ 100 * d := by linarith
    have hhi' : (100 * d : ℚ) ≤ 3 * m + 100 := by linarith
    exact ⟨by exact_mod_cast hlo', by exact_mod_cast hhi'⟩
  · rintro ⟨hlo, hhi⟩
    have hlo' : (-(3 * m + 100) : ℚ) ≤ 100 * d := by exact_mod_cast hlo
    have hhi' : (100 * d : ℚ) ≤ 3 * m + 100 := by exact_mod_cast hhi
    constructor <;> linarith

theorem staysInTune_iff_int (p : BitVec 23) :
    StaysInTune p ↔ ∀ (x : BitVec 24) (m : Nat),
      -(3 * m + 100) ≤ 100 * (((x.toNat : ℤ) + m * drift p) / 2 ^ 24) ∧
        100 * (((x.toNat : ℤ) + m * drift p) / 2 ^ 24) ≤ 3 * (m : ℤ) + 100 := by
  refine forall_congr' fun x => forall_congr' fun m => ?_
  rw [← wraps_sub, ← off_by_iff]
  push_cast
  rfl

/-- A drift within 3 percent a cycle never adds up to more. -/
theorem staysInTune_of_drift {p : BitVec 23} (hlo : -(3 * 2 ^ 24) ≤ 100 * drift p)
    (hhi : 100 * drift p ≤ 3 * 2 ^ 24) : StaysInTune p := by
  rw [staysInTune_iff_int]
  intro x m
  have hx := x.isLt
  have hm : (0 : ℤ) ≤ m := Int.natCast_nonneg m
  have hlo' : m * -(3 * 2 ^ 24) ≤ m * (100 * drift p) := Int.mul_le_mul_of_nonneg_left hlo hm
  have hhi' : m * (100 * drift p) ≤ m * (3 * 2 ^ 24) := Int.mul_le_mul_of_nonneg_left hhi hm
  have hcomm : (m : ℤ) * (100 * drift p) = 100 * (m * drift p) := by ring
  rw [hcomm] at hlo' hhi'
  generalize (m : ℤ) * drift p = t at hlo' hhi' ⊢
  omega

/-- A drift below that is out of tune after `200 * 2 ^ 24` cycles. -/
theorem drift_of_staysInTune {p : BitVec 23} (h : StaysInTune p) :
    -(3 * 2 ^ 24) ≤ 100 * drift p := by
  have hlong := ((staysInTune_iff_int p).mp h 0 (200 * 2 ^ 24)).1
  have hzero : ((0 : BitVec 24).toNat : ℤ) = 0 := rfl
  rw [hzero] at hlong
  push_cast at hlong
  omega

/-- From period 986 up the sawtooth is never sharp by 3 percent. -/
theorem drift_le {p : BitVec 23} (hp : 986 ≤ p.toNat) : 100 * drift p ≤ 3 * 2 ^ 24 := by
  have hturn := (turn_bounds (p := p) (by omega)).1
  have hinc : 33554431 / (2 * p.toNat) ≤ 33554431 / (2 * 986) :=
    Nat.div_le_div_left (by omega) (by decide)
  rw [drift]
  omega

/-- Up to period 503316 the truncation costs less than 3 percent. -/
theorem staysInTune_of_le {p : BitVec 23} (hlo : 986 ≤ p.toNat) (hhi : p.toNat ≤ 503316) :
    StaysInTune p := by
  refine staysInTune_of_drift ?_ (drift_le hlo)
  have hturn := (turn_bounds (p := p) (by omega)).2
  rw [drift]
  omega

/-- **Sawtooth and square wave stay in tune** exactly when the truncated
increment makes at least 97 percent of a turn over one cycle of the square
wave. -/
theorem waveform_pitch_iff (p : BitVec 23) (hp : 986 ≤ p.toNat) :
    StaysInTune p ↔
      97 * 2 ^ 24 ≤ 100 * (2 * (p.toNat / 2 + 1) * (33554431 / (2 * p.toNat))) := by
  have hturn : 2 * (p.toNat / 2 + 1) * (33554431 / (2 * p.toNat)) = turn p := rfl
  rw [hturn]
  constructor
  · intro h
    have hdrift := drift_of_staysInTune h
    rw [drift] at hdrift
    omega
  · intro h
    refine staysInTune_of_drift ?_ (drift_le hp)
    rw [drift]
    omega

/-- Period 113636, an A at 440 Hz. -/
theorem waveform_pitch_iff_440 :
    StaysInTune 113636 ↔
      97 * 2 ^ 24 ≤ 100 * (2 * (113636 / 2 + 1) * (33554431 / (2 * 113636))) :=
  waveform_pitch_iff 113636 (by decide)

/-- The lowest note with the pitch wheel fully up: ten square cycles are
seven of the sawtooth. -/
theorem not_waveform_pitch :
    ¬ ∀ p : BitVec 23, 986 ≤ p.toNat → p.toNat ≤ 6124563 → StaysInTune p := by
  intro h
  have hlow := (staysInTune_iff_int _).mp (h 6124563 (by decide) (by decide)) 0 10
  exact absurd hlow.1 (by decide)

/-! ## §3 The sawtooth against its own period -/

/-- **Sawtooth frequency bounds.** Over `N` periods the sawtooth wraps at
most `N` times, from any phase, and it misses at most the fraction
`p / 2 ^ 24` of them. -/
theorem sawtooth_frequency (p : BitVec 23) (hp : 0 < p.toNat) (x : BitVec 24) (N : Nat) :
    (N : ℤ) - (N * p.toNat ⌈/⌉ 2 ^ 24 : ℕ) ≤ SawtoothWave.wrapsFrom p x (N * p.toNat) ∧
      SawtoothWave.wrapsFrom p x (N * p.toNat) ≤ N := by
  obtain ⟨hhi, hlo⟩ := period_increment_bounds hp
  have hx := x.isLt
  rw [SawtoothWave.wrapsFrom_eq, Nat.mul_assoc, Nat.ceilDiv_eq_add_pred_div]
  generalize p.toNat * (33554431 / (2 * p.toNat)) = t at hhi hlo ⊢
  have hle : N * t ≤ N * (2 ^ 24 - 1) := Nat.mul_le_mul_left N (by omega)
  have hge : N * 2 ^ 24 ≤ N * (t + p.toNat) := Nat.mul_le_mul_left N hlo
  rw [Nat.mul_add] at hge
  omega

/-- Period 3: one wrap in two periods. -/
theorem sawtooth_frequency_three :
    ((2 : Nat) : ℤ) - (2 * (3 : BitVec 23).toNat ⌈/⌉ 2 ^ 24 : ℕ)
        ≤ SawtoothWave.wrapsFrom 3 0 (2 * (3 : BitVec 23).toNat) ∧
      SawtoothWave.wrapsFrom 3 0 (2 * (3 : BitVec 23).toNat) ≤ 2 :=
  sawtooth_frequency 3 (by decide) 0 2

end MidiSynth.Hardware
