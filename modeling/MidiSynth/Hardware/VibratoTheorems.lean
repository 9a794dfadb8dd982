/-
MidiSynth.Hardware.VibratoTheorems — the period of a note under the pitch
wheel.

The wheel rests at level 64 and `vibrato_level - 64` is unsigned, so below
64 it wraps at 32 bits. The result is right all the same: the shift by 7
takes the `2 ^ 32` that the wrap added down to `2 ^ 25`, and the 23-bit
`period` drops that (`toNat_vibratoPeriod`). Only the rounding could tell:
a logical shift of a wrapped negative number still rounds down.

No table entry comes near either end of the 23 bits, so for the table the
period is the integer itself (`period_exact`), and no divisor is zero.
-/
import MidiSynth.Hardware.OscillatorTheorems
import MidiSynth.Hardware.Synthesizer

namespace MidiSynth.Hardware

open MidiSynth.Verilog MidiSynth.Verilog.Expr

/-! ## §1 The expression -/

/-- `R + ((v - 64)*6000 >> 7)`, assigned to 23 bits. -/
def vibratoPeriod (R : BitVec 23) (v : BitVec 8) : BitVec 23 :=
  assign 23 (sig R + (((sig v - (64 : Expr)) * (6000 : Expr)) >>> (7 : Expr)))

theorem WaveformGenerator.period_eq (i : WaveformGenerator.Input) :
    WaveformGenerator.period i =
      vibratoPeriod (midiROM (i.noteVol.extractLsb' 8 7)) i.vibratoLevel := rfl

/-- The offset the wheel asks for, rounded down. -/
def vibratoOffset (v : BitVec 8) : ℤ := ((v.toNat : ℤ) - 64) * 6000 / 128

/-- What the 32-bit expression carries, wrap included. -/
theorem toNat_vibratoPeriod_nat (R : BitVec 23) (v : BitVec 8) :
    (vibratoPeriod R v).toNat
      = (R.toNat + (v.toNat + (2 ^ 32 - 64)) * 6000 % 2 ^ 32 / 2 ^ 7) % 2 ^ 23 := by
  have hoffset := ((denotes_sig v 32).sub (denotes_ofNat (n := 64) 32 (by decide))
    (by decide)).mul (denotes_ofNat (n := 6000) 32 (by decide))
  have hshift := hoffset.shiftRight (denotes_ofNat (n := 7) 32 (by decide)) (by decide)
  exact ((denotes_sig R 32).add hshift).toNat_assign

/-- Shifted down by 7, the wrapped offset is the offset and a multiple of
`2 ^ 25`. -/
theorem wrapped_offset (v : BitVec 8) :
    ∃ k : ℤ, (((v.toNat + (2 ^ 32 - 64)) * 6000 % 2 ^ 32 / 2 ^ 7 : Nat) : ℤ)
      = vibratoOffset v + 2 ^ 25 * k := by
  have hdiv := Nat.div_add_mod ((v.toNat + (2 ^ 32 - 64)) * 6000) (2 ^ 32)
  generalize (v.toNat + (2 ^ 32 - 64)) * 6000 / 2 ^ 32 = q at hdiv
  generalize (v.toNat + (2 ^ 32 - 64)) * 6000 % 2 ^ 32 = r at hdiv ⊢
  refine ⟨6000 - q, ?_⟩
  have hr : (r : ℤ) = ((v.toNat : ℤ) - 64) * 6000 + 128 * (2 ^ 25 * (6000 - q)) := by omega
  rw [Int.natCast_ediv, hr, vibratoOffset]
  exact Int.add_mul_ediv_left _ _ (by decide)

/-- Over the integers the wrap is gone. -/
theorem toNat_vibratoPeriod (R : BitVec 23) (v : BitVec 8) :
    ((vibratoPeriod R v).toNat : ℤ) = (R.toNat + vibratoOffset v) % 2 ^ 23 := by
  obtain ⟨k, hk⟩ := wrapped_offset v
  rw [toNat_vibratoPeriod_nat, Int.natCast_emod, Int.natCast_add, hk]
  omega

theorem vibratoOffset_bounds (v : BitVec 8) :
    -3000 ≤ vibratoOffset v ∧ vibratoOffset v ≤ 8953 := by
  have hv := v.isLt
  rw [vibratoOffset]
  omega

/-! ## §2 The table -/

theorem midiPeriods_bounds : ∀ r ∈ midiPeriods, 3986 ≤ r ∧ r ≤ 6115610 := by
  decide +kernel

/-- From the highest note to the lowest. -/
theorem midiROM_bounds (n : BitVec 7) :
    3986 ≤ (midiROM n).toNat ∧ (midiROM n).toNat ≤ 6115610 := by
  have hn : n.toNat < midiPeriods.length := by
    rw [midiPeriods_length]
    exact n.isLt
  have hmem : midiPeriods.getD n.toNat 0 ∈ midiPeriods := by
    rw [List.getD_eq_getElem?_getD, List.getElem?_eq_getElem hn]
    exact List.getElem_mem hn
  obtain ⟨hlo, hhi⟩ := midiPeriods_bounds _ hmem
  rw [midiROM, BitVec.toNat_ofNat, Nat.mod_eq_of_lt (by omega)]
  exact ⟨hlo, hhi⟩

/-- No reduction takes place for a table entry. -/
theorem period_exact (n : BitVec 7) (v : BitVec 8) :
    ((vibratoPeriod (midiROM n) v).toNat : ℤ) = (midiROM n).toNat + vibratoOffset v := by
  obtain ⟨hlo, hhi⟩ := midiROM_bounds n
  obtain ⟨hdown, hup⟩ := vibratoOffset_bounds v
  rw [toNat_vibratoPeriod]
  exact Int.emod_eq_of_lt (by omega) (by omega)

theorem le_vibratoPeriod (n : BitVec 7) (v : BitVec 8) :
    986 ≤ (vibratoPeriod (midiROM n) v).toNat := by
  have hexact := period_exact n v
  obtain ⟨hlo, -⟩ := midiROM_bounds n
  obtain ⟨hdown, -⟩ := vibratoOffset_bounds v
  omega

/-! ## §3 The divisors -/

/-- `period/2`, the divisor of the triangle's increment. -/
theorem init_ne_zero {p : BitVec 23} (hp : 2 ≤ p.toNat) : TriangleWave.init p ≠ 0 := by
  intro h
  have hinit := TriangleWave.toNat_init p
  rw [h] at hinit
  have hzero : (0 : BitVec 24).toNat = 0 := rfl
  omega

/-- `2*period`, the divisor of the sawtooth's increment, at 32 bits. -/
theorem two_mul_period_ne_zero {p : BitVec 23} (hp : 1 ≤ p.toNat) :
    ((2 : Expr) * sig p).eval 32 ≠ 0 := by
  intro h
  have hlt := p.isLt
  have hval := ((denotes_ofNat (n := 2) 32 (by decide)).mul (denotes_sig p 32)).toNat_eval
  rw [h] at hval
  have hzero : (0 : BitVec 32).toNat = 0 := rfl
  omega

/-- **Vibrato arithmetic.** Unsigned at 32 bits, shifted logically and cut
to 23 bits, the expression is the integer one modulo `2 ^ 23`. For every
note and every vibrato level it is the integer itself, at least 986, and no
divisor in the generators is zero. -/
theorem vibrato_correct :
    (∀ (R : BitVec 23) (v : BitVec 8),
      ((vibratoPeriod R v).toNat : ℤ)
        = (R.toNat + ((v.toNat : ℤ) - 64) * 6000 / 128) % 2 ^ 23) ∧
    (∀ i : WaveformGenerator.Input,
      let R := midiROM (i.noteVol.extractLsb' 8 7)
      let period := WaveformGenerator.period i
      period = vibratoPeriod R i.vibratoLevel ∧
      (period.toNat : ℤ) = R.toNat + ((i.vibratoLevel.toNat : ℤ) - 64) * 6000 / 128 ∧
      986 ≤ period.toNat ∧
      TriangleWave.init period ≠ 0 ∧
      ((2 : Expr) * sig period).eval 32 ≠ 0) := by
  refine ⟨toNat_vibratoPeriod, fun i => ?_⟩
  intro R period
  have hmin : 986 ≤ period.toNat := le_vibratoPeriod _ i.vibratoLevel
  exact ⟨WaveformGenerator.period_eq i, period_exact _ i.vibratoLevel, hmin, init_ne_zero (by omega),
    two_mul_period_ne_zero (by omega)⟩

end MidiSynth.Hardware
