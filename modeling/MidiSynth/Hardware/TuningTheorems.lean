/-
MidiSynth.Hardware.TuningTheorems — the notes are in tune.

The period table was written by `MIDI_notes_generator.py`:

    freq = 2**((n-69)/12.0)*440
    period = int(50000000.0/freq)

in floating point. `midiROM_floor` says that every entry is what this is over
the real numbers: the 12th powers of both sides are integers, so the whole
table is decided by comparing them. `square_tuned` follows it to the wave: a
note that is held comes to repeat with the period of equal temperament, plus
the offset of the pitch wheel, plus at most two clocks of rounding.
-/
import Mathlib.Analysis.SpecialFunctions.Pow.Real
import MidiSynth.Hardware.SquareTheorems
import MidiSynth.Hardware.VibratoTheorems

namespace MidiSynth.Hardware

open MidiSynth.Machine MidiSynth.Verilog

/-! ## §1 The table -/

/-- The frequency of a MIDI note in equal temperament, in Hz. -/
noncomputable def noteFrequency (n : ℕ) : ℝ := 2 ^ (((n : ℝ) - 69) / 12) * 440

/-- Its period, in clocks of 50 MHz. -/
noncomputable def notePeriod (n : ℕ) : ℝ := 50000000 / noteFrequency n

theorem noteFrequency_pos (n : ℕ) : 0 < noteFrequency n := by
  unfold noteFrequency
  positivity

theorem notePeriod_pos (n : ℕ) : 0 < notePeriod n :=
  div_pos (by norm_num) (noteFrequency_pos n)

/-- Twelve semitones double the frequency. -/
theorem noteFrequency_pow (n : ℕ) : noteFrequency n ^ 12 * 2 ^ 69 = 2 ^ n * 440 ^ 12 := by
  have hroot : ((2 : ℝ) ^ (((n : ℝ) - 69) / 12)) ^ 12 = 2 ^ n / 2 ^ 69 := by
    rw [← Real.rpow_natCast, ← Real.rpow_mul (by norm_num)]
    have hexp : ((n : ℝ) - 69) / 12 * ((12 : ℕ) : ℝ) = (n : ℝ) - ((69 : ℕ) : ℝ) := by
      push_cast
      ring
    rw [hexp, Real.rpow_sub (by norm_num), Real.rpow_natCast, Real.rpow_natCast]
  rw [noteFrequency, mul_pow, hroot]
  field_simp

theorem notePeriod_pow (n : ℕ) :
    notePeriod n ^ 12 * (2 ^ n * 440 ^ 12) = 50000000 ^ 12 * 2 ^ 69 := by
  have hpos := (noteFrequency_pos n).ne'
  rw [notePeriod, div_pow, ← noteFrequency_pow]
  field_simp

/-- The table against the 12th powers. -/
theorem midiPeriods_pow : ∀ n < 128,
    midiPeriods.getD n 0 ^ 12 * (2 ^ n * 440 ^ 12) ≤ 50000000 ^ 12 * 2 ^ 69 ∧
      50000000 ^ 12 * 2 ^ 69 < (midiPeriods.getD n 0 + 1) ^ 12 * (2 ^ n * 440 ^ 12) := by
  decide +kernel

theorem toNat_midiROM (n : BitVec 7) : (midiROM n).toNat = midiPeriods.getD n.toNat 0 := by
  have hn : n.toNat < midiPeriods.length := by
    rw [midiPeriods_length]
    exact n.isLt
  have hmem : midiPeriods.getD n.toNat 0 ∈ midiPeriods := by
    rw [List.getD_eq_getElem?_getD, List.getElem?_eq_getElem hn]
    exact List.getElem_mem hn
  obtain ⟨-, hhi⟩ := midiPeriods_bounds _ hmem
  rw [midiROM, BitVec.toNat_ofNat, Nat.mod_eq_of_lt (by omega)]

/-- The exact period is less than a clock above the table's. -/
theorem midiROM_bracket (n : BitVec 7) :
    ((midiROM n).toNat : ℝ) ≤ notePeriod n.toNat ∧ notePeriod n.toNat < (midiROM n).toNat + 1 := by
  obtain ⟨hlo, hhi⟩ := midiPeriods_pow n.toNat n.isLt
  rw [← toNat_midiROM] at hlo hhi
  have hpos : (0 : ℝ) < 2 ^ n.toNat * 440 ^ 12 := by positivity
  have hexact := notePeriod_pow n.toNat
  constructor
  · refine le_of_pow_le_pow_left₀ (n := 12) (by norm_num) (notePeriod_pos _).le ?_
    refine le_of_mul_le_mul_right ?_ hpos
    rw [hexact]
    exact_mod_cast hlo
  · refine lt_of_pow_lt_pow_left₀ 12 (by positivity) ?_
    refine lt_of_mul_lt_mul_right ?_ hpos.le
    rw [hexact]
    exact_mod_cast hhi

/-- **The table is the generator's formula**, for every note. -/
theorem midiROM_floor (n : BitVec 7) : (midiROM n).toNat = ⌊notePeriod n.toNat⌋₊ := by
  obtain ⟨hlo, hhi⟩ := midiROM_bracket n
  exact ((Nat.floor_eq_iff (notePeriod_pos _).le).mpr ⟨hlo, hhi⟩).symm

/-! ## §2 The wave -/

namespace WaveformGenerator

/-- The square oscillator of a generator whose inputs are held. -/
theorem run_sq (s : State) {i : Input} (hi : i.reset = false) (k : ℕ) :
    (run step s (List.replicate k i)).sq
      = run SquareWave.step s.sq (List.replicate k (held (period i))) := by
  induction k with
  | zero => rfl
  | succ k ih =>
    rw [List.replicate_succ', run_concat, List.replicate_succ', run_concat, ← ih]
    show SquareWave.step _ ⟨i.reset, period i⟩ = _
    rw [hi]

/-- The note that a generator is given. -/
def note (i : Input) : BitVec 7 := i.noteVol.extractLsb' 8 7

/-- The cycle of the square wave, against the exact period. -/
theorem cycle_bracket (i : Input) :
    let x := notePeriod (note i).toNat + vibratoOffset i.vibratoLevel
    x < SquareWave.cycle (period i) ∧ SquareWave.cycle (period i) ≤ x + 2 := by
  intro x
  obtain ⟨hlo, hhi⟩ := midiROM_bracket (note i)
  have hexact : ((period i).toNat : ℝ) = (midiROM (note i)).toNat + vibratoOffset i.vibratoLevel := by
    rw [period_eq]
    exact_mod_cast period_exact (note i) i.vibratoLevel
  -- halving the period rounds down, and the reload takes a clock more
  have hcycle : (period i).toNat + 1 ≤ SquareWave.cycle (period i) ∧
      SquareWave.cycle (period i) ≤ (period i).toNat + 2 := by
    unfold SquareWave.cycle
    omega
  have hcycle_lo : ((period i).toNat : ℝ) + 1 ≤ SquareWave.cycle (period i) := by
    exact_mod_cast hcycle.1
  have hcycle_hi : (SquareWave.cycle (period i) : ℝ) ≤ (period i).toNat + 2 := by
    exact_mod_cast hcycle.2
  constructor <;> linarith

/-- **A note that is held is in tune**: whatever was played before, and
wherever the pitch wheel is, the square wave comes to repeat with the exact
period of the note plus the wheel's offset, or at most two clocks later, and
with no shorter period. -/
theorem square_tuned (s : State) {i : Input} (hi : i.reset = false) :
    let x := notePeriod (note i).toNat + vibratoOffset i.vibratoLevel
    let level := fun k => (run step s (List.replicate k i)).sq.localVal
    let settled := s.sq.counter.toNat + 1
    ∃ T : ℕ, x < T ∧ T ≤ x + 2 ∧ (∀ k, settled ≤ k → level (k + T) = level k) ∧
      ∀ d, 0 < d → (∀ k, settled ≤ k → level (k + d) = level k) → T ≤ d := by
  intro x level settled
  have hlevel : ∀ k, level k = SquareWave.level (period i) s.sq k := fun k =>
    congrArg SquareWave.State.localVal (run_sq s hi k)
  obtain ⟨hlo, hhi⟩ := cycle_bracket i
  refine ⟨SquareWave.cycle (period i), hlo, hhi, fun k hk => ?_, fun d hd hper => ?_⟩
  · rw [hlevel, hlevel]
    exact SquareWave.level_cycle hk
  · refine SquareWave.cycle_minimal (s := s.sq) (p := period i) hd fun k hk => ?_
    rw [← hlevel, ← hlevel]
    exact hper k hk

end WaveformGenerator

end MidiSynth.Hardware
