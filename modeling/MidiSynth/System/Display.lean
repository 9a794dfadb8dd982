/-
MidiSynth.System.Display — the HEX displays: `note_table.sv`, `HexDriver.sv`
and their wiring in `synthesizer.sv`.

Three digits show the note of register 0: its name, with `6` for G, a `b`
when it is the flat of that name, and the octave. Note 0 is in octave -1, so
the octave wraps to `F`.

`display_reads` says that the digits determine the note: `readNote` is how
they are read. `display_shows` follows this through the program: in every
reachable state they show the note of the Note On that slot 0 is in use for,
and note 0 when it is free.
-/
import MidiSynth.Software.OwnershipTheorems
import MidiSynth.Verilog.Expr

namespace MidiSynth.System

open MidiSynth.Machine MidiSynth.Software
open MidiSynth.Verilog MidiSynth.Verilog.Expr

/-! ## §1 The circuit -/

/-- `octave`. -/
def octave (midiFreq : BitVec 7) : BitVec 4 := assign 4 (sig midiFreq / (12 : Expr) - (1 : Expr))

/-- `note_name` and `flat`, by `MIDI_freq % 12`. -/
def noteNames : List (BitVec 4 × Bool) :=
  [(0xC, false), (0xD, true), (0xD, false), (0xE, true), (0xE, false), (0xF, false),
   (0x6, true), (0x6, false), (0xA, true), (0xA, false), (0xB, true), (0xB, false)]

def noteName (midiFreq : BitVec 7) : BitVec 4 × Bool := noteNames.getD (midiFreq.toNat % 12) (0, false)

/-- The `partial` digit. -/
def flatDigit (flat : Bool) : BitVec 4 := if flat then 0xB else 0

/-- `HexDriver`: the segments of each digit, lit when 0. -/
def hexDriver : List (BitVec 7) :=
  [0b1000000, 0b1111001, 0b0100100, 0b0110000, 0b0011001, 0b0010010, 0b0000010, 0b1111000,
   0b0000000, 0b0010000, 0b0001000, 0b0000011, 0b1000110, 0b0100001, 0b0000110, 0b0001110]

/-- `HEX0` to `HEX2`: the segments, and the point, which is off. -/
structure Displays where
  hex0 : BitVec 8
  hex1 : BitVec 8
  hex2 : BitVec 8
  deriving DecidableEq, Repr

def segments (digit : BitVec 4) : BitVec 8 := (1 : BitVec 1) ++ hexDriver.getD digit.toNat 0

def displays (noteVol : BitVec 16) : Displays :=
  let midiFreq : BitVec 7 := noteVol.extractLsb' 8 7
  { hex0 := segments (octave midiFreq)
    hex1 := segments (flatDigit (noteName midiFreq).2)
    hex2 := segments (noteName midiFreq).1 }

/-! ## §2 Reading it -/

def readDigit (hex : BitVec 8) : BitVec 4 := BitVec.ofNat 4 (hexDriver.idxOf (hex.setWidth 7))

/-- The note that the three digits stand for. -/
def readNote (d : Displays) : ℕ :=
  12 * (readDigit d.hex0 + 1).toNat + noteNames.idxOf (readDigit d.hex2, readDigit d.hex1 == 0xB)

/-- No two digits look the same. -/
theorem readDigit_segments : ∀ digit : BitVec 4, readDigit (segments digit) = digit := by
  decide

/-- The name and the octave give the note back. -/
theorem noteName_octave : ∀ n : BitVec 7,
    12 * (octave n + 1).toNat + noteNames.idxOf ((noteName n).1, (noteName n).2) = n.toNat := by
  decide +kernel

/-- **The displays show the note** of the register, whatever its volume is. -/
theorem display_reads (noteVol : BitVec 16) :
    readNote (displays noteVol) = (noteVol.extractLsb' 8 7).toNat := by
  have hflat : ∀ flat, (flatDigit flat == 0xB) = flat := by decide
  simp only [readNote, displays, readDigit_segments, hflat]
  exact noteName_octave _

/-! ## §3 In every run -/

theorem note_extract (noteVol : BitVec 16) :
    (noteVol.extractLsb' 8 7).toNat = (noteByte noteVol).toNat % 128 := by
  rw [noteByte, BitVec.extractLsb'_toNat, BitVec.toNat_setWidth, BitVec.toNat_ushiftRight]
  omega

/-- **What the displays show**, in every reachable state: the note that last
claimed slot 0 as long as it is in use, and else note 0. -/
theorem display_shows (u : Uninit) (evs : List Event) :
    let s := run Software.step (Software.boot u) evs
    (s.noteUsed 0 = false → readNote (displays (s.noteVol 0)) = 0) ∧
      (s.noteUsed 0 = true → ∃ p, lastClaim u evs 0 = some p ∧
        readNote (displays (s.noteVol 0)) = p.byte1.toNat % 128) := by
  intro s
  obtain ⟨pool, hrep, howner⟩ := owned_run u evs
  refine ⟨fun hfree => ?_, fun hused => ?_⟩
  · have hzero : s.noteVol 0 = 0 := hrep.noteVol_of_free hfree
    rw [display_reads, hzero]
    rfl
  · obtain ⟨v, hv⟩ := (hrep.used_iff 0).mp hused
    obtain ⟨-, hnote, -⟩ := hrep.voice hv
    obtain ⟨p, hp, hn, -⟩ := howner 0 v hv
    refine ⟨p, hp, ?_⟩
    rw [display_reads, note_extract, show noteByte (s.noteVol 0) = p.byte1 from hnote.trans hn]

theorem display_shows_sixty :
    let evs : List Event := [.packet ⟨0x90, 0, 0⟩ 0, .packet ⟨0x90, 60, 100⟩ 0]
    ∃ p, lastClaim default evs 0 = some p ∧
      readNote (displays ((run Software.step (Software.boot default) evs).noteVol 0))
        = p.byte1.toNat % 128 :=
  (display_shows default _).2 (by decide)

end MidiSynth.System
