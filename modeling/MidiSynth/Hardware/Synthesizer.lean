/-
MidiSynth.Hardware.Synthesizer — from the PIO registers to the sample:
`waveform_generator.sv` and the wiring of `synthesizer.sv`.

A waveform generator holds the three oscillators of one note. All three run
all the time, at the period the note number selects in `MIDI_ROM` and the
vibrato level shifts; `wave_select` chooses which one is heard. Its 8-bit
volume goes to a 7-bit port, which drops the top bit, and so does the
master volume on its way to the mixer.

`synthesizer.sv` wires four generators to the mixer. The HEX displays, the
SDRAM and the I2C pins carry no sample and are left out.
-/
import MidiSynth.Hardware.Mixer
import MidiSynth.Hardware.Oscillators

namespace MidiSynth.Hardware

open MidiSynth.Verilog MidiSynth.Verilog.Expr

/-! ## The period table -/

/-- `MIDI_freq_to_period.txt`: the period of each MIDI note, in clocks. -/
def midiPeriods : List Nat :=
  [0x5D511A, 0x58144F, 0x5322C5, 0x4E7842, 0x4A10CB, 0x45E89B, 0x41FC25, 0x3E4810,
   0x3AC931, 0x377C8B, 0x345F4E, 0x316ECF, 0x2EA88D, 0x2C0A27, 0x299162, 0x273C21,
   0x250865, 0x22F44D, 0x20FE12, 0x1F2408, 0x1D6498, 0x1BBE45, 0x1A2FA7, 0x18B767,
   0x175446, 0x160513, 0x14C8B1, 0x139E10, 0x128432, 0x117A26, 0x107F09, 0x0F9204,
   0x0EB24C, 0x0DDF22, 0x0D17D3, 0x0C5BB3, 0x0BAA23, 0x0B0289, 0x0A6458, 0x09CF08,
   0x094219, 0x08BD13, 0x083F84, 0x07C902, 0x075926, 0x06EF91, 0x068BE9, 0x062DD9,
   0x05D511, 0x058144, 0x05322C, 0x04E784, 0x04A10C, 0x045E89, 0x041FC2, 0x03E481,
   0x03AC93, 0x0377C8, 0x0345F4, 0x0316EC, 0x02EA88, 0x02C0A2, 0x029916, 0x0273C2,
   0x025086, 0x022F44, 0x020FE1, 0x01F240, 0x01D649, 0x01BBE4, 0x01A2FA, 0x018B76,
   0x017544, 0x016051, 0x014C8B, 0x0139E1, 0x012843, 0x0117A2, 0x0107F0, 0x00F920,
   0x00EB24, 0x00DDF2, 0x00D17D, 0x00C5BB, 0x00BAA2, 0x00B028, 0x00A645, 0x009CF0,
   0x009421, 0x008BD1, 0x0083F8, 0x007C90, 0x007592, 0x006EF9, 0x0068BE, 0x0062DD,
   0x005D51, 0x005814, 0x005322, 0x004E78, 0x004A10, 0x0045E8, 0x0041FC, 0x003E48,
   0x003AC9, 0x00377C, 0x00345F, 0x00316E, 0x002EA8, 0x002C0A, 0x002991, 0x00273C,
   0x002508, 0x0022F4, 0x0020FE, 0x001F24, 0x001D64, 0x001BBE, 0x001A2F, 0x0018B7,
   0x001754, 0x001605, 0x0014C8, 0x00139E, 0x001284, 0x00117A, 0x00107F, 0x000F92]

/-- `MIDI_ROM[n]`. -/
def midiROM (n : BitVec 7) : BitVec 23 := BitVec.ofNat 23 (midiPeriods.getD n.toNat 0)

/-- The table has an entry for every index. -/
theorem midiPeriods_length : midiPeriods.length = 128 := by decide +kernel

/-! ## One note -/

namespace WaveformGenerator

/-- The ports of a generator at a rising edge of `clk`. -/
structure Input where
  reset : Bool
  waveSelect : BitVec 2
  noteVol : BitVec 16
  vibratoLevel : BitVec 8
  deriving DecidableEq, Repr

structure State where
  saw : SawtoothWave.State
  sq : SquareWave.State
  tri : TriangleWave.State
  deriving DecidableEq, Repr

/-- `MIDI_ROM[note_vol[14:8]] + ((vibrato_level - 64)*6000 >> 7)`. -/
def period (i : Input) : BitVec 23 :=
  assign 23 (sig (midiROM (i.noteVol.extractLsb' 8 7))
    + (((sig i.vibratoLevel - (64 : Expr)) * (6000 : Expr)) >>> (7 : Expr)))

/-- `note_vol[7:0]` on the 7-bit port `volume`. -/
def volume (i : Input) : BitVec 7 := (i.noteVol.extractLsb' 0 8).setWidth 7

/-- The `case(wave_select)`: a square wave on both unused codes. -/
def sample (i : Input) (s : State) : BitVec 24 :=
  match i.waveSelect.toNat with
  | 0 => SquareWave.value s.sq (volume i)
  | 1 => SawtoothWave.value s.saw (volume i)
  | 2 => TriangleWave.value s.tri (volume i)
  | _ => SquareWave.value s.sq (volume i)

def step (s : State) (i : Input) : State where
  saw := SawtoothWave.step s.saw ⟨i.reset, period i⟩
  sq := SquareWave.step s.sq ⟨i.reset, period i⟩
  tri := TriangleWave.step s.tri ⟨i.reset, period i⟩

end WaveformGenerator

/-! ## Four notes and the mixer -/

namespace Synthesizer

/-- The reset key, the switches and the PIO registers. -/
structure Input where
  reset : Bool
  sw : BitVec 2
  noteVol : Fin 4 → BitVec 16
  masterVol : BitVec 8
  vibratoLevel : BitVec 8

abbrev State := Fin 4 → WaveformGenerator.State

/-- The ports of generator `n`. -/
def noteInput (i : Input) (n : Fin 4) : WaveformGenerator.Input :=
  ⟨i.reset, i.sw, i.noteVol n, i.vibratoLevel⟩

/-- `output_sample`, the word the codec gets. -/
def outputSample (i : Input) (s : State) : BitVec 24 :=
  let sample := fun n => WaveformGenerator.sample (noteInput i n) (s n)
  mixedSample (sample 0) (sample 1) (sample 2) (sample 3) (i.masterVol.setWidth 7)

def step (s : State) (i : Input) : State :=
  fun n => WaveformGenerator.step (s n) (noteInput i n)

end Synthesizer

end MidiSynth.Hardware
