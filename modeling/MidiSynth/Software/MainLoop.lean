/-
MidiSynth.Software.MainLoop — the event loop of `software/synthesizer/main.cpp`.

`main` initialises the PIO registers and its locals and then loops forever:
it drains the received MIDI packets through one `switch`, and then polls
the four note slots for decay. Both are steps of one machine here. An
`Event` is either a received 3-byte packet, with the reading `clock()`
gives if the packet claims a slot, or one decay poll, with the two readings
`clock()` gives in each slot's round (the test on line 186 and the stamp on
line 188).

`step` returns the next state AND the list of 32-bit words stored to the
PIO registers, in order. The registers are as wide as the SoC builds them
(16 bits for `note_vol_0..3`, 8 bits for the effects) and read back what
was last stored, zero-extended to the 32-bit bus.

`unsigned int` and `clock_t` are 32-bit words; `Uninit` holds the locals
`main` declares and never initialises. The three `printf` traces are left
out: nothing reads them.
-/
import Mathlib.Logic.Function.Basic
import MidiSynth.Machine.Slots

namespace MidiSynth.Software

open MidiSynth.Machine

/-! ## Data -/

abbrev Byte := BitVec 8

/-- `unsigned int` and `clock_t` on the Nios II. -/
abbrev Word := BitVec 32

/-- `int NUM_NOTES = 4`. -/
abbrev numNotes : Nat := 4

/-- System clock ticks in a second. -/
def clocksPerSec : Word := 1000

/-- `uint8_t MIDI_packet[3]`. -/
structure MidiPacket where
  byte0 : Byte
  byte1 : Byte
  byte2 : Byte
  deriving DecidableEq, Repr

/-- The PIO registers `main` stores to. -/
inductive Reg where
  | noteVol (i : Fin numNotes)
  | masterVol
  | reverb
  | vibrato
  deriving DecidableEq, Repr

/-- One store of a 32-bit word to a PIO register. -/
structure Write where
  reg : Reg
  value : Word
  deriving DecidableEq, Repr

/-- The PIO registers and the locals of `main`. -/
structure State where
  noteVol : Fin numNotes → BitVec 16
  masterVol : Byte
  reverb : Byte
  vibrato : Byte
  decayTime : Word
  releaseTime : Word
  sustainLevel : Word
  vol : Word
  msToDec : Word
  noteClocks : Fin numNotes → Word
  availableIdx : Int
  noteUsed : Fin numNotes → Bool
  firstNote : Bool
  muted : Bool

/-- What the locals hold that the program declares without a value. -/
structure Uninit where
  vol : Word
  msToDec : Word
  noteClocks : Fin numNotes → Word
  availableIdx : Int

instance : Inhabited Uninit := ⟨⟨0, 0, fun _ => 0, 0⟩⟩

/-- The readings of `clock()` in one decay poll, slot by slot: the one the
test uses and the one the slot is stamped with. -/
structure PollClocks where
  test : Fin numNotes → Word
  stamp : Fin numNotes → Word

inductive Event where
  | packet (p : MidiPacket) (clock : Word)
  | poll (clk : PollClocks)

/-! ## The PIO registers -/

/-- A store keeps the low bits, as many as the register has. -/
def State.store (s : State) (w : Write) : State :=
  match w.reg with
  | .noteVol i => { s with noteVol := Function.update s.noteVol i (w.value.setWidth 16) }
  | .masterVol => { s with masterVol := w.value.setWidth 8 }
  | .reverb => { s with reverb := w.value.setWidth 8 }
  | .vibrato => { s with vibrato := w.value.setWidth 8 }

def State.storeAll (s : State) (ws : List Write) : State := ws.foldl State.store s

/-- `*(note_vol_array[i])`: the register, zero-extended to the bus. -/
def State.loadNoteVol (s : State) (i : Fin numNotes) : Word := (s.noteVol i).setWidth 32

/-! ## Initialisation (lines 57 to 78) -/

/-- The stores that initialise the registers. -/
def bootWrites : List Write :=
  [⟨.masterVol, 64⟩, ⟨.vibrato, 64⟩, ⟨.reverb, 0⟩]
    ++ (List.finRange numNotes).map (fun i => ⟨.noteVol i, 0⟩)

/-- The state at the top of `while(1)`. -/
def boot (u : Uninit) : State :=
  State.storeAll
    { noteVol := fun _ => 0
      masterVol := 0
      reverb := 0
      vibrato := 0
      decayTime := 0
      releaseTime := 0
      sustainLevel := 127
      vol := u.vol
      msToDec := u.msToDec
      noteClocks := u.noteClocks
      availableIdx := u.availableIdx
      noteUsed := fun _ => false
      firstNote := true
      muted := false }
    bootWrites

/-! ## The packet handlers -/

/-- Note ON (lines 90 to 112). -/
def noteOn (s : State) (p : MidiPacket) (clock : Word) : State × List Write :=
  if s.firstNote then ({ s with firstNote := false }, [])
  else if !s.muted then
    -- the scan sets available_idx and note_used together
    match first (fun i => !s.noteUsed i) with
    | none => ({ s with availableIdx := -1 }, [])
    | some i =>
      let s := { s with availableIdx := i, noteUsed := Function.update s.noteUsed i true }
      let w : Write := ⟨.noteVol i, (p.byte1.setWidth 32 <<< 8) + p.byte2.setWidth 32⟩
      let s := s.store w
      ({ s with noteClocks := Function.update s.noteClocks i clock }, [w])
  else (s, [])

/-- Note OFF (lines 114 to 122). The scan compares the register alone: it
does not look at `note_used`. -/
def noteOff (s : State) (p : MidiPacket) : State × List Write :=
  match first (fun i => s.loadNoteVol i >>> 8 == p.byte1.setWidth 32) with
  | none => (s, [])
  | some i =>
    let w : Write := ⟨.noteVol i, 0⟩
    let s := s.store w
    ({ s with noteUsed := Function.update s.noteUsed i false }, [w])

/-- Pitch wheel (lines 124 to 127). -/
def pitchWheel (s : State) (p : MidiPacket) : State × List Write :=
  let w : Write := ⟨.vibrato, p.byte2.setWidth 32⟩
  (s.store w, [w])

/-- Mute button (lines 158 to 169). -/
def muteButton (s : State) (p : MidiPacket) : State × List Write :=
  if p.byte2.setWidth 32 = (0x7F : Word) then
    let ws := (List.finRange numNotes).map (fun i => (⟨.noteVol i, 0⟩ : Write))
    let s := State.storeAll { s with muted := true } ws
    ({ s with noteUsed := fun _ => false }, ws)
  else ({ s with muted := false }, [])

/-- Additional effects (lines 129 to 178). -/
def controlChange (s : State) (p : MidiPacket) : State × List Write :=
  match p.byte1.toNat with
  | 0x01 =>
    let w : Write := ⟨.masterVol, p.byte2.setWidth 32⟩
    (s.store w, [w])
  | 0x14 =>
    let w : Write := ⟨.reverb, p.byte2.setWidth 32⟩
    (s.store w, [w])
  | 0x15 => ({ s with releaseTime := p.byte2.setWidth 32 }, [])
  | 0x16 => ({ s with msToDec := p.byte2.setWidth 32 + 1 }, [])
  | 0x17 => ({ s with sustainLevel := p.byte2.setWidth 32 }, [])
  | 0x30 => muteButton s p
  | _ => (s, [])

/-- The `switch` on the high nibble of the status byte. -/
def handlePacket (s : State) (p : MidiPacket) (clock : Word) : State × List Write :=
  match (p.byte0 >>> 4).toNat with
  | 9 => noteOn s p clock
  | 8 => noteOff s p
  | 0xE => pitchWheel s p
  | 0xB => controlChange s p
  | _ => (s, [])

/-! ## The decay poll (lines 183 to 198) -/

/-- The time test on line 186, in 32-bit unsigned arithmetic. -/
def due (now stamp msToDec : Word) : Bool :=
  decide (msToDec ≤ 2000 * (now - stamp) / clocksPerSec)

/-- One round of the poll. -/
def pollSlot (clk : PollClocks) (s : State) (i : Fin numNotes) : State × List Write :=
  if s.noteUsed i then
    let s := { s with vol := s.loadNoteVol i &&& 0x00FF }
    if due (clk.test i) (s.noteClocks i) s.msToDec then
      let s := { s with noteClocks := Function.update s.noteClocks i (clk.stamp i) }
      if s.sustainLevel < s.vol ∧ 0 < s.vol then
        let w : Write := ⟨.noteVol i, s.loadNoteVol i - 1⟩
        (s.store w, [w])
      else if s.vol = 0 then
        let w : Write := ⟨.noteVol i, 0⟩
        let s := s.store w
        ({ s with noteUsed := Function.update s.noteUsed i false }, [w])
      else (s, [])
    else (s, [])
  else (s, [])

/-- The four rounds, in order. -/
def poll (s : State) (clk : PollClocks) : State × List Write :=
  (List.finRange numNotes).foldl
    (fun acc i =>
      let r := pollSlot clk acc.1 i
      (r.1, acc.2 ++ r.2))
    (s, [])

/-! ## The loop -/

/-- One event: the next state and the words stored. -/
def exec (s : State) : Event → State × List Write
  | .packet p clock => handlePacket s p clock
  | .poll clk => poll s clk

def step (s : State) (e : Event) : State := (exec s e).1

def writes (s : State) (e : Event) : List Write := (exec s e).2

end MidiSynth.Software
