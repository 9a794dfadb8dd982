/-
MidiSynth.Software.SlotTable — the four note slots as a table, and what one
event asks of it.

`main` keeps a slot in three places: the packed register `note_vol_i` (note
number in the high byte, volume in the low byte), the flag `note_used[i]`
and the stamp `note_clocks[i]`. `State.slots` reads the three together, and
`State.controls` reads everything else that outlives a step.

An event does one of five things to the table. `request` says which, from
the event and the flags that gate it, and `Request.onSlots` says what the
table becomes, `Request.writes` which words it stores. `step_slots` and
`step_writes` are the theorems that this is all a step does: every invariant
of the slots is a case analysis over five requests, and no later proof
unfolds a handler.

`SlotTableTheorems` has the proofs.
-/
import MidiSynth.Software.MainLoop

namespace MidiSynth.Software

open MidiSynth.Machine

/-! ## The slots -/

/-- The note number a packed register holds. -/
def noteByte (r : BitVec 16) : Byte := (r >>> 8).setWidth 8

/-- The volume a packed register holds. -/
def volByte (r : BitVec 16) : Byte := r.setWidth 8

@[ext] structure Slot where
  noteVol : BitVec 16
  used : Bool
  clock : Word
  deriving DecidableEq

def State.slots (s : State) : Fin numNotes → Slot :=
  fun i => ⟨s.noteVol i, s.noteUsed i, s.noteClocks i⟩

/-- What a Note On leaves in the slot it claims. -/
def Slot.claimed (p : MidiPacket) (clock : Word) : Slot where
  noteVol := ((p.byte1.setWidth 32 <<< 8) + p.byte2.setWidth 32 : Word).setWidth 16
  used := true
  clock := clock

def Slot.cleared (sl : Slot) : Slot := { sl with noteVol := 0, used := false }

/-- One decay tick of a slot in use, `sustain` being the sustain level: the
volume goes down by one while it is above the level, and a slot found at
volume zero is freed. -/
def Slot.tick (sustain stamp : Word) (sl : Slot) : Slot :=
  if sustain < (volByte sl.noteVol).setWidth 32 ∧ 0 < volByte sl.noteVol then
    { sl with noteVol := ((sl.noteVol.setWidth 32 : Word) - 1).setWidth 16, clock := stamp }
  else if volByte sl.noteVol = 0 then
    { noteVol := 0, used := false, clock := stamp }
  else { sl with clock := stamp }

/-! ## The rest of the state -/

/-- What outlives a step and is not a slot. The scratch locals `vol` and
`available_idx` are neither. -/
@[ext] structure Controls where
  masterVol : Byte
  reverb : Byte
  vibrato : Byte
  decayTime : Word
  releaseTime : Word
  sustainLevel : Word
  msToDec : Word
  firstNote : Bool
  muted : Bool
  deriving DecidableEq

def State.controls (s : State) : Controls where
  masterVol := s.masterVol
  reverb := s.reverb
  vibrato := s.vibrato
  decayTime := s.decayTime
  releaseTime := s.releaseTime
  sustainLevel := s.sustainLevel
  msToDec := s.msToDec
  firstNote := s.firstNote
  muted := s.muted

/-! ## Kinds of packet -/

def MidiPacket.IsNoteOn (p : MidiPacket) : Prop := p.byte0 >>> 4 = 9

def MidiPacket.IsNoteOff (p : MidiPacket) : Prop := p.byte0 >>> 4 = 8

def MidiPacket.IsControlChange (p : MidiPacket) : Prop := p.byte0 >>> 4 = 0xB

/-- The mute button: CC 0x30. -/
def MidiPacket.IsMuteButton (p : MidiPacket) : Prop := p.IsControlChange ∧ p.byte1 = 0x30

def MidiPacket.IsMuteOn (p : MidiPacket) : Prop := p.IsMuteButton ∧ p.byte2 = 0x7F

def MidiPacket.IsMuteOff (p : MidiPacket) : Prop := p.IsMuteButton ∧ p.byte2 ≠ 0x7F

/-- The decay time knob: CC 0x16. -/
def MidiPacket.IsDecayTime (p : MidiPacket) : Prop := p.IsControlChange ∧ p.byte1 = 0x16

/-- The sustain level knob: CC 0x17. -/
def MidiPacket.IsSustainLevel (p : MidiPacket) : Prop := p.IsControlChange ∧ p.byte1 = 0x17

instance (p : MidiPacket) : Decidable p.IsNoteOn := inferInstanceAs (Decidable (_ = _))
instance (p : MidiPacket) : Decidable p.IsNoteOff := inferInstanceAs (Decidable (_ = _))
instance (p : MidiPacket) : Decidable p.IsControlChange := inferInstanceAs (Decidable (_ = _))
instance (p : MidiPacket) : Decidable p.IsMuteButton := inferInstanceAs (Decidable (_ ∧ _))
instance (p : MidiPacket) : Decidable p.IsMuteOn := inferInstanceAs (Decidable (_ ∧ _))
instance (p : MidiPacket) : Decidable p.IsMuteOff := inferInstanceAs (Decidable (_ ∧ _))
instance (p : MidiPacket) : Decidable p.IsDecayTime := inferInstanceAs (Decidable (_ ∧ _))
instance (p : MidiPacket) : Decidable p.IsSustainLevel := inferInstanceAs (Decidable (_ ∧ _))

/-! ## Requests -/

/-- What an event asks of the slot table. -/
inductive Request where
  | keep
  | claim (p : MidiPacket) (clock : Word)
  | release (n : Byte)
  | silence
  | decay (ticks : Fin numNotes → Bool) (sustain : Word) (stamp : Fin numNotes → Word)

/-- A decay poll ticks the slots whose time test succeeds; a Note On counts
only when it is neither the first nor muted. -/
def request (s : State) : Event → Request
  | .packet p clock =>
    if p.IsNoteOn then
      if s.firstNote || s.muted then .keep else .claim p clock
    else if p.IsNoteOff then .release p.byte1
    else if p.IsMuteOn then .silence
    else .keep
  | .poll clk =>
    .decay (fun i => due (clk.test i) (s.noteClocks i) s.msToDec) s.sustainLevel clk.stamp

/-- The sustain level of a decay tick of slot `i`. -/
def tickOf (i : Fin numNotes) (s : State) : Event → Option Word
  | .packet _ _ => none
  | .poll clk =>
    if s.noteUsed i && due (clk.test i) (s.noteClocks i) s.msToDec then some s.sustainLevel
    else none

/-- The table after a request. A release goes by the note byte alone. -/
def Request.onSlots (sl : Fin numNotes → Slot) : Request → Fin numNotes → Slot
  | .keep => sl
  | .claim p clock =>
    match first (fun i => !(sl i).used) with
    | none => sl
    | some i => Function.update sl i (Slot.claimed p clock)
  | .release n =>
    match first (fun i => noteByte (sl i).noteVol == n) with
    | none => sl
    | some i => Function.update sl i (sl i).cleared
  | .silence => fun i => (sl i).cleared
  | .decay ticks sustain stamp => fun i =>
    if (sl i).used && ticks i then (sl i).tick sustain (stamp i) else sl i

/-- The words one tick stores to the register of slot `i`. -/
def Slot.tickWrites (sustain : Word) (i : Fin numNotes) (sl : Slot) : List Write :=
  if sustain < (volByte sl.noteVol).setWidth 32 ∧ 0 < volByte sl.noteVol then
    [⟨.noteVol i, sl.noteVol.setWidth 32 - 1⟩]
  else if volByte sl.noteVol = 0 then [⟨.noteVol i, 0⟩]
  else []

/-- The words a request stores to the note registers. -/
def Request.writes (sl : Fin numNotes → Slot) : Request → List Write
  | .keep => []
  | .claim p _ =>
    match first (fun i => !(sl i).used) with
    | none => []
    | some i => [⟨.noteVol i, (p.byte1.setWidth 32 <<< 8) + p.byte2.setWidth 32⟩]
  | .release n =>
    match first (fun i => noteByte (sl i).noteVol == n) with
    | none => []
    | some i => [⟨.noteVol i, 0⟩]
  | .silence => (List.finRange numNotes).map (fun i => ⟨.noteVol i, 0⟩)
  | .decay ticks sustain _ =>
    (List.finRange numNotes).flatMap fun i =>
      if (sl i).used && ticks i then (sl i).tickWrites sustain i else []

/-- The words an event stores to the effect registers. -/
def effectWrites : Event → List Write
  | .packet p _ =>
    if p.byte0 >>> 4 = 0xE then [⟨.vibrato, p.byte2.setWidth 32⟩]
    else if p.IsControlChange ∧ p.byte1 = 0x01 then [⟨.masterVol, p.byte2.setWidth 32⟩]
    else if p.IsControlChange ∧ p.byte1 = 0x14 then [⟨.reverb, p.byte2.setWidth 32⟩]
    else []
  | .poll _ => []

/-- The controls after an event: the flags and levels the packets set. -/
def nextControls (c : Controls) : Event → Controls
  | .packet p _ =>
    if p.IsNoteOn then { c with firstNote := false }
    else if p.byte0 >>> 4 = 0xE then { c with vibrato := p.byte2 }
    else if p.IsControlChange then
      if p.byte1 = 0x01 then { c with masterVol := p.byte2 }
      else if p.byte1 = 0x14 then { c with reverb := p.byte2 }
      else if p.byte1 = 0x15 then { c with releaseTime := p.byte2.setWidth 32 }
      else if p.byte1 = 0x16 then { c with msToDec := p.byte2.setWidth 32 + 1 }
      else if p.byte1 = 0x17 then { c with sustainLevel := p.byte2.setWidth 32 }
      else if p.byte1 = 0x30 then { c with muted := decide (p.byte2 = 0x7F) }
      else c
    else c
  | .poll _ => c

end MidiSynth.Software
