/-
MidiSynth.Software.Voices — what the slot table is for: a pool of sounding
voices.

The abstract state has no packed words and no flags. A `Voice` is a note
claimed with a velocity and a volume that has only gone down since (the
field `volume_le` makes a louder voice impossible to build); a `VoicePool`
is four slots, each empty or holding one voice. A Note On claims the first
empty slot, a Note Off releases the first voice of its note, the mute
button clears the pool, and a decay tick fades a voice towards the sustain
level and ends it once it is at zero.

`Represents` ties the two levels: a free slot has a zero register, a used
slot has its voice's note in the high byte and its volume in the low byte.
`Captures` is the one situation in which the levels part: a Note Off whose
scan stops at a FREE slot. A free register reads as note 0, so only a Note
Off for note 0 can be captured.
-/
import MidiSynth.Software.SlotTable

namespace MidiSynth.Software

open MidiSynth.Machine

/-- A sounding note. -/
structure Voice where
  note : Byte
  velocity : Byte
  volume : Byte
  volume_le : volume ≤ velocity

/-- The voice a Note On starts. -/
def Voice.fresh (p : MidiPacket) : Voice where
  note := p.byte1
  velocity := p.byte2
  volume := p.byte2
  volume_le := BitVec.le_refl _

theorem toNat_pred {v : Byte} (h : v ≠ 0) : (v - 1).toNat = v.toNat - 1 := by
  have hlt := v.isLt
  have hpos : v.toNat ≠ 0 := fun h' => h (BitVec.eq_of_toNat_eq h')
  have hone : (1 : Byte).toNat = 1 := rfl
  rw [BitVec.toNat_sub, hone]
  omega

/-- The voice one step softer. -/
def Voice.softer (v : Voice) (h : v.volume ≠ 0) : Voice where
  note := v.note
  velocity := v.velocity
  volume := v.volume - 1
  volume_le := by
    have hv := v.volume_le
    rw [BitVec.le_def] at hv ⊢
    rw [toNat_pred h]
    omega

/-- One decay tick: a silent voice ends, a voice above the sustain level
gets softer. -/
def Voice.tick (sustain : Word) (v : Voice) : Option Voice :=
  if h : v.volume = 0 then none
  else if sustain < v.volume.setWidth 32 then some (v.softer h)
  else some v

abbrev VoicePool := Pool numNotes Voice

/-- The purpose of each request, on voices. -/
def Request.onVoices (pool : VoicePool) : Request → VoicePool
  | .keep => pool
  | .claim p _ => pool.claim (Voice.fresh p)
  | .release n => pool.release (fun v => v.note == n)
  | .silence => Pool.clear
  | .decay ticks sustain _ =>
    pool.sweep (fun i v => if ticks i then v.tick sustain else some v)

/-- A slot holds a voice, or is free. -/
def Slot.Holds (sl : Slot) : Option Voice → Prop
  | none => sl.used = false ∧ sl.noteVol = 0
  | some v => sl.used = true ∧ noteByte sl.noteVol = v.note ∧ volByte sl.noteVol = v.volume

def Represents (sl : Fin numNotes → Slot) (pool : VoicePool) : Prop :=
  ∀ i, (sl i).Holds (pool i)

/-- The scan of a Note Off for `n` stops at a free slot. -/
def Captures (sl : Fin numNotes → Slot) (n : Byte) : Prop :=
  ∃ i, first (fun i => noteByte (sl i).noteVol == n) = some i ∧ (sl i).used = false

end MidiSynth.Software
