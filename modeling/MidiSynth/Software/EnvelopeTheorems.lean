/-
MidiSynth.Software.EnvelopeTheorems — the decay envelope of a voice.

A decay tick of a slot is a poll that finds it in use and passes the time
test (`tickOf`). Between its claim and its end nothing but its own ticks
changes a slot, whatever the other slots and packets do (`slot_cases`), and
the tick of its voice is one `fade` of the volume towards the sustain level
of that poll (`voice_fades`, `tick_fades`). So the life of a voice is a
`Fades` run of its velocity over the sustain levels at its ticks
(`run_fades`), and the bounds and the closed form are those of
`Machine.Envelope`.
-/
import MidiSynth.Machine.Envelope
import MidiSynth.Software.OwnershipTheorems

namespace MidiSynth.Software

open MidiSynth.Machine

/-! ## §1 One tick -/

/-- The sustain levels at the successive decay ticks of slot `i`. -/
def decayTicks (i : Fin numNotes) (s : State) (evs : List Event) : List Word :=
  (outputs step (tickOf i) s evs).filterMap id

theorem decayTicks_cons (i : Fin numNotes) (s : State) (e : Event) (evs : List Event) :
    decayTicks i s (e :: evs) = (tickOf i s e).toList ++ decayTicks i (step s e) evs := by
  unfold decayTicks
  rw [outputs_cons]
  cases tickOf i s e with
  | none => rfl
  | some sustain => rfl

def volume (i : Fin numNotes) (s : State) : Nat := (volByte (s.noteVol i)).toNat

/-- The volume of a voice that is in use. -/
def voiceLevel (i : Fin numNotes) (s : State) : Option Nat :=
  if s.noteUsed i then some (volume i s) else none

theorem voiceLevel_of_used {i : Fin numNotes} {s : State} (h : s.noteUsed i = true) :
    voiceLevel i s = some (volume i s) := if_pos h

theorem voiceLevel_eq_none_iff (i : Fin numNotes) (s : State) :
    voiceLevel i s = none ↔ s.noteUsed i = false := by
  unfold voiceLevel
  cases s.noteUsed i <;> simp

theorem lt_setWidth_iff (sustain : Word) (v : Byte) :
    sustain < v.setWidth 32 ↔ sustain.toNat < v.toNat := by
  have hlt := v.isLt
  rw [BitVec.lt_def, BitVec.toNat_setWidth, Nat.mod_eq_of_lt (by omega)]

/-- The tick of a voice is one fade of its volume. -/
theorem voice_fades (v : Voice) (sustain : Word) :
    (v.tick sustain).map (fun w => w.volume.toNat) = fade sustain.toNat v.volume.toNat := by
  unfold Voice.tick fade
  by_cases hz : v.volume = 0
  · simp [hz]
  · have hpos : v.volume.toNat ≠ 0 := fun h => hz (BitVec.eq_of_toNat_eq h)
    rw [dif_neg hz, if_neg hpos]
    by_cases hs : sustain < v.volume.setWidth 32
    · rw [if_pos hs, if_pos ((lt_setWidth_iff _ _).mp hs), Option.map_some]
      exact congrArg some (toNat_pred hz)
    · rw [if_neg hs, if_neg (fun h => hs ((lt_setWidth_iff _ _).mpr h))]
      rfl

/-- So is the tick of a slot in use; it leaves the note byte alone unless it
frees the slot. -/
theorem tick_fades (sl : Slot) (hu : sl.used = true) (sustain stamp : Word) :
    (fade sustain.toNat (volByte sl.noteVol).toNat = none ∧
        (sl.tick sustain stamp).used = false ∧ (sl.tick sustain stamp).noteVol = 0) ∨
      ∃ next, fade sustain.toNat (volByte sl.noteVol).toNat = some next ∧
        (sl.tick sustain stamp).used = true ∧
        noteByte (sl.tick sustain stamp).noteVol = noteByte sl.noteVol ∧
        (volByte (sl.tick sustain stamp).noteVol).toNat = next := by
  -- the voice the slot holds; its velocity plays no part
  obtain ⟨v, hholds⟩ : ∃ v : Voice, sl.Holds (some v) :=
    ⟨⟨noteByte sl.noteVol, volByte sl.noteVol, volByte sl.noteVol, BitVec.le_refl _⟩, hu, rfl, rfl⟩
  have hafter := tick_holds hholds sustain stamp
  have hfade := voice_fades v sustain
  obtain ⟨-, hnote, hvol⟩ := hholds
  rw [hvol, ← hfade]
  cases hv : v.tick sustain with
  | none =>
    rw [hv] at hafter
    exact Or.inl ⟨rfl, hafter⟩
  | some w =>
    rw [hv] at hafter
    obtain ⟨hused, hnote', hvol'⟩ := hafter
    refine Or.inr ⟨w.volume.toNat, rfl, hused, ?_, congrArg BitVec.toNat hvol'⟩
    rw [hnote', (tick_some hv).1, hnote]

/-- So a tick lowers the volume by one at most; a freed slot had none. -/
theorem tick_volume (sl : Slot) (hu : sl.used = true) (sustain stamp : Word) :
    (volByte (sl.tick sustain stamp).noteVol).toNat = (volByte sl.noteVol).toNat ∨
      (volByte (sl.tick sustain stamp).noteVol).toNat + 1 = (volByte sl.noteVol).toNat := by
  rcases tick_fades sl hu sustain stamp with ⟨hend, -, hzero⟩ | ⟨next, hnext, -, -, hvol⟩
  · rw [hzero, eq_zero_of_fade hend]
    exact Or.inl rfl
  · have hstep := fade_cases hnext
    omega

/-! ## §2 The claim -/

section Claim

variable {s : State} {i : Fin numNotes}

theorem claimed_bytes (p : MidiPacket) (clock : Word) :
    noteByte (Slot.claimed p clock).noteVol = p.byte1 ∧
      volByte (Slot.claimed p clock).noteVol = p.byte2 :=
  bytes_packed p.byte1 p.byte2

/-- The slot a Note On claims. -/
theorem slot_of_claimedBy {p q : MidiPacket} {clock : Word}
    (h : claimedBy s (.packet q clock) i = some p) :
    q = p ∧ (step s (.packet q clock)).slots i = Slot.claimed q clock := by
  simp only [claimedBy] at h
  split at h
  · rename_i hq
    obtain ⟨hon, hfree, hused⟩ := hq
    refine ⟨Option.some.inj h, ?_⟩
    have hslot := step_slot s (.packet q clock) i
    have hchanged : (step s (.packet q clock)).slots i ≠ s.slots i := by
      intro heq
      have hflag : (step s (.packet q clock)).noteUsed i = s.noteUsed i :=
        congrArg Slot.used heq
      rw [hused, hfree] at hflag
      cases hflag
    simp only [request, if_pos hon] at hslot
    split at hslot
    · exact absurd hslot hchanged
    · rcases claim_slot s.slots q clock i with hsame | ⟨-, hclaimed⟩
      · exact absurd (hslot.trans hsame) hchanged
      · exact hslot.trans hclaimed
  · cases h

end Claim

/-! ## §3 The life of a voice -/

/-- The packets that may end a voice of note `n`. -/
def Event.MayEnd (n : Byte) : Event → Prop
  | .packet p _ => p.IsNoteOff ∧ p.byte1 = n ∨ p.IsMuteOn
  | .poll _ => False

instance decidableMayEnd (n : Byte) : ∀ e : Event, Decidable (e.MayEnd n)
  | .packet p _ => inferInstanceAs (Decidable (p.IsNoteOff ∧ p.byte1 = n ∨ p.IsMuteOn))
  | .poll _ => inferInstanceAs (Decidable False)

/-- The voice of note `n` in slot `i` is there, and the event does not end
it by a Note Off for `n` or by the mute button. -/
def Spared (i : Fin numNotes) (n : Byte) (s : State) (e : Event) : Prop :=
  s.noteUsed i = true ∧ (e.MayEnd n → (step s e).noteUsed i = true)

instance (i : Fin numNotes) (n : Byte) (s : State) (e : Event) : Decidable (Spared i n s e) :=
  inferInstanceAs (Decidable (_ ∧ (_ → _)))

section Life

variable {s : State} {i : Fin numNotes} {n : Byte} {e : Event} {evs : List Event}

/-- An event leaves a voice it spares alone, or ticks it. -/
theorem spared_cases (h : Spared i n s e) (hn : noteByte (s.noteVol i) = n) :
    (tickOf i s e = none ∧ (step s e).slots i = s.slots i) ∨
      (tickOf i s e = some s.sustainLevel ∧
        ∃ stamp, (step s e).slots i = (s.slots i).tick s.sustainLevel stamp) := by
  obtain ⟨hu, hspare⟩ := h
  rcases slot_cases hu e with hidle | ⟨clk, -, -, ht, hslot⟩ | ⟨hfreed, p, clock, rfl, hend⟩
  · exact Or.inl hidle
  · exact Or.inr ⟨ht, clk.stamp i, hslot⟩
  · rw [hn] at hend
    have hused := hspare hend
    rw [hfreed] at hused
    cases hused

/-- **The life of a voice is a fade** of its volume over the sustain levels
at its ticks, and its note byte stays. -/
theorem run_fades (hu : s.noteUsed i = true) (hn : noteByte (s.noteVol i) = n)
    (h : Along step (Spared i n) s evs) :
    Fades (volume i s) ((decayTicks i s evs).map BitVec.toNat)
        (voiceLevel i (run step s evs)) ∧
      ((run step s evs).noteUsed i = true → noteByte ((run step s evs).noteVol i) = n) := by
  induction evs generalizing s with
  | nil =>
    rw [run_nil, voiceLevel, if_pos hu]
    exact ⟨Fades.start _, fun _ => hn⟩
  | cons e evs ih =>
    obtain ⟨hspared, hrest⟩ := h
    rw [decayTicks_cons, run_cons]
    rcases spared_cases hspared hn with ⟨ht, hslot⟩ | ⟨ht, stamp, hslot⟩
    · have hu' : (step s e).noteUsed i = true := (congrArg Slot.used hslot).trans hu
      have hvol : (step s e).noteVol i = s.noteVol i := congrArg Slot.noteVol hslot
      have hlife := ih hu' (by rw [hvol]; exact hn) hrest
      rw [volume, hvol] at hlife
      rw [ht]
      exact hlife
    · have hused := congrArg Slot.used hslot
      have hvol := congrArg Slot.noteVol hslot
      rw [ht]
      rcases tick_fades (s.slots i) hu s.sustainLevel stamp with
        ⟨hend, hgone, -⟩ | ⟨next, hnext, hu', hnote, hnextvol⟩
      · -- freed: no event of this life can follow
        have hfreed : (step s e).noteUsed i = false := hused.trans hgone
        cases evs with
        | nil =>
          rw [run_nil, voiceLevel, hfreed]
          exact ⟨Fades.ended hend, fun hu'' => by cases hu''⟩
        | cons e' evs =>
          have hu'' := hrest.1.1
          rw [hfreed] at hu''
          cases hu''
      · have hlife := ih (hused.trans hu')
          ((congrArg noteByte hvol).trans (hnote.trans hn)) hrest
        have hv : volume i (step s e) = next :=
          (congrArg (fun r => (volByte r).toNat) hvol).trans hnextvol
        rw [hv] at hlife
        exact ⟨Fades.tick hnext hlife.1, hlife.2⟩

/-- One event of the life of a voice. -/
theorem spared_volume (h : Spared i n s e) (hn : noteByte (s.noteVol i) = n) :
    (tickOf i s e = none → volume i (step s e) = volume i s) ∧
      (tickOf i s e ≠ none →
        volume i (step s e) = volume i s ∨ volume i (step s e) + 1 = volume i s) := by
  rcases spared_cases h hn with ⟨ht, hslot⟩ | ⟨ht, stamp, hslot⟩
  · have hvol : (step s e).noteVol i = s.noteVol i := congrArg Slot.noteVol hslot
    rw [volume, hvol]
    exact ⟨fun _ => rfl, fun hne => absurd ht hne⟩
  · have hvol : (step s e).noteVol i = ((s.slots i).tick s.sustainLevel stamp).noteVol :=
      congrArg Slot.noteVol hslot
    refine ⟨fun hnone => ?_, fun _ => ?_⟩
    · rw [ht] at hnone
      cases hnone
    · rw [volume, hvol]
      exact tick_volume (s.slots i) h.1 s.sustainLevel stamp

/-- **The decay envelope**, for a Note On that claims slot `i` in any state
and any events over which the voice is not ended by a Note Off for its note
or by the mute button. (a) An event that is no tick leaves the volume alone,
a tick lowers it by 0 or 1; while the slot is in use its note byte stays and
its volume is at least the lowest of the velocity and the sustain levels at
the ticks. (b) If that level is constant, the volume in use after `k` ticks
is `max (v - k) (min v sustain)`; the slot is freed exactly when that
minimum is 0 and `k` is `v + 1`, and takes no further tick. -/
theorem decay_envelope (s : State) (p : MidiPacket) (clock : Word) (i : Fin numNotes)
    (hclaim : claimedBy s (.packet p clock) i = some p) (evs : List Event)
    (hlife : Along step (Spared i p.byte1) (step s (.packet p clock)) evs) :
    let s₁ := step s (.packet p clock)
    let t := run step s₁ evs
    let v := p.byte2.toNat
    let levels := decayTicks i s₁ evs
    let k := levels.length
    (∀ pre e post, evs = pre ++ e :: post →
      (tickOf i (run step s₁ pre) e = none →
        volume i (run step s₁ (pre ++ [e])) = volume i (run step s₁ pre)) ∧
      (tickOf i (run step s₁ pre) e ≠ none →
        volume i (run step s₁ (pre ++ [e])) = volume i (run step s₁ pre) ∨
          volume i (run step s₁ (pre ++ [e])) + 1 = volume i (run step s₁ pre))) ∧
    (t.noteUsed i = true → noteByte (t.noteVol i) = p.byte1 ∧
      (levels.map BitVec.toNat).foldl min v ≤ volume i t) ∧
    (∀ sustain : Word, (∀ x ∈ levels, x = sustain) →
      (t.noteUsed i = true → volume i t = max (v - k) (min v sustain.toNat)) ∧
      (t.noteUsed i = false ↔ min v sustain.toNat = 0 ∧ k = v + 1) ∧
      (min v sustain.toNat = 0 → k ≤ v + 1)) := by
  intro s₁ t v levels k
  obtain ⟨-, hslot⟩ := slot_of_claimedBy hclaim
  obtain ⟨hnote, hvol⟩ := claimed_bytes p clock
  have hu : s₁.noteUsed i = true := congrArg Slot.used hslot
  have hreg : s₁.noteVol i = (Slot.claimed p clock).noteVol := congrArg Slot.noteVol hslot
  have hn : noteByte (s₁.noteVol i) = p.byte1 := by rw [hreg, hnote]
  have hv : volume i s₁ = v := by rw [volume, hreg, hvol]
  obtain ⟨hfades, hkeeps⟩ := run_fades hu hn hlife
  rw [hv] at hfades
  refine ⟨?_, fun h => ⟨hkeeps h, (hfades.bounds _ (voiceLevel_of_used h)).1⟩, ?_⟩
  · rintro pre e post rfl
    obtain ⟨hpre, hspared, -⟩ := along_append.mp hlife
    rw [run_concat]
    exact spared_volume hspared ((run_fades hu hn hpre).2 hspared.1)
  · intro sustain hconst
    have hfloors : ∀ x ∈ levels.map BitVec.toNat, x = sustain.toNat := by
      intro x hx
      obtain ⟨y, hy, rfl⟩ := List.mem_map.mp hx
      rw [hconst y hy]
    obtain ⟨hexact, hend, hshort⟩ := hfades.constant hfloors
    have hk : (levels.map BitVec.toNat).length = k := List.length_map _
    rw [hk] at hexact hend hshort
    exact ⟨fun h => hexact _ (voiceLevel_of_used h),
      (voiceLevel_eq_none_iff i t).symm.trans hend, hshort⟩

/-- Before: the sustain level is set to 2. -/
def sustainTwo : State :=
  run step (boot default) [.packet ⟨0x90, 0, 0⟩ 0, .packet ⟨0xB0, 0x17, 2⟩ 0]

/-- Four polls, and a key in the next slot pressed and released between
them. -/
def fourPolls : List Event :=
  let poll : Event := .poll ⟨fun _ => 0, fun _ => 0⟩
  [poll, .packet ⟨0x90, 0x40, 100⟩ 0, poll, .packet ⟨0x80, 0x40, 0⟩ 0, poll, poll]

/-- A voice of velocity 5 fades to the sustain level, and stays there. -/
theorem decay_envelope_sixty :
    let t := run step (step sustainTwo (.packet ⟨0x90, 0x3C, 5⟩ 0)) fourPolls
    t.noteUsed 0 = true ∧ volume 0 t = max (5 - 4) (min 5 2) := by
  have hticks : decayTicks 0 (step sustainTwo (.packet ⟨0x90, 0x3C, 5⟩ 0)) fourPolls
      = [2, 2, 2, 2] := by decide
  have hused : (run step (step sustainTwo (.packet ⟨0x90, 0x3C, 5⟩ 0)) fourPolls).noteUsed 0
      = true := by decide
  obtain ⟨-, -, hconst⟩ := decay_envelope sustainTwo ⟨0x90, 0x3C, 5⟩ 0 0 (by decide) fourPolls
    (by decide)
  rw [hticks] at hconst
  exact ⟨hused, (hconst 2 (fun x hx => List.eq_of_mem_replicate (n := 4) hx)).1 hused⟩

end Life

end MidiSynth.Software
