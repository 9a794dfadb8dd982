/-
MidiSynth.Software.OwnershipTheorems — who owns a slot.

The program keeps no record of the packet that claimed a slot; `lastClaim`
is that record, kept beside the run. `Owned` is the invariant that carries
everything: the table represents a pool in which every voice has the note
and the velocity of its slot's last claim.

`voice_ownership` reads it off: free slots are zero, a used slot carries
its owner's note byte and no more than its owner's velocity, the decay
never borrows into the note byte, and a slot is given up only to a Note Off
for its note, to the mute button, or to a decay poll that sees volume 0.
-/
import MidiSynth.Software.VoicesTheorems

namespace MidiSynth.Software

open MidiSynth.Machine

/-! ## §1 The last claim of a slot -/

/-- The Note On packet by which this event takes slot `i` into use. -/
def claimedBy (s : State) (e : Event) (i : Fin numNotes) : Option MidiPacket :=
  match e with
  | .packet p _ =>
    if p.IsNoteOn ∧ s.noteUsed i = false ∧ (step s e).noteUsed i = true then some p else none
  | .poll _ => none

/-- The loop with a record of the last claim of each slot. -/
def claimStep (sc : State × (Fin numNotes → Option MidiPacket)) (e : Event) :
    State × (Fin numNotes → Option MidiPacket) :=
  (step sc.1 e, fun i => (claimedBy sc.1 e i).or (sc.2 i))

/-- The Note On packet that last claimed slot `i`. -/
def lastClaim (u : Uninit) (evs : List Event) (i : Fin numNotes) : Option MidiPacket :=
  (run claimStep (boot u, fun _ => none) evs).2 i

/-- The record does not disturb the run. -/
theorem run_claimStep_fst (s : State) (c : Fin numNotes → Option MidiPacket)
    (evs : List Event) : (run claimStep (s, c) evs).1 = run step s evs :=
  run_map (f := Prod.fst) (fun _ _ => rfl) (s, c) evs

theorem claimedBy_of_used {s : State} {i : Fin numNotes} (h : s.noteUsed i = true)
    (e : Event) : claimedBy s e i = none := by
  cases e with
  | poll clk => rfl
  | packet p clock => simp [claimedBy, h]

/-! ## §2 The invariant -/

/-- Every voice has the note and the velocity of its slot's last claim. -/
def Owned (sc : State × (Fin numNotes → Option MidiPacket)) : Prop :=
  ∃ pool, Represents sc.1.slots pool ∧
    ∀ i v, pool i = some v → ∃ p, sc.2 i = some p ∧ v.note = p.byte1 ∧ v.velocity = p.byte2

theorem owned_boot (u : Uninit) : Owned (boot u, fun _ => none) :=
  ⟨Pool.clear, boot_represents u, fun _ _ h => by cases h⟩

/-- A slot whose voice was there before keeps its record. -/
theorem claimStep_of_voice {s : State} {c : Fin numNotes → Option MidiPacket}
    {pool : VoicePool} (h : Represents s.slots pool) {i : Fin numNotes} {v : Voice}
    (hv : pool i = some v) (e : Event) : (claimStep (s, c) e).2 i = c i := by
  have hu : s.noteUsed i = true := (h.voice hv).1
  simp only [claimStep, claimedBy_of_used hu, Option.none_or]

theorem owned_step (sc : State × (Fin numNotes → Option MidiPacket)) (e : Event)
    (h : Owned sc) : Owned (claimStep sc e) := by
  obtain ⟨s, c⟩ := sc
  obtain ⟨pool, hrep, howner⟩ := h
  rcases step_represents hrep e with h' | ⟨-, -, hkeep⟩
  · refine ⟨(request s e).onVoices pool, h', fun i w hw => ?_⟩
    rcases onVoices_some hw with ⟨v, hv, hn, hvel, -⟩ | ⟨p, clock, hr, hfree, rfl⟩
    · rw [claimStep_of_voice hrep hv, hn, hvel]
      exact howner i v hv
    · -- the slot was free and is used now: this packet is the new record
      obtain ⟨rfl, hon, -, -⟩ := claim_of_request hr
      have hbefore : s.noteUsed i = false := (hrep.free_iff i).mpr hfree
      have hafter : (step s (.packet p clock)).noteUsed i = true := (h'.voice hw).1
      have hc : claimedBy s (.packet p clock) i = some p := if_pos ⟨hon, hbefore, hafter⟩
      refine ⟨p, ?_, rfl, rfl⟩
      simp only [claimStep, hc, Option.some_or]
  · refine ⟨pool, hkeep ▸ hrep, fun i v hv => ?_⟩
    rw [claimStep_of_voice hrep hv]
    exact howner i v hv

theorem owned_run (u : Uninit) (evs : List Event) :
    ∃ pool, Represents (run step (boot u) evs).slots pool ∧
      ∀ i v, pool i = some v → ∃ p, lastClaim u evs i = some p ∧
        v.note = p.byte1 ∧ v.velocity = p.byte2 := by
  have h : Owned (run claimStep (boot u, fun _ => none) evs) :=
    run_induct owned_step (owned_boot u) evs
  obtain ⟨pool, hrep, howner⟩ := h
  rw [run_claimStep_fst] at hrep
  exact ⟨pool, hrep, howner⟩

/-! ## §3 How a slot is given up -/

/-- A used slot becomes free by a Note Off for its note, by the mute button
going on, or by a decay poll that sees volume 0. -/
theorem freed_cases {s : State} {i : Fin numNotes} {e : Event} (hu : s.noteUsed i = true)
    (hf : (step s e).noteUsed i = false) :
    (∃ p clock, e = .packet p clock ∧ p.IsNoteOff ∧ p.byte1 = noteByte (s.noteVol i)) ∨
      (∃ p clock, e = .packet p clock ∧ p.IsMuteOn) ∨
      (∃ clk, e = .poll clk ∧ volByte (s.noteVol i) = 0) := by
  rcases slot_cases hu e with ⟨-, hslot⟩ | ⟨clk, hclk, -, -, hslot⟩ | ⟨-, p, clock, hp, hend⟩
  · have hsame : (step s e).noteUsed i = s.noteUsed i := congrArg Slot.used hslot
    rw [hsame, hu] at hf
    cases hf
  · have hfreed := (congrArg Slot.used hslot).symm.trans hf
    exact Or.inr (Or.inr ⟨clk, hclk, volByte_of_tick_freed (s.slots i) hu hfreed⟩)
  · rcases hend with ⟨hoff, hn⟩ | hmute
    · exact Or.inl ⟨p, clock, hp, hoff, hn⟩
    · exact Or.inr (Or.inl ⟨p, clock, hp, hmute⟩)

/-- A decay poll leaves the note byte of a slot that stays in use alone. -/
theorem poll_noteByte {s : State} {pool : VoicePool} (h : Represents s.slots pool)
    {i : Fin numNotes} (clk : PollClocks) (hu : s.noteUsed i = true)
    (hu' : (step s (.poll clk)).noteUsed i = true) :
    noteByte ((step s (.poll clk)).noteVol i) = noteByte (s.noteVol i) := by
  obtain ⟨v, hv⟩ := (h.used_iff i).mp hu
  rcases step_represents h (.poll clk) with h' | ⟨hr, -, -⟩
  · obtain ⟨w, hw⟩ := (h'.used_iff i).mp hu'
    have hnote := (h'.voice hw).2.1
    rcases onVoices_some hw with ⟨v', hv', hn, -⟩ | ⟨p, clock, hr, -⟩
    · rw [hv] at hv'
      cases hv'
      exact hnote.trans (hn.trans (h.voice hv).2.1.symm)
    · cases hr
  · cases hr

/-! ## §4 Ownership -/

/-- **Voice ownership**, in every reachable state: (1) a free slot's
register is 0; (2) a used slot's register has the note byte of the Note On
that last claimed it and at most its velocity, and a decay poll never
disturbs the note byte; (3) a used slot is freed only by a Note Off for its
note, by mute-on, or by a decay poll that sees volume 0. -/
theorem voice_ownership (u : Uninit) (evs : List Event) :
    let s := run step (boot u) evs
    (∀ i, s.noteUsed i = false → s.noteVol i = 0) ∧
    (∀ i, s.noteUsed i = true → ∃ p, lastClaim u evs i = some p ∧
      noteByte (s.noteVol i) = p.byte1 ∧ volByte (s.noteVol i) ≤ p.byte2) ∧
    (∀ i clk, s.noteUsed i = true → (step s (.poll clk)).noteUsed i = true →
      noteByte ((step s (.poll clk)).noteVol i) = noteByte (s.noteVol i)) ∧
    (∀ i e, s.noteUsed i = true → (step s e).noteUsed i = false →
      (∃ p clock, e = .packet p clock ∧ p.IsNoteOff ∧ p.byte1 = noteByte (s.noteVol i)) ∨
        (∃ p clock, e = .packet p clock ∧ p.IsMuteOn) ∨
        (∃ clk, e = .poll clk ∧ volByte (s.noteVol i) = 0)) := by
  intro s
  obtain ⟨pool, hrep, howner⟩ := owned_run u evs
  refine ⟨fun i hu => hrep.noteVol_of_free hu, fun i hu => ?_,
    fun i clk hu hu' => poll_noteByte hrep clk hu hu',
    fun i e hu hf => freed_cases hu hf⟩
  obtain ⟨v, hv⟩ := (hrep.used_iff i).mp hu
  obtain ⟨-, hnote, hvol⟩ := hrep.voice hv
  obtain ⟨p, hp, hn, hvel⟩ := howner i v hv
  refine ⟨p, hp, hnote.trans hn, ?_⟩
  have hle := v.volume_le
  rw [← hvel]
  exact (congrArg (· ≤ v.velocity) hvol).mpr hle

end MidiSynth.Software
