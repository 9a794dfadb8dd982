/-
MidiSynth.System.SilenceTheorems — from the mute button to the codec.

The software half is an invariant: while `muted` is set the pool of voices
is empty, so all four registers are 0 (`MutedClear`). No handler but Note On
brings a voice into an empty pool, and Note On looks at the flag. The
hardware half is one line of arithmetic: a register of 0 has volume 0, and
volume 0 scales any level of any oscillator to 0.

`Silent` is the property they share, with everything the software does not
decide left open: the state of the oscillators, the switches, the reset,
the vibrato and the master volume.
-/
import MidiSynth.Hardware.ScaleTheorems
import MidiSynth.Hardware.Synthesizer
import MidiSynth.Software.VoicesTheorems

namespace MidiSynth.System

open MidiSynth.Machine MidiSynth.Hardware MidiSynth.Software

/-! ## §1 Registers of 0 are silent -/

theorem sample_zero {i : WaveformGenerator.Input} (h : i.noteVol = 0)
    (s : WaveformGenerator.State) : WaveformGenerator.sample i s = 0 := by
  have hvol : WaveformGenerator.volume i = 0 := by
    rw [WaveformGenerator.volume, h]
    rfl
  unfold WaveformGenerator.sample
  rw [hvol]
  split <;> exact scale_zero _

theorem outputSample_zero {i : Synthesizer.Input} (h : ∀ n, i.noteVol n = 0)
    (s : Synthesizer.State) : Synthesizer.outputSample i s = 0 := by
  have hsample : ∀ n, WaveformGenerator.sample (Synthesizer.noteInput i n) (s n) = 0 :=
    fun n => sample_zero (h n) (s n)
  simp only [Synthesizer.outputSample, hsample]
  exact mixedSample_zero _

/-! ## §2 Muted means empty -/

/-- Only the mute button sets or clears `muted`. -/
theorem nextControls_muted (c : Controls) (p : MidiPacket) (clock : Word) :
    (nextControls c (.packet p clock)).muted =
      if p.IsMuteButton then decide (p.byte2 = 0x7F) else c.muted := by
  simp only [nextControls, MidiPacket.IsMuteButton]
  by_cases hB : p.IsControlChange
  · have h9 : ¬ p.IsNoteOn := status_ne hB (by decide)
    have hE : p.byte0 >>> 4 ≠ 0xE := status_ne hB (by decide)
    simp only [h9, hE, hB, if_true, if_false, true_and]
    by_cases h30 : p.byte1 = 0x30
    · simp [h30]
    · simp only [h30, if_false]
      repeat (split; rfl)
      rfl
  · simp only [hB, false_and, if_false]
    repeat (split; rfl)
    rfl

theorem request_muteOn {p : MidiPacket} (h : p.IsMuteOn) (s : Software.State) (clock : Word) :
    request s (.packet p clock) = .silence := by
  have hB : p.IsControlChange := h.1.1
  have h9 : ¬ p.IsNoteOn := status_ne hB (by decide)
  have h8 : ¬ p.IsNoteOff := status_ne hB (by decide)
  simp only [request, if_neg h9, if_neg h8, if_pos h]

/-- A step that ends muted pressed the mute button or was muted before. -/
theorem muted_cases {s : Software.State} {e : Event}
    (h : (Software.step s e).muted = true) : request s e = .silence ∨ s.muted = true := by
  have hc : (nextControls s.controls e).muted = true :=
    (congrArg Controls.muted (step_controls s e)).symm.trans h
  cases e with
  | poll clk => exact Or.inr hc
  | packet p clock =>
    rw [nextControls_muted] at hc
    by_cases hb : p.IsMuteButton
    · rw [if_pos hb] at hc
      exact Or.inl (request_muteOn ⟨hb, of_decide_eq_true hc⟩ s clock)
    · rw [if_neg hb] at hc
      exact Or.inr hc

/-- While muted, the slots represent the empty pool. -/
def MutedClear (s : Software.State) : Prop :=
  ∃ pool, Represents s.slots pool ∧ (s.muted = true → pool = Pool.clear)

theorem mutedClear_boot (u : Uninit) : MutedClear (boot u) :=
  ⟨Pool.clear, boot_represents u, fun _ => rfl⟩

/-- In an empty pool a request that is no claim leaves it empty. -/
theorem onVoices_of_muted {s : Software.State} {e : Event} {pool : VoicePool}
    (hpool : s.muted = true → pool = Pool.clear) (h : (Software.step s e).muted = true) :
    (request s e).onVoices pool = Pool.clear := by
  rcases muted_cases h with hr | hm
  · rw [hr]
    rfl
  · rw [hpool hm]
    refine onVoices_clear (fun p clock hr => ?_)
    have hunmuted := (claim_of_request hr).2.2.2
    rw [hm] at hunmuted
    cases hunmuted

theorem mutedClear_step (s : Software.State) (e : Event) (h : MutedClear s) :
    MutedClear (Software.step s e) := by
  obtain ⟨pool, hrep, hpool⟩ := h
  rcases step_represents hrep e with h' | ⟨hr, -, hkeep⟩
  · exact ⟨_, h', onVoices_of_muted hpool⟩
  · refine ⟨pool, hkeep ▸ hrep, fun hm => ?_⟩
    rcases muted_cases hm with hsil | hm'
    · rw [hr] at hsil
      cases hsil
    · exact hpool hm'

theorem mutedClear_run (u : Uninit) (evs : List Event) :
    MutedClear (run Software.step (boot u) evs) :=
  run_induct mutedClear_step (mutedClear_boot u) evs

/-! ## §3 Silence end to end -/

/-- The registers are 0 and nothing is heard, whatever the oscillators, the
switches, the reset, the vibrato and the master volume are. -/
def Silent (s : Software.State) : Prop :=
  (∀ i, s.noteVol i = 0) ∧
    ∀ (hw : Synthesizer.State) (reset : Bool) (sw : BitVec 2) (masterVol vibratoLevel : BitVec 8),
      Synthesizer.outputSample ⟨reset, sw, s.noteVol, masterVol, vibratoLevel⟩ hw = 0

theorem silent_of_registers {s : Software.State} (h : ∀ i, s.noteVol i = 0) : Silent s :=
  ⟨h, fun hw _ _ _ _ => outputSample_zero h hw⟩

theorem silent_of_muted {s : Software.State} (h : MutedClear s) (hm : s.muted = true) :
    Silent s := by
  obtain ⟨pool, hrep, hpool⟩ := h
  rw [hpool hm] at hrep
  exact silent_of_registers fun i => hrep.noteVol_of_clear i

theorem silent_of_unused {s : Software.State} (h : MutedClear s)
    (hu : ∀ i, s.noteUsed i = false) : Silent s := by
  obtain ⟨pool, hrep, -⟩ := h
  exact silent_of_registers fun i => hrep.noteVol_of_free (hu i)

/-- An event other than mute-off leaves a muted state muted. -/
theorem muted_step {s : Software.State} {e : Event} (hm : s.muted = true)
    (he : ∀ p clock, e = .packet p clock → ¬ p.IsMuteOff) :
    (Software.step s e).muted = true := by
  have hc : (Software.step s e).muted = (nextControls s.controls e).muted :=
    congrArg Controls.muted (step_controls s e)
  cases e with
  | poll clk => exact hc.trans hm
  | packet p clock =>
    rw [hc, nextControls_muted]
    by_cases hb : p.IsMuteButton
    · rw [if_pos hb]
      exact decide_eq_true (not_not.mp fun h7F => he p clock rfl ⟨hb, h7F⟩)
    · rw [if_neg hb]
      exact hm

/-- **Silence end to end.** In every reachable state that is muted, or in
which no slot is in use, the synthesizer is silent; and while it is muted
every event but mute-off leaves it muted and silent. -/
theorem silence_end_to_end (u : Uninit) (evs : List Event) :
    let s := run Software.step (boot u) evs
    ((s.muted = true ∨ ∀ i, s.noteUsed i = false) → Silent s) ∧
    (s.muted = true → ∀ e, (∀ p clock, e = .packet p clock → ¬ p.IsMuteOff) →
      (Software.step s e).muted = true ∧ Silent (Software.step s e)) := by
  intro s
  have hinv : MutedClear s := mutedClear_run u evs
  refine ⟨?_, fun hm e he => ?_⟩
  · rintro (hm | hu)
    · exact silent_of_muted hinv hm
    · exact silent_of_unused hinv hu
  · have hm' := muted_step hm he
    exact ⟨hm', silent_of_muted (mutedClear_step s e hinv) hm'⟩

/-- A voice is claimed, mute is pressed, and a Note On is dropped. -/
theorem silence_end_to_end_muted :
    let evs : List Event := [.packet ⟨0x90, 0, 0⟩ 0, .packet ⟨0x90, 60, 100⟩ 0,
      .packet ⟨0xB0, 0x30, 0x7F⟩ 0, .packet ⟨0x90, 60, 100⟩ 0]
    Silent (run Software.step (boot default) evs) :=
  (silence_end_to_end default _).1 (Or.inl (by decide))

end MidiSynth.System
