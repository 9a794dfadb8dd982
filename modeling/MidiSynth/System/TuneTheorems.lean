/-
MidiSynth.System.TuneTheorems — from the wire to the pitch.

`key_in_tune` puts the levels together. A Note On that arrives in a packet
is handed to the `switch` (`Firmware`), its note byte goes to the register of
the slot it claims and stays there (`OwnershipTheorems`), the pitch wheel's
last position is in `vibrato` (`vibrato_run`), and the generator that is
wired to the two registers comes to repeat with the period of the note in
equal temperament plus the wheel's offset, within two clocks
(`TuningTheorems`).
-/
import MidiSynth.Hardware.TuningTheorems
import MidiSynth.System.Display
import MidiSynth.System.FirmwareTheorems

namespace MidiSynth.System

open MidiSynth.Machine MidiSynth.Hardware MidiSynth.Software

/-! ## §1 The wheel -/

/-- A pitch wheel message moves the wheel. -/
def wheelAfter (level : Byte) : Event → Byte
  | .packet p _ => if p.byte0 >>> 4 = 0xE then p.byte2 else level
  | .poll _ => level

/-- Where the wheel is after these events. It rests at 64. -/
def wheel (evs : List Event) : Byte := evs.foldl wheelAfter 64

theorem nextControls_vibrato (c : Controls) (e : Event) :
    (nextControls c e).vibrato = wheelAfter c.vibrato e := by
  cases e with
  | poll clk => rfl
  | packet p clock =>
    simp only [nextControls, wheelAfter]
    by_cases h9 : p.IsNoteOn
    · have hE : p.byte0 >>> 4 ≠ 0xE := status_ne h9 (by decide)
      rw [if_pos h9, if_neg hE]
    · rw [if_neg h9]
      by_cases hE : p.byte0 >>> 4 = 0xE
      · rw [if_pos hE, if_pos hE]
      · rw [if_neg hE, if_neg hE]
        simp only [apply_ite Controls.vibrato, ite_self]

theorem vibrato_run (u : Uninit) (evs : List Event) :
    (run Software.step (Software.boot u) evs).vibrato = wheel evs :=
  run_map (f := State.vibrato)
    (fun s e => (congrArg Controls.vibrato (step_controls s e)).trans
      (nextControls_vibrato s.controls e))
    (Software.boot u) evs

/-! ## §2 The key -/

/-- The owner of a slot is a packet that was handled. -/
theorem claim_mem {evs : List Event} {p : MidiPacket} {n : Fin numNotes}
    {sc : State × (Fin numNotes → Option MidiPacket)}
    (h : (run claimStep sc evs).2 n = some p) :
    sc.2 n = some p ∨ p ∈ evs.filterMap Firmware.packetOf := by
  induction evs generalizing sc with
  | nil => exact Or.inl h
  | cons e evs ih =>
    rcases ih h with hrec | hmem
    · cases hclaim : claimedBy sc.1 e n with
      | none =>
        left
        simpa only [claimStep, hclaim, Option.none_or] using hrec
      | some q =>
        right
        simp only [claimStep, hclaim, Option.some_or, Option.some.injEq] at hrec
        subst hrec
        cases e with
        | poll clk => cases hclaim
        | packet q clock =>
          simp only [claimedBy] at hclaim
          split at hclaim
          · rw [Option.some.inj hclaim]
            exact List.mem_cons_self
          · cases hclaim
    · right
      rw [List.filterMap_cons]
      split
      · exact hmem
      · exact List.mem_cons_of_mem _ hmem

theorem lastClaim_mem {u : Uninit} {evs : List Event} {n : Fin numNotes} {p : MidiPacket}
    (h : lastClaim u evs n = some p) : p ∈ evs.filterMap Firmware.packetOf :=
  (claim_mem h).resolve_left nofun

/-! ## §3 In tune -/

/-- What the circuit sees while the registers stay as they are. -/
def ports (s : State) (sw : BitVec 2) : Synthesizer.Input :=
  ⟨false, sw, s.noteVol, s.masterVol, s.vibrato⟩

/-- The level of generator `n`'s square wave, `k` clocks on. -/
def squareLevel (s : State) (sw : BitVec 2) (hw : Synthesizer.State) (n : Fin numNotes) (k : ℕ) :
    BitVec 24 :=
  (run Synthesizer.step hw (List.replicate k (ports s sw)) n).sq.localVal

/-- One generator of four. -/
theorem run_generator (hw : Synthesizer.State) (i : Synthesizer.Input) (n : Fin numNotes) (k : ℕ) :
    run Synthesizer.step hw (List.replicate k i) n
      = run WaveformGenerator.step (hw n) (List.replicate k (Synthesizer.noteInput i n)) := by
  induction k with
  | zero => rfl
  | succ k ih =>
    rw [List.replicate_succ', run_concat, List.replicate_succ', run_concat, ← ih]
    rfl

/-- **A key that sounds is in tune**: in every reachable state of the whole
loop, a slot in use belongs to a Note On that a packet brought, and from any
state of the circuit the square wave of its generator comes to repeat with
the period of that note in equal temperament plus the offset of the pitch
wheel, or at most two clocks later, and with no shorter period. -/
theorem key_in_tune (u : Uninit) (midi : Usb.Midi) (is : List Input) (n : Fin numNotes) :
    let start := Firmware.boot u midi
    let s := (run Firmware.step start is).main
    let evs := collect Firmware.step Firmware.events start is
    s.noteUsed n = true → ∃ p, lastClaim u evs n = some p ∧
      p ∈ (collect Firmware.step Firmware.fates start is).filterMap Firmware.handled ∧
      ∀ (sw : BitVec 2) (hw : Synthesizer.State),
        let x := notePeriod (p.byte1.toNat % 128) + vibratoOffset (wheel evs)
        let level := squareLevel s sw hw n
        let settled := (hw n).sq.counter.toNat + 1
        ∃ T : ℕ, x < T ∧ T ≤ x + 2 ∧ (∀ k, settled ≤ k → level (k + T) = level k) ∧
          ∀ d, 0 < d → (∀ k, settled ≤ k → level (k + d) = level k) → T ≤ d := by
  intro start s evs hused
  have hs : s = run Software.step (Software.boot u) evs :=
    Firmware.run_main (Firmware.boot_inv u midi) is
  obtain ⟨pool, hrep, howner⟩ := owned_run u evs
  rw [← hs] at hrep
  obtain ⟨v, hv⟩ := (hrep.used_iff n).mp hused
  obtain ⟨p, hp, hn, -⟩ := howner n v hv
  have hnote : noteByte (s.noteVol n) = p.byte1 := (hrep.voice hv).2.1.trans hn
  refine ⟨p, hp, ?_, fun sw hw => ?_⟩
  · rw [← Firmware.run_packets]
    exact lastClaim_mem hp
  · have htuned := WaveformGenerator.square_tuned (hw n)
      (i := Synthesizer.noteInput (ports s sw) n) rfl
    have hvibrato : s.vibrato = wheel evs := by
      rw [hs]
      exact vibrato_run u evs
    have hwave : WaveformGenerator.note (Synthesizer.noteInput (ports s sw) n)
        = (s.noteVol n).extractLsb' 8 7 := rfl
    have hwheel : (Synthesizer.noteInput (ports s sw) n).vibratoLevel = wheel evs := hvibrato
    simp only [hwave, hwheel, note_extract, hnote, ← run_generator] at htuned
    exact htuned

/-- The first Note On is dropped, the second one is heard. -/
theorem key_in_tune_keys :
    let start := Firmware.boot default default
    let evs := collect Firmware.step Firmware.events start Firmware.keyInputs
    ∃ p, lastClaim default evs 0 = some p ∧
      p ∈ (collect Firmware.step Firmware.fates start Firmware.keyInputs).filterMap
        Firmware.handled ∧
      ∀ (sw : BitVec 2) (hw : Synthesizer.State),
        let x := notePeriod (p.byte1.toNat % 128) + vibratoOffset (wheel evs)
        let level := squareLevel (run Firmware.step start Firmware.keyInputs).main sw hw 0
        let settled := (hw 0).sq.counter.toNat + 1
        ∃ T : ℕ, x < T ∧ T ≤ x + 2 ∧ (∀ k, settled ≤ k → level (k + T) = level k) ∧
          ∀ d, 0 < d → (∀ k, settled ≤ k → level (k + d) = level k) → T ≤ d :=
  key_in_tune default default Firmware.keyInputs 0 (by decide +kernel)

end MidiSynth.System
