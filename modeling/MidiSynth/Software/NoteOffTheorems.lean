/-
MidiSynth.Software.NoteOffTheorems — what a Note Off releases.

`sounding s n` counts the slots in use with note byte `n`. A Note Off for
`n` should take exactly one away (`ReleasesOne`). The scan on line 116
compares registers and does not look at `note_used`, and a free register
reads as note 0, so a free slot in front of the sounding one can capture a
Note Off for note 0: the state is then `Stranded`, the voice stays on and
keeps its slot. `releasesOne_iff` says that this is the only way to miss.

The second half counts over whole runs. `pending n` goes up with every Note
On for `n` and down with every Note Off; `sounding_le_pending` bounds the
voices of a note by it, for every note but 0, so a note whose Note Ons have
all been answered is silent.
-/
import MidiSynth.Software.VoicesTheorems

namespace MidiSynth.Software

open MidiSynth.Machine

/-! ## §1 Counting the voices of a note -/

/-- How many slots are in use with note byte `n`. -/
def sounding (s : State) (n : Byte) : Nat :=
  (Finset.univ.filter fun i => s.noteUsed i = true ∧ noteByte (s.noteVol i) = n).card

theorem sounding_pos_iff {s : State} {n : Byte} :
    0 < sounding s n ↔ ∃ i, s.noteUsed i = true ∧ noteByte (s.noteVol i) = n := by
  rw [sounding, Finset.card_pos]
  constructor
  · rintro ⟨i, hi⟩
    exact ⟨i, (Finset.mem_filter.mp hi).2⟩
  · rintro ⟨i, hi⟩
    exact ⟨i, Finset.mem_filter.mpr ⟨Finset.mem_univ i, hi⟩⟩

theorem sounding_eq_count {s : State} {pool : VoicePool} (h : Represents s.slots pool)
    (n : Byte) : sounding s n = pool.count (fun v => v.note == n) := by
  rw [sounding, Finset.card_filter, Pool.count]
  refine Finset.sum_congr rfl (fun i _ => ?_)
  rw [h.any_iff n i]
  simp

theorem sounding_congr {s t : State} (h : t.slots = s.slots) (n : Byte) :
    sounding t n = sounding s n := by
  have hu : t.noteUsed = s.noteUsed := funext fun i => congrArg Slot.used (congrFun h i)
  have hv : t.noteVol = s.noteVol := funext fun i => congrArg Slot.noteVol (congrFun h i)
  rw [sounding, sounding, hu, hv]

/-! ## §2 One Note Off -/

/-- A Note Off releases exactly one voice of its note and leaves the other
slots alone; without such a voice it leaves the whole state alone. -/
def ReleasesOne (s : State) (p : MidiPacket) (clock : Word) : Prop :=
  let s' := step s (.packet p clock)
  (0 < sounding s p.byte1 → sounding s' p.byte1 + 1 = sounding s p.byte1 ∧
    ∃ j, s.noteUsed j = true ∧ noteByte (s.noteVol j) = p.byte1 ∧
      ∀ i ≠ j, s'.noteVol i = s.noteVol i ∧ s'.noteUsed i = s.noteUsed i ∧
        s'.noteClocks i = s.noteClocks i) ∧
  (sounding s p.byte1 = 0 → s' = s)

/-- The note is 0, some slot sounds it, and a free slot comes before every
slot that does. -/
def Stranded (s : State) (n : Byte) : Prop :=
  n = 0 ∧ (∃ j, s.noteUsed j = true ∧ noteByte (s.noteVol j) = n) ∧
    ∃ i, s.noteUsed i = false ∧
      ∀ j, s.noteUsed j = true → noteByte (s.noteVol j) = n → i < j

section OneNoteOff

variable {s : State} {pool : VoicePool}

/-- A free slot is where the scan stops exactly when it is in front. -/
theorem captures_of_stranded (h : Represents s.slots pool) {n : Byte}
    (hs : Stranded s n) : Captures s.slots n := by
  obtain ⟨rfl, -, i, hi, hbefore⟩ := hs
  have hmatch : ∃ k, (noteByte (s.slots k).noteVol == 0) = true := by
    refine ⟨i, ?_⟩
    rw [h.noteVol_of_free hi]
    rfl
  cases hf : first (fun k => noteByte (s.slots k).noteVol == 0) with
  | none =>
    obtain ⟨k, hk⟩ := hmatch
    rw [first_eq_none_iff.mp hf k] at hk
    cases hk
  | some k =>
    refine ⟨k, hf, ?_⟩
    rw [first_eq_some_iff] at hf
    by_contra hu
    have hlt : i < k := hbefore k (by simpa using hu) (beq_iff_eq.mp hf.1)
    have hno := hf.2 i hlt
    rw [h.noteVol_of_free hi] at hno
    cases hno

theorem stranded_of_captures (h : Represents s.slots pool) {n : Byte}
    (hc : Captures s.slots n) (hpos : 0 < sounding s n) : Stranded s n := by
  refine ⟨eq_zero_of_captures h hc, sounding_pos_iff.mp hpos, ?_⟩
  obtain ⟨i, hf, hu⟩ := hc
  rw [first_eq_some_iff] at hf
  refine ⟨i, hu, fun j hj hn => ?_⟩
  by_contra hle
  rcases Fin.lt_or_eq_of_le (Fin.not_lt.mp hle) with hlt | rfl
  · have hno := hf.2 j hlt
    rw [beq_eq_false_iff_ne] at hno
    exact hno hn
  · exact Bool.false_ne_true (hu.symm.trans hj)

/-- A Note Off that stops at no used slot changes nothing at all. -/
theorem noteOff_unchanged (h : Represents s.slots pool) {p : MidiPacket} (hp : p.IsNoteOff)
    (clock : Word) (hfree : ∀ i, first (fun i => noteByte (s.slots i).noteVol == p.byte1)
      = some i → s.noteUsed i = false) : step s (.packet p clock) = s := by
  show (handlePacket s p clock).1 = s
  rw [handlePacket_noteOff hp, noteOff, noteOff_scan]
  cases hf : first (fun i => noteByte (s.slots i).noteVol == p.byte1) with
  | none => rfl
  | some i =>
    have hu := hfree i hf
    have hz : s.noteVol i = 0 := h.noteVol_of_free hu
    have hvol : Function.update s.noteVol i 0 = s.noteVol := by
      rw [← hz, Function.update_eq_self]
    have hused : Function.update s.noteUsed i false = s.noteUsed := by
      rw [← hu, Function.update_eq_self]
    simp only [State.store]
    rw [show ((0 : Word).setWidth 16) = 0 from rfl, hvol, hused]

/-- A Note Off that is not captured takes one voice away. -/
theorem noteOff_releases (h : Represents s.slots pool) {p : MidiPacket} (hp : p.IsNoteOff)
    (clock : Word) (hc : ¬ Captures s.slots p.byte1) (hpos : 0 < sounding s p.byte1) :
    sounding (step s (.packet p clock)) p.byte1 + 1 = sounding s p.byte1 ∧
      ∃ j, s.noteUsed j = true ∧ noteByte (s.noteVol j) = p.byte1 ∧
        ∀ i ≠ j, (step s (.packet p clock)).slots i = s.slots i := by
  have hslots := step_slots s (.packet p clock)
  rw [request_noteOff hp] at hslots
  have hrep := release_represents h hc
  rw [← hslots] at hrep
  constructor
  · rw [sounding_eq_count hrep, sounding_eq_count h] at *
    rw [Request.onVoices, Pool.count_release]
    omega
  · cases hf : first (fun i => noteByte (s.slots i).noteVol == p.byte1) with
    | none =>
      obtain ⟨i, -, hi⟩ := sounding_pos_iff.mp hpos
      have hno := first_eq_none_iff.mp hf i
      rw [beq_eq_false_iff_ne] at hno
      exact absurd hi hno
    | some j =>
      have hu : s.noteUsed j = true := by
        by_contra hu
        exact hc ⟨j, hf, by simpa using hu⟩
      refine ⟨j, hu, beq_iff_eq.mp (first_eq_some_iff.mp hf).1, fun i hi => ?_⟩
      rw [hslots, Request.onSlots, hf]
      exact Function.update_of_ne hi _ _

end OneNoteOff

/-- **Note Off releases exactly one matching voice**, in every reachable
state, unless the state strands its note. -/
theorem releasesOne_iff (u : Uninit) (evs : List Event) (p : MidiPacket) (clock : Word)
    (hp : p.IsNoteOff) :
    ReleasesOne (run step (boot u) evs) p clock ↔
      ¬ Stranded (run step (boot u) evs) p.byte1 := by
  obtain ⟨pool, h⟩ := run_represents u evs
  generalize run step (boot u) evs = s at h
  constructor
  · intro hrel hs
    have hc := captures_of_stranded h hs
    have hpos : 0 < sounding s p.byte1 := sounding_pos_iff.mpr hs.2.1
    have hslots := step_slots s (.packet p clock)
    rw [request_noteOff hp, release_captured h hc] at hslots
    have hone := (hrel.1 hpos).1
    rw [sounding_congr hslots] at hone
    omega
  · intro hs
    refine ⟨fun hpos => ?_, fun hzero => ?_⟩
    · have hc : ¬ Captures s.slots p.byte1 := fun hc => hs (stranded_of_captures h hc hpos)
      obtain ⟨hone, j, hu, hn, hother⟩ := noteOff_releases h hp clock hc hpos
      refine ⟨hone, j, hu, hn, fun i hi => ?_⟩
      have hi' := hother i hi
      exact ⟨congrArg Slot.noteVol hi', congrArg Slot.used hi', congrArg Slot.clock hi'⟩
    · refine noteOff_unchanged h hp clock (fun i hf => ?_)
      by_contra hu
      have hn : noteByte (s.noteVol i) = p.byte1 :=
        beq_iff_eq.mp (first_eq_some_iff.mp hf).1
      have hpos : 0 < sounding s p.byte1 := sounding_pos_iff.mpr ⟨i, by simpa using hu, hn⟩
      omega

/-- The equivalence at a Note Off for note 60, which sounds in slot 0. -/
theorem releasesOne_iff_sixty :
    let evs : List Event := [.packet ⟨0x90, 0, 0⟩ 0, .packet ⟨0x90, 60, 100⟩ 0]
    ReleasesOne (run step (boot default) evs) ⟨0x80, 60, 0⟩ 0 ↔
      ¬ Stranded (run step (boot default) evs) 60 :=
  releasesOne_iff default _ ⟨0x80, 60, 0⟩ 0 (by decide)

/-- Notes 5 and 0 sound in slots 0 and 1, note 5 is released, and the Note
Off for note 0 stops at the freed slot 0. -/
theorem not_releasesOne :
    ¬ ∀ (u : Uninit) (evs : List Event) (p : MidiPacket) (clock : Word),
      p.IsNoteOff → p.byte1 ≤ 127 → ReleasesOne (run step (boot u) evs) p clock := by
  intro h
  have hrel := h default
    [.packet ⟨0x90, 0, 0⟩ 0, .packet ⟨0x90, 5, 100⟩ 0, .packet ⟨0x90, 0, 100⟩ 0,
      .packet ⟨0x80, 5, 0⟩ 0]
    ⟨0x80, 0, 0⟩ 0 (by decide) (by decide)
  have hone := (hrel.1 (by decide)).1
  exact absurd hone (by decide)

/-! ## §3 Counting Note Ons and Note Offs -/

/-- The count of unanswered Note Ons for `n`, after one event. -/
def pendingStep (n : Byte) (k : Nat) : Event → Nat
  | .packet p _ =>
    if p.byte1 = n then
      if p.IsNoteOn then k + 1
      else if p.IsNoteOff then k - 1
      else k
    else k
  | .poll _ => k

/-- Unanswered Note Ons for `n`: up by one with every Note On for `n`,
whatever the program does with it, and down by one, not below 0, with every
Note Off. -/
def pending (n : Byte) (evs : List Event) : Nat := run (pendingStep n) 0 evs

def noteOns (n : Byte) (evs : List Event) : Nat :=
  evs.countP fun
    | .packet p _ => p.byte1 = n ∧ p.IsNoteOn
    | .poll _ => false

def noteOffs (n : Byte) (evs : List Event) : Nat :=
  evs.countP fun
    | .packet p _ => p.byte1 = n ∧ p.IsNoteOff
    | .poll _ => false

/-- Counting back from any point, the Note Offs for `n` keep up with the
Note Ons. -/
def Answered (n : Byte) (evs : List Event) : Prop :=
  ∀ pre post, evs = pre ++ post → noteOns n post ≤ noteOffs n post

theorem not_noteOff_of_noteOn {p : MidiPacket} (h : p.IsNoteOn) : ¬ p.IsNoteOff :=
  status_ne h (by decide)

/-- An event that is no Note Off for `n` does not lower the count. -/
theorem le_pendingStep {n : Byte} {e : Event} (k : Nat)
    (h : ∀ p clock, e = .packet p clock → p.IsNoteOff → p.byte1 ≠ n) :
    k ≤ pendingStep n k e := by
  cases e with
  | poll clk => exact le_refl k
  | packet p clock =>
    simp only [pendingStep]
    by_cases hn : p.byte1 = n
    · rw [if_pos hn]
      by_cases h9 : p.IsNoteOn
      · rw [if_pos h9]; exact Nat.le_succ k
      · rw [if_neg h9, if_neg (fun h8 => h p clock rfl h8 hn)]
    · rw [if_neg hn]

theorem pendingStep_noteOff {n : Byte} {p : MidiPacket} (h8 : p.IsNoteOff) (clock : Word)
    (k : Nat) : pendingStep n k (.packet p clock) = if p.byte1 = n then k - 1 else k := by
  have h9 : ¬ p.IsNoteOn := fun h9 => not_noteOff_of_noteOn h9 h8
  simp only [pendingStep, if_neg h9, if_pos h8]

theorem pendingStep_noteOn {n : Byte} {p : MidiPacket} (h9 : p.IsNoteOn) (clock : Word)
    (k : Nat) : pendingStep n k (.packet p clock) = if p.byte1 = n then k + 1 else k := by
  simp only [pendingStep, if_pos h9]

/-- The voices of a note stay below the count, one request at a time. -/
theorem count_onVoices_le {s : State} {e : Event} {pool : VoicePool} {n : Byte} {k : Nat}
    (h : pool.count (fun v => v.note == n) ≤ k) :
    ((request s e).onVoices pool).count (fun v => v.note == n) ≤ pendingStep n k e := by
  cases hr : request s e with
  | keep =>
    refine h.trans (le_pendingStep k ?_)
    rintro p clock rfl h8
    rw [request_noteOff h8] at hr
    cases hr
  | claim p clock =>
    obtain ⟨rfl, h9, -, -⟩ := claim_of_request hr
    have hle : (pool.claim (Voice.fresh p)).count (fun v => v.note == n)
        ≤ pool.count (fun v => v.note == n) + (if p.byte1 == n then 1 else 0) :=
      Pool.count_claim_le pool (fun v => v.note == n) (Voice.fresh p)
    rw [pendingStep_noteOn h9, Request.onVoices]
    by_cases hn : p.byte1 = n
    · rw [if_pos (beq_iff_eq.mpr hn)] at hle
      rw [if_pos hn]
      omega
    · rw [if_neg (fun h => hn (beq_iff_eq.mp h))] at hle
      rw [if_neg hn]
      omega
  | release m =>
    obtain ⟨p, clock, rfl, h8, rfl⟩ := noteOff_of_request hr
    rw [pendingStep_noteOff h8, Request.onVoices]
    by_cases hn : p.byte1 = n
    · rw [if_pos hn, hn, Pool.count_release]
      exact Nat.sub_le_sub_right h 1
    · rw [if_neg hn]
      exact (Pool.count_release_le _ _ _).trans h
  | silence =>
    rw [Request.onVoices, Pool.count_clear]
    exact Nat.zero_le _
  | decay ticks sustain stamp =>
    obtain ⟨clk, rfl, -⟩ := poll_of_request hr
    refine le_trans (Pool.count_sweep_le pool _ _ ?_) h
    intro i v w hvw hw
    cases ht : ticks i with
    | false => rw [ht] at hvw; cases hvw; exact hw
    | true =>
      rw [ht] at hvw
      rwa [(tick_some hvw).1] at hw

theorem sounding_le_pending {n : Byte} (hn : n ≠ 0) (u : Uninit) (evs : List Event) :
    sounding (run step (boot u) evs) n ≤ pending n evs := by
  have h : ∃ pool, Represents (run step (boot u) evs).slots pool ∧
      pool.count (fun v => v.note == n) ≤ pending n evs := by
    refine run_rel (R := fun (s : State) k => ∃ pool, Represents s.slots pool ∧
      pool.count (fun v => v.note == n) ≤ k) ?_
      ⟨Pool.clear, boot_represents u, by simp⟩ evs
    rintro s k e ⟨pool, hrep, hle⟩
    rcases step_represents hrep e with h' | ⟨hr, -, hkeep⟩
    · exact ⟨_, h', count_onVoices_le hle⟩
    · -- a captured Note Off is one for note 0
      obtain ⟨p, clock, rfl, h8, h0⟩ := noteOff_of_request hr
      refine ⟨pool, hkeep ▸ hrep, ?_⟩
      rwa [pendingStep_noteOff h8, if_neg (fun h => hn (h.symm.trans h0))]
  obtain ⟨pool, hrep, hle⟩ := h
  rwa [sounding_eq_count hrep]

/-- From `k` unanswered Note Ons, a history that answers them all ends at
none. -/
theorem run_pendingStep_eq_zero {n : Byte} {evs : List Event} {k : Nat}
    (hk : k + noteOns n evs ≤ noteOffs n evs) (h : Answered n evs) :
    run (pendingStep n) k evs = 0 := by
  induction evs generalizing k with
  | nil => simpa [noteOns, noteOffs] using hk
  | cons e evs ih =>
    have htail : Answered n evs := fun pre post hpost => h (e :: pre) post (by rw [hpost]; rfl)
    have hevs : noteOns n evs ≤ noteOffs n evs := htail [] evs rfl
    refine ih ?_ htail
    cases e with
    | poll clk => simpa [noteOns, noteOffs, pendingStep] using hk
    | packet p clock =>
      by_cases hn : p.byte1 = n
      · by_cases h9 : p.IsNoteOn
        · have h8 := not_noteOff_of_noteOn h9
          simp only [noteOns, noteOffs, pendingStep, List.countP_cons, hn, h9, h8, and_true,
            and_false, decide_true, decide_false, if_true, Bool.false_eq_true, if_false] at hk ⊢
          omega
        · by_cases h8 : p.IsNoteOff
          · simp only [noteOns, noteOffs, pendingStep, List.countP_cons, hn, h9, h8, and_true,
              and_false, decide_true, decide_false, if_true, Bool.false_eq_true,
              if_false] at hk hevs ⊢
            omega
          · simpa [noteOns, noteOffs, pendingStep, hn, h9, h8] using hk
      · simpa [noteOns, noteOffs, pendingStep, hn] using hk

/-- **No stuck notes.** In every run and for every note but 0, the slots
sounding the note never outnumber its unanswered Note Ons; once every Note
On for it has been followed by as many Note Offs, no slot sounds it. -/
theorem no_stuck_notes (u : Uninit) (evs : List Event) (n : Byte) (hn : n ≠ 0) :
    sounding (run step (boot u) evs) n ≤ pending n evs ∧
      (Answered n evs → ∀ i, ¬ ((run step (boot u) evs).noteUsed i = true ∧
        noteByte ((run step (boot u) evs).noteVol i) = n)) := by
  have hle := sounding_le_pending hn u evs
  refine ⟨hle, fun hans i hi => ?_⟩
  have hzero : pending n evs = 0 :=
    run_pendingStep_eq_zero (by rw [Nat.zero_add]; exact hans [] evs rfl) hans
  have hpos : 0 < sounding (run step (boot u) evs) n := sounding_pos_iff.mpr ⟨i, hi⟩
  omega

/-- Two Note Ons for note 60, the first ignored, and one Note Off. -/
theorem no_stuck_notes_sixty :
    let evs : List Event := [.packet ⟨0x90, 60, 100⟩ 0, .packet ⟨0x90, 60, 100⟩ 0,
      .packet ⟨0x80, 60, 0⟩ 0]
    pending 60 evs = 1 ∧ sounding (run step (boot default) evs) 60 ≤ pending 60 evs :=
  ⟨by decide, (no_stuck_notes default _ 60 (by decide)).1⟩

end MidiSynth.Software
