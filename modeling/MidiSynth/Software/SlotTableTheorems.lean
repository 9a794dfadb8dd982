/-
MidiSynth.Software.SlotTableTheorems — one event changes the slot table as
`Request.onSlots` says and the controls as `nextControls` says.

§1 reads bytes off packed words. §2 is the effect of a store. §3 takes the
packet handlers one by one, §4 the decay poll, and §5 assembles
`step_slots`, `step_writes` and `step_controls`. §6 inverts `request`: which
events claim, release, silence or decay. §7 follows a single slot:
`slot_cases` is all that an event can do to a slot in use.
-/
import MidiSynth.Machine.Run
import MidiSynth.Software.SlotTable

namespace MidiSynth.Software

open MidiSynth.Machine

/-! ## §1 Bytes of a packed word -/

theorem toNat_noteByte (r : BitVec 16) : (noteByte r).toNat = r.toNat / 256 := by
  have hr := r.isLt
  simp [noteByte, Nat.shiftRight_eq_div_pow]
  omega

theorem toNat_volByte (r : BitVec 16) : (volByte r).toNat = r.toNat % 256 := by
  simp [volByte]

/-- The two bytes of the word a Note On stores. -/
theorem bytes_packed (n v : Byte) :
    noteByte (((n.setWidth 32 <<< 8) + v.setWidth 32 : Word).setWidth 16) = n ∧
      volByte (((n.setWidth 32 <<< 8) + v.setWidth 32 : Word).setWidth 16) = v := by
  have hn := n.isLt
  have hv := v.isLt
  constructor <;> apply BitVec.eq_of_toNat_eq <;>
    simp [toNat_noteByte, toNat_volByte, Nat.shiftLeft_eq] <;> omega

/-- The comparison of the Note OFF scan is one of note bytes. -/
theorem load_shiftRight_eq_iff (r : BitVec 16) (n : Byte) :
    (r.setWidth 32 : Word) >>> 8 = n.setWidth 32 ↔ noteByte r = n := by
  have hr := r.isLt
  have hn := n.isLt
  rw [← BitVec.toNat_inj, ← BitVec.toNat_inj, toNat_noteByte]
  simp [Nat.shiftRight_eq_div_pow]
  omega

theorem load_and_eq (r : BitVec 16) :
    (r.setWidth 32 : Word) &&& 0x00FF = (volByte r).setWidth 32 := by
  apply BitVec.eq_of_toNat_eq
  have hmask : (0x00FF : Word).toNat = 2 ^ 8 - 1 := rfl
  have hr := r.isLt
  rw [BitVec.toNat_and, hmask, Nat.and_two_pow_sub_one_eq_mod, BitVec.toNat_setWidth,
    BitVec.toNat_setWidth, toNat_volByte]
  omega

/-- `-= 1` on a packed word whose volume is positive does not borrow. -/
theorem bytes_decrement {r : BitVec 16} (h : 0 < volByte r) :
    noteByte (((r.setWidth 32 : Word) - 1).setWidth 16) = noteByte r ∧
      (volByte (((r.setWidth 32 : Word) - 1).setWidth 16)).toNat = (volByte r).toNat - 1 := by
  have hr := r.isLt
  have hpos : 0 < r.toNat % 256 := by simpa [BitVec.lt_def, toNat_volByte] using h
  constructor
  · apply BitVec.eq_of_toNat_eq
    simp [toNat_noteByte, BitVec.toNat_sub]
    omega
  · simp [toNat_volByte, BitVec.toNat_sub]
    omega

theorem setWidth_pos_iff (v : Byte) : (0 : Word) < v.setWidth 32 ↔ 0 < v := by
  have hv := v.isLt
  simp only [BitVec.lt_def, BitVec.toNat_setWidth]
  rw [Nat.mod_eq_of_lt (by omega)]
  rfl

theorem setWidth_eq_iff (v w : Byte) : (v.setWidth 32 : Word) = w.setWidth 32 ↔ v = w := by
  have hv := v.isLt
  have hw := w.isLt
  rw [← BitVec.toNat_inj, ← BitVec.toNat_inj]
  simp only [BitVec.toNat_setWidth]
  omega

theorem byte_pos_of_ne_zero {v : Byte} (h : v ≠ 0) : 0 < v :=
  (BitVec.pos_iff_ne_zero v).mpr h

/-! The three cases of a decay tick: volume zero, above the sustain level,
and at or below it. -/

section Tick

variable (sl : Slot) {sustain : Word}

theorem tick_zero (hv : volByte sl.noteVol = 0) (stamp : Word) :
    sl.tick sustain stamp = ⟨0, false, stamp⟩ := by
  rw [Slot.tick, if_neg (fun h => absurd h.2 (by simp [hv])), if_pos hv]

theorem tick_fade (hv : volByte sl.noteVol ≠ 0)
    (hs : sustain < (volByte sl.noteVol).setWidth 32) (stamp : Word) :
    sl.tick sustain stamp =
      { sl with noteVol := ((sl.noteVol.setWidth 32 : Word) - 1).setWidth 16, clock := stamp } := by
  rw [Slot.tick, if_pos ⟨hs, byte_pos_of_ne_zero hv⟩]

theorem tick_hold (hv : volByte sl.noteVol ≠ 0)
    (hs : ¬ sustain < (volByte sl.noteVol).setWidth 32) (stamp : Word) :
    sl.tick sustain stamp = { sl with clock := stamp } := by
  rw [Slot.tick, if_neg (fun h => hs h.1), if_neg hv]

/-- A tick frees a slot only at volume zero. -/
theorem volByte_of_tick_freed (hu : sl.used = true) {stamp : Word}
    (h : (sl.tick sustain stamp).used = false) : volByte sl.noteVol = 0 := by
  by_contra hv
  by_cases hs : sustain < (volByte sl.noteVol).setWidth 32
  · simp [tick_fade sl hv hs, hu] at h
  · simp [tick_hold sl hv hs, hu] at h

theorem tickWrites_zero (hv : volByte sl.noteVol = 0) (i : Fin numNotes) :
    sl.tickWrites sustain i = [⟨.noteVol i, 0⟩] := by
  rw [Slot.tickWrites, if_neg (fun h => absurd h.2 (by simp [hv])), if_pos hv]

theorem tickWrites_fade (hv : volByte sl.noteVol ≠ 0)
    (hs : sustain < (volByte sl.noteVol).setWidth 32) (i : Fin numNotes) :
    sl.tickWrites sustain i = [⟨.noteVol i, sl.noteVol.setWidth 32 - 1⟩] := by
  rw [Slot.tickWrites, if_pos ⟨hs, byte_pos_of_ne_zero hv⟩]

theorem tickWrites_hold (hv : volByte sl.noteVol ≠ 0)
    (hs : ¬ sustain < (volByte sl.noteVol).setWidth 32) (i : Fin numNotes) :
    sl.tickWrites sustain i = [] := by
  rw [Slot.tickWrites, if_neg (fun h => hs h.1), if_neg hv]

end Tick

/-! ## §2 Stores -/

@[simp] theorem slots_apply (s : State) (i : Fin numNotes) :
    s.slots i = ⟨s.noteVol i, s.noteUsed i, s.noteClocks i⟩ := rfl

/-- Storing zero to a list of note registers. -/
theorem storeAll_zero (is : List (Fin numNotes)) (s : State) :
    State.storeAll s (is.map (fun i => ⟨.noteVol i, 0⟩))
      = { s with noteVol := fun j => if j ∈ is then 0 else s.noteVol j } := by
  induction is generalizing s with
  | nil => simp [State.storeAll]
  | cons i is ih =>
    have hcons : State.storeAll s ((i :: is).map (fun i => ⟨.noteVol i, 0⟩))
        = State.storeAll (s.store ⟨.noteVol i, 0⟩) (is.map (fun i => ⟨.noteVol i, 0⟩)) := rfl
    rw [hcons, ih]
    simp only [State.store, State.mk.injEq, and_true]
    funext j
    by_cases hj : j = i
    · subst hj; simp
    · simp [hj]

/-- The state at the top of the loop. -/
theorem boot_eq (u : Uninit) :
    boot u =
      { noteVol := fun _ => 0
        masterVol := 64
        reverb := 0
        vibrato := 64
        decayTime := 0
        releaseTime := 0
        sustainLevel := 127
        vol := u.vol
        msToDec := u.msToDec
        noteClocks := u.noteClocks
        availableIdx := u.availableIdx
        noteUsed := fun _ => false
        firstNote := true
        muted := false } := by
  rw [boot, bootWrites, State.storeAll, List.foldl_append]
  exact (storeAll_zero _ _).trans (by simp [State.store])

/-! ## §3 The packet handlers -/

theorem noteOn_first {s : State} (hf : s.firstNote = true) (p : MidiPacket) (clock : Word) :
    noteOn s p clock = ({ s with firstNote := false }, []) := by
  simp [noteOn, hf]

theorem noteOn_muted {s : State} (hf : s.firstNote = false) (hm : s.muted = true)
    (p : MidiPacket) (clock : Word) : noteOn s p clock = (s, []) := by
  simp [noteOn, hf, hm]

theorem noteOn_full {s : State} (hf : s.firstNote = false) (hm : s.muted = false)
    (h : first (fun i => !s.noteUsed i) = none) (p : MidiPacket) (clock : Word) :
    noteOn s p clock = ({ s with availableIdx := -1 }, []) := by
  simp only [noteOn, hf, hm, h, Bool.false_eq_true, if_false, Bool.not_false, if_true]

theorem noteOn_claim {s : State} (hf : s.firstNote = false) (hm : s.muted = false)
    {i : Fin numNotes} (h : first (fun i => !s.noteUsed i) = some i) (p : MidiPacket)
    (clock : Word) :
    noteOn s p clock =
      ({ s with
          noteVol := Function.update s.noteVol i (Slot.claimed p clock).noteVol
          noteUsed := Function.update s.noteUsed i true
          noteClocks := Function.update s.noteClocks i clock
          availableIdx := i },
        [⟨.noteVol i, (p.byte1.setWidth 32 <<< 8) + p.byte2.setWidth 32⟩]) := by
  simp only [noteOn, hf, hm, h, Bool.false_eq_true, if_false, Bool.not_false, if_true]
  rfl

/-- Note On claims a slot unless it is the first one or muted. -/
theorem noteOn_spec (s : State) (p : MidiPacket) (clock : Word) :
    (noteOn s p clock).1.slots =
        (if s.firstNote || s.muted then Request.keep else .claim p clock).onSlots s.slots ∧
      (noteOn s p clock).2 =
        (if s.firstNote || s.muted then Request.keep else .claim p clock).writes s.slots ∧
      (noteOn s p clock).1.controls = { s.controls with firstNote := false } := by
  cases hf : s.firstNote with
  | true =>
    rw [noteOn_first hf]
    exact ⟨rfl, rfl, rfl⟩
  | false =>
    have hc : { s.controls with firstNote := false } = s.controls := by
      simp [State.controls, hf]
    rw [hc]
    cases hm : s.muted with
    | true =>
      rw [noteOn_muted hf hm]
      exact ⟨rfl, rfl, rfl⟩
    | false =>
      simp only [Bool.or_self, Bool.false_eq_true, if_false, Request.onSlots, Request.writes,
        slots_apply]
      cases h : first (fun i => !s.noteUsed i) with
      | none =>
        rw [noteOn_full hf hm h]
        exact ⟨rfl, rfl, rfl⟩
      | some i =>
        rw [noteOn_claim hf hm h]
        refine ⟨Function.eq_update_iff.mpr ⟨?_, fun j hj => ?_⟩, rfl, rfl⟩
        · simp [Slot.claimed]
        · simp [hj]

/-- The scan of Note OFF in terms of the table. -/
theorem noteOff_scan (s : State) (p : MidiPacket) :
    first (fun i => s.loadNoteVol i >>> 8 == p.byte1.setWidth 32)
      = first (fun i => noteByte (s.slots i).noteVol == p.byte1) := by
  refine first_congr (fun i => ?_)
  have h := load_shiftRight_eq_iff (s.noteVol i) p.byte1
  simp only [State.loadNoteVol, slots_apply]
  by_cases hn : noteByte (s.noteVol i) = p.byte1
  · rw [beq_iff_eq.mpr hn, beq_iff_eq.mpr (h.mpr hn)]
  · rw [beq_eq_false_iff_ne.mpr hn, beq_eq_false_iff_ne.mpr (fun h' => hn (h.mp h'))]

theorem noteOff_slots (s : State) (p : MidiPacket) :
    (noteOff s p).1.slots = (Request.release p.byte1).onSlots s.slots := by
  rw [noteOff, Request.onSlots, noteOff_scan]
  cases first (fun i => noteByte (s.slots i).noteVol == p.byte1) with
  | none => rfl
  | some i =>
    refine Function.eq_update_iff.mpr ⟨?_, fun j hj => ?_⟩
    · simp [State.store, Slot.cleared]
    · simp [State.store, hj]

theorem noteOff_writes (s : State) (p : MidiPacket) :
    (noteOff s p).2 = (Request.release p.byte1).writes s.slots := by
  rw [noteOff, Request.writes, noteOff_scan]
  cases first (fun i => noteByte (s.slots i).noteVol == p.byte1) with
  | none => rfl
  | some i => rfl

theorem noteOff_controls (s : State) (p : MidiPacket) :
    (noteOff s p).1.controls = s.controls := by
  unfold noteOff
  split <;> rfl

theorem muteButton_on {p : MidiPacket} (h : p.byte2 = 0x7F) (s : State) :
    muteButton s p =
      ({ s with noteVol := fun _ => 0, noteUsed := fun _ => false, muted := true },
        (List.finRange numNotes).map (fun i => ⟨.noteVol i, 0⟩)) := by
  have hb : p.byte2.setWidth 32 = (0x7F : Word) := (setWidth_eq_iff p.byte2 0x7F).mpr h
  rw [muteButton, if_pos hb]
  dsimp only
  rw [storeAll_zero]
  simp

theorem muteButton_off {p : MidiPacket} (h : p.byte2 ≠ 0x7F) (s : State) :
    muteButton s p = ({ s with muted := false }, []) := by
  have hb : ¬ p.byte2.setWidth 32 = (0x7F : Word) :=
    fun h' => h ((setWidth_eq_iff p.byte2 0x7F).mp h')
  rw [muteButton, if_neg hb]

/-! ## §4 The decay poll -/

section PollSlot

variable {clk : PollClocks} {s : State} {i : Fin numNotes}

theorem pollSlot_idle (hu : s.noteUsed i = false) : pollSlot clk s i = (s, []) := by
  rw [pollSlot, if_neg (by simp [hu])]

theorem pollSlot_early (hu : s.noteUsed i = true)
    (hd : due (clk.test i) (s.noteClocks i) s.msToDec = false) :
    pollSlot clk s i = ({ s with vol := (volByte (s.noteVol i)).setWidth 32 }, []) := by
  rw [pollSlot, if_pos hu]
  dsimp only
  rw [if_neg (by simp [hd]), State.loadNoteVol, load_and_eq]

/-- A tick above the sustain level: one read-modify-write of the register. -/
theorem pollSlot_fade (hu : s.noteUsed i = true)
    (hd : due (clk.test i) (s.noteClocks i) s.msToDec = true)
    (hv : s.sustainLevel < (volByte (s.noteVol i)).setWidth 32 ∧ 0 < volByte (s.noteVol i)) :
    pollSlot clk s i =
      ({ s with
          vol := (volByte (s.noteVol i)).setWidth 32
          noteClocks := Function.update s.noteClocks i (clk.stamp i)
          noteVol := Function.update s.noteVol i
            (((s.noteVol i).setWidth 32 - 1 : Word).setWidth 16) },
        [⟨.noteVol i, (s.noteVol i).setWidth 32 - 1⟩]) := by
  rw [pollSlot, if_pos hu]
  dsimp only
  rw [if_pos hd]
  simp only [State.loadNoteVol, load_and_eq, setWidth_pos_iff]
  rw [if_pos hv]
  rfl

/-- A tick that finds the volume at zero frees the slot. -/
theorem pollSlot_end (hu : s.noteUsed i = true)
    (hd : due (clk.test i) (s.noteClocks i) s.msToDec = true)
    (hv : volByte (s.noteVol i) = 0) :
    pollSlot clk s i =
      ({ s with
          vol := 0
          noteClocks := Function.update s.noteClocks i (clk.stamp i)
          noteVol := Function.update s.noteVol i 0
          noteUsed := Function.update s.noteUsed i false },
        [⟨.noteVol i, 0⟩]) := by
  rw [pollSlot, if_pos hu]
  dsimp only
  rw [if_pos hd]
  simp only [State.loadNoteVol, load_and_eq, hv]
  rw [if_neg (fun h => absurd h.2 (by decide)), if_pos (by decide)]
  rfl

theorem pollSlot_hold (hu : s.noteUsed i = true)
    (hd : due (clk.test i) (s.noteClocks i) s.msToDec = true)
    (hs : ¬ s.sustainLevel < (volByte (s.noteVol i)).setWidth 32)
    (hv : volByte (s.noteVol i) ≠ 0) :
    pollSlot clk s i =
      ({ s with
          vol := (volByte (s.noteVol i)).setWidth 32
          noteClocks := Function.update s.noteClocks i (clk.stamp i) }, []) := by
  have hne : ¬ (volByte (s.noteVol i)).setWidth 32 = (0 : Word) :=
    fun h => hv ((setWidth_eq_iff _ 0).mp h)
  rw [pollSlot, if_pos hu]
  dsimp only
  rw [if_pos hd]
  simp only [State.loadNoteVol, load_and_eq]
  rw [if_neg (fun h => hs h.1), if_neg hne]

/-- One round ticks its own slot if the time test succeeds, and stores what
the tick stores. -/
theorem pollSlot_spec :
    (pollSlot clk s i).1.slots = Function.update s.slots i
        (if s.noteUsed i && due (clk.test i) (s.noteClocks i) s.msToDec then
          (s.slots i).tick s.sustainLevel (clk.stamp i)
        else s.slots i) ∧
      (pollSlot clk s i).2 =
        (if s.noteUsed i && due (clk.test i) (s.noteClocks i) s.msToDec then
          (s.slots i).tickWrites s.sustainLevel i
        else []) ∧
      (pollSlot clk s i).1.controls = s.controls := by
  have hkeep : Function.update s.slots i (s.slots i) = s.slots := Function.update_eq_self i _
  cases hu : s.noteUsed i with
  | false =>
    rw [pollSlot_idle hu, Bool.false_and, if_neg Bool.false_ne_true, hkeep]
    exact ⟨rfl, rfl, rfl⟩
  | true =>
    cases hd : due (clk.test i) (s.noteClocks i) s.msToDec with
    | false =>
      rw [pollSlot_early hu hd, Bool.and_false, if_neg Bool.false_ne_true, hkeep]
      exact ⟨rfl, rfl, rfl⟩
    | true =>
      rw [Bool.and_self, if_pos rfl, if_pos rfl]
      by_cases hv : volByte (s.noteVol i) = 0
      · rw [pollSlot_end hu hd hv, tick_zero (s.slots i) hv, tickWrites_zero (s.slots i) hv]
        refine ⟨Function.eq_update_iff.mpr ⟨?_, fun j hj => ?_⟩, rfl, rfl⟩
        · simp
        · simp [hj]
      · by_cases hs : s.sustainLevel < (volByte (s.noteVol i)).setWidth 32
        · rw [pollSlot_fade hu hd ⟨hs, byte_pos_of_ne_zero hv⟩, tick_fade (s.slots i) hv hs,
            tickWrites_fade (s.slots i) hv hs]
          refine ⟨Function.eq_update_iff.mpr ⟨?_, fun j hj => ?_⟩, rfl, rfl⟩
          · simp [hu]
          · simp [hj]
        · rw [pollSlot_hold hu hd hs hv, tick_hold (s.slots i) hv hs,
            tickWrites_hold (s.slots i) hv hs]
          refine ⟨Function.eq_update_iff.mpr ⟨?_, fun j hj => ?_⟩, rfl, rfl⟩
          · simp [hu]
          · simp [hj]

end PollSlot

/-- The state part of the poll is a fold of the rounds' state parts. -/
theorem poll_fst (s : State) (clk : PollClocks) :
    (poll s clk).1 = (List.finRange numNotes).foldl (fun t i => (pollSlot clk t i).1) s := by
  rw [poll]
  exact (List.foldl_hom Prod.fst (fun _ _ => rfl)).symm

theorem poll_controls (s : State) (clk : PollClocks) :
    (poll s clk).1.controls = s.controls := by
  rw [poll_fst]
  exact run_induct (P := fun t : State => t.controls = s.controls)
    (fun t i ht => pollSlot_spec.2.2.trans ht) rfl (List.finRange numNotes)

/-- The rounds share the sustain level and the decay time. -/
theorem levels_of_controls {s t : State} (h : t.controls = s.controls) :
    t.sustainLevel = s.sustainLevel ∧ t.msToDec = s.msToDec :=
  ⟨congrArg Controls.sustainLevel h, congrArg Controls.msToDec h⟩

theorem poll_slots (s : State) (clk : PollClocks) :
    (poll s clk).1.slots = (request s (.poll clk)).onSlots s.slots := by
  funext j
  rw [poll_fst]
  refine foldl_pointwise State.slots (P := fun t => t.controls = s.controls)
    (g := fun i sl =>
      if sl.used && due (clk.test i) sl.clock s.msToDec then
        sl.tick s.sustainLevel (clk.stamp i)
      else sl)
    (fun t i ht => pollSlot_spec.2.2.trans ht) ?_ ?_
    (List.nodup_finRange _) rfl j (List.mem_finRange j)
  · intro t i ht
    obtain ⟨hsu, hms⟩ := levels_of_controls ht
    rw [pollSlot_spec.1, Function.update_self, hms, hsu]
    rfl
  · intro t i k hk
    rw [pollSlot_spec.1, Function.update_of_ne hk]

theorem poll_writes (s : State) (clk : PollClocks) :
    (poll s clk).2 = (request s (.poll clk)).writes s.slots := by
  refine (foldl_emit_pointwise (f := pollSlot clk) State.slots
    (P := fun t => t.controls = s.controls)
    (w := fun i sl =>
      if sl.used && due (clk.test i) sl.clock s.msToDec then
        sl.tickWrites s.sustainLevel i
      else [])
    (fun t i ht => pollSlot_spec.2.2.trans ht) ?_ ?_
    (List.nodup_finRange _) rfl).trans (List.nil_append _)
  · intro t i ht
    obtain ⟨hsu, hms⟩ := levels_of_controls ht
    rw [pollSlot_spec.2.1, hms, hsu]
    rfl
  · intro t i k hk
    rw [pollSlot_spec.1, Function.update_of_ne hk]

/-! ## §5 One event -/

/-- The kinds of packet exclude each other: they are told apart by the high
nibble of the status byte. -/
theorem status_ne {p : MidiPacket} {m n : Byte} (h : p.byte0 >>> 4 = m) (hmn : m ≠ n) :
    p.byte0 >>> 4 ≠ n :=
  fun h' => hmn (h.symm.trans h')

section Dispatch

variable {p : MidiPacket}

/-- A nibble equation as the number the `switch` compares. -/
theorem toNat_eq_of_eq {b : Byte} {n : Nat} (h : b = BitVec.ofNat 8 n) (hn : n < 256) :
    b.toNat = n := by
  rw [h, BitVec.toNat_ofNat, Nat.mod_eq_of_lt hn]

theorem handlePacket_noteOn (h : p.IsNoteOn) (s : State) (clock : Word) :
    handlePacket s p clock = noteOn s p clock := by
  rw [handlePacket, toNat_eq_of_eq h (by decide)]
  rfl

theorem handlePacket_noteOff (h : p.IsNoteOff) (s : State) (clock : Word) :
    handlePacket s p clock = noteOff s p := by
  rw [handlePacket, toNat_eq_of_eq h (by decide)]
  rfl

theorem handlePacket_pitchWheel (h : p.byte0 >>> 4 = 0xE) (s : State) (clock : Word) :
    handlePacket s p clock = pitchWheel s p := by
  rw [handlePacket, toNat_eq_of_eq h (by decide)]
  rfl

theorem handlePacket_controlChange (h : p.IsControlChange) (s : State) (clock : Word) :
    handlePacket s p clock = controlChange s p := by
  rw [handlePacket, toNat_eq_of_eq h (by decide)]
  rfl

theorem handlePacket_other (h9 : ¬ p.IsNoteOn) (h8 : ¬ p.IsNoteOff)
    (hE : p.byte0 >>> 4 ≠ 0xE) (hB : ¬ p.IsControlChange) (s : State) (clock : Word) :
    handlePacket s p clock = (s, []) := by
  rw [handlePacket]
  split
  · rename_i h; exact absurd (BitVec.eq_of_toNat_eq h) h9
  · rename_i h; exact absurd (BitVec.eq_of_toNat_eq h) h8
  · rename_i h; exact absurd (BitVec.eq_of_toNat_eq h) hE
  · rename_i h; exact absurd (BitVec.eq_of_toNat_eq h) hB
  · rfl

theorem controlChange_mute (h : p.byte1 = 0x30) (s : State) :
    controlChange s p = muteButton s p := by
  rw [controlChange, toNat_eq_of_eq h (by decide)]
  rfl

/-- Apart from the mute button no controller touches a slot, and two of them
store to an effect register. -/
theorem controlChange_slots (h : p.byte1 ≠ 0x30) (s : State) :
    (controlChange s p).1.slots = s.slots := by
  unfold controlChange
  split
  · rfl
  · rfl
  · rfl
  · rfl
  · rfl
  · rename_i h'; exact absurd (BitVec.eq_of_toNat_eq h') h
  · rfl

theorem controlChange_writes (h : p.byte1 ≠ 0x30) (s : State) :
    (controlChange s p).2 =
      if p.byte1 = 0x01 then [⟨.masterVol, p.byte2.setWidth 32⟩]
      else if p.byte1 = 0x14 then [⟨.reverb, p.byte2.setWidth 32⟩]
      else [] := by
  unfold controlChange
  split
  · rename_i h'
    rw [if_pos (BitVec.eq_of_toNat_eq h')]
  · rename_i h'
    have hb : p.byte1 = 0x14 := BitVec.eq_of_toNat_eq h'
    simp [hb]
  · rename_i h'
    have hb : p.byte1 = 0x15 := BitVec.eq_of_toNat_eq h'
    simp [hb]
  · rename_i h'
    have hb : p.byte1 = 0x16 := BitVec.eq_of_toNat_eq h'
    simp [hb]
  · rename_i h'
    have hb : p.byte1 = 0x17 := BitVec.eq_of_toNat_eq h'
    simp [hb]
  · rename_i h'
    exact absurd (BitVec.eq_of_toNat_eq h') h
  · rename_i h1 h2 _ _ _ _
    have n1 : p.byte1 ≠ 0x01 := fun h => h1 (toNat_eq_of_eq h (by decide))
    have n2 : p.byte1 ≠ 0x14 := fun h => h2 (toNat_eq_of_eq h (by decide))
    rw [if_neg n1, if_neg n2]

theorem controlChange_controls (s : State) :
    (controlChange s p).1.controls =
      if p.byte1 = 0x01 then { s.controls with masterVol := p.byte2 }
      else if p.byte1 = 0x14 then { s.controls with reverb := p.byte2 }
      else if p.byte1 = 0x15 then { s.controls with releaseTime := p.byte2.setWidth 32 }
      else if p.byte1 = 0x16 then { s.controls with msToDec := p.byte2.setWidth 32 + 1 }
      else if p.byte1 = 0x17 then { s.controls with sustainLevel := p.byte2.setWidth 32 }
      else if p.byte1 = 0x30 then { s.controls with muted := decide (p.byte2 = 0x7F) }
      else s.controls := by
  unfold controlChange
  split
  · rename_i h
    rw [if_pos (BitVec.eq_of_toNat_eq h)]
    simp [State.controls, State.store]
  · rename_i h
    have hb : p.byte1 = 0x14 := BitVec.eq_of_toNat_eq h
    simp [State.controls, State.store, hb]
  · rename_i h
    have hb : p.byte1 = 0x15 := BitVec.eq_of_toNat_eq h
    simp [State.controls, hb]
  · rename_i h
    have hb : p.byte1 = 0x16 := BitVec.eq_of_toNat_eq h
    simp [State.controls, hb]
  · rename_i h
    have hb : p.byte1 = 0x17 := BitVec.eq_of_toNat_eq h
    simp [State.controls, hb]
  · rename_i h
    have hb : p.byte1 = 0x30 := BitVec.eq_of_toNat_eq h
    by_cases h7F : p.byte2 = 0x7F
    · rw [muteButton_on h7F]; simp [State.controls, hb, h7F]
    · rw [muteButton_off h7F]
      simp [State.controls, hb]
      exact h7F
  · rename_i h1 h2 h3 h4 h5 h6
    have n1 : p.byte1 ≠ 0x01 := fun h => h1 (toNat_eq_of_eq h (by decide))
    have n2 : p.byte1 ≠ 0x14 := fun h => h2 (toNat_eq_of_eq h (by decide))
    have n3 : p.byte1 ≠ 0x15 := fun h => h3 (toNat_eq_of_eq h (by decide))
    have n4 : p.byte1 ≠ 0x16 := fun h => h4 (toNat_eq_of_eq h (by decide))
    have n5 : p.byte1 ≠ 0x17 := fun h => h5 (toNat_eq_of_eq h (by decide))
    have n6 : p.byte1 ≠ 0x30 := fun h => h6 (toNat_eq_of_eq h (by decide))
    rw [if_neg n1, if_neg n2, if_neg n3, if_neg n4, if_neg n5, if_neg n6]

end Dispatch

/-- Only a pitch wheel and a control change store to an effect register. -/
theorem effectWrites_eq_nil {p : MidiPacket} (hE : p.byte0 >>> 4 ≠ 0xE)
    (hB : ¬ p.IsControlChange) (clock : Word) : effectWrites (.packet p clock) = [] := by
  rw [effectWrites, if_neg hE, if_neg (fun h => hB h.1), if_neg (fun h => hB h.1)]

theorem effectWrites_controlChange {p : MidiPacket} (hB : p.IsControlChange) (clock : Word) :
    effectWrites (.packet p clock) =
      if p.byte1 = 0x01 then [⟨.masterVol, p.byte2.setWidth 32⟩]
      else if p.byte1 = 0x14 then [⟨.reverb, p.byte2.setWidth 32⟩]
      else [] := by
  have hE : p.byte0 >>> 4 ≠ 0xE := status_ne hB (by decide)
  simp only [effectWrites, if_neg hE, hB, true_and]

theorem effectWrites_noteOn {p : MidiPacket} (h : p.IsNoteOn) (clock : Word) :
    effectWrites (.packet p clock) = [] :=
  effectWrites_eq_nil (status_ne h (by decide)) (status_ne h (by decide)) clock

theorem effectWrites_noteOff {p : MidiPacket} (h : p.IsNoteOff) (clock : Word) :
    effectWrites (.packet p clock) = [] :=
  effectWrites_eq_nil (status_ne h (by decide)) (status_ne h (by decide)) clock

/-- **What an event does to the slots and stores** is what it requests. -/
theorem exec_slots_writes (s : State) (e : Event) :
    (exec s e).1.slots = (request s e).onSlots s.slots ∧
      (exec s e).2 = (request s e).writes s.slots ++ effectWrites e := by
  cases e with
  | poll clk => exact ⟨poll_slots s clk, (poll_writes s clk).trans (List.append_nil _).symm⟩
  | packet p clock =>
    simp only [exec, request]
    by_cases h9 : p.IsNoteOn
    · rw [handlePacket_noteOn h9, effectWrites_noteOn h9, if_pos h9, List.append_nil]
      obtain ⟨hslots, hwrites, -⟩ := noteOn_spec s p clock
      exact ⟨hslots, hwrites⟩
    · rw [if_neg h9]
      by_cases h8 : p.IsNoteOff
      · rw [handlePacket_noteOff h8, effectWrites_noteOff h8, if_pos h8, List.append_nil]
        exact ⟨noteOff_slots s p, noteOff_writes s p⟩
      · rw [if_neg h8]
        by_cases hB : p.IsControlChange
        · rw [handlePacket_controlChange hB, effectWrites_controlChange hB]
          by_cases h30 : p.byte1 = 0x30
          · rw [controlChange_mute h30, h30]
            by_cases h7F : p.byte2 = 0x7F
            · rw [if_pos ⟨⟨hB, h30⟩, h7F⟩, muteButton_on h7F]
              exact ⟨rfl, rfl⟩
            · rw [if_neg (fun h => h7F h.2), muteButton_off h7F]
              exact ⟨rfl, rfl⟩
          · rw [if_neg (fun h => h30 h.1.2), controlChange_slots h30, controlChange_writes h30]
            exact ⟨rfl, rfl⟩
        · rw [if_neg (fun h => hB h.1.1)]
          by_cases hE : p.byte0 >>> 4 = 0xE
          · rw [handlePacket_pitchWheel hE, effectWrites, if_pos hE]
            exact ⟨rfl, rfl⟩
          · rw [handlePacket_other h9 h8 hE hB, effectWrites_eq_nil hE hB]
            exact ⟨rfl, rfl⟩

theorem step_slots (s : State) (e : Event) :
    (step s e).slots = (request s e).onSlots s.slots :=
  (exec_slots_writes s e).1

theorem step_writes (s : State) (e : Event) :
    writes s e = (request s e).writes s.slots ++ effectWrites e :=
  (exec_slots_writes s e).2

theorem step_controls (s : State) (e : Event) :
    (step s e).controls = nextControls s.controls e := by
  cases e with
  | poll clk => exact poll_controls s clk
  | packet p clock =>
    show (handlePacket s p clock).1.controls = _
    simp only [nextControls]
    by_cases h9 : p.IsNoteOn
    · rw [handlePacket_noteOn h9, if_pos h9]
      exact (noteOn_spec s p clock).2.2
    · rw [if_neg h9]
      by_cases hE : p.byte0 >>> 4 = 0xE
      · rw [handlePacket_pitchWheel hE, if_pos hE]
        simp [pitchWheel, State.controls, State.store]
      · rw [if_neg hE]
        by_cases hB : p.IsControlChange
        · rw [handlePacket_controlChange hB, if_pos hB]
          exact controlChange_controls s
        · rw [if_neg hB]
          by_cases h8 : p.IsNoteOff
          · rw [handlePacket_noteOff h8, noteOff_controls]
          · rw [handlePacket_other h9 h8 hE hB]

/-! ## §6 Which events request what -/

theorem request_poll (s : State) (clk : PollClocks) :
    request s (.poll clk) =
      .decay (fun i => due (clk.test i) (s.noteClocks i) s.msToDec) s.sustainLevel clk.stamp :=
  rfl

theorem request_noteOff {p : MidiPacket} (h : p.IsNoteOff) (s : State) (clock : Word) :
    request s (.packet p clock) = .release p.byte1 := by
  have h9 : ¬ p.IsNoteOn := status_ne h (by decide)
  simp only [request, if_neg h9, if_pos h]

theorem claim_of_request {s : State} {e : Event} {p : MidiPacket} {clock : Word}
    (h : request s e = .claim p clock) :
    e = .packet p clock ∧ p.IsNoteOn ∧ s.firstNote = false ∧ s.muted = false := by
  cases e with
  | poll clk => cases h
  | packet q c =>
    simp only [request] at h
    split at h
    · rename_i h9
      cases hf : s.firstNote <;> cases hm : s.muted <;> simp [hf, hm] at h
      obtain ⟨rfl, rfl⟩ := h
      exact ⟨rfl, h9, rfl, rfl⟩
    · split at h
      · cases h
      · split at h <;> cases h

theorem noteOff_of_request {s : State} {e : Event} {n : Byte}
    (h : request s e = .release n) :
    ∃ p clock, e = .packet p clock ∧ p.IsNoteOff ∧ p.byte1 = n := by
  cases e with
  | poll clk => cases h
  | packet p clock =>
    simp only [request] at h
    split at h
    · split at h <;> cases h
    · split at h
      · rename_i h8
        cases h
        exact ⟨p, clock, rfl, h8, rfl⟩
      · split at h <;> cases h

theorem muteOn_of_request {s : State} {e : Event} (h : request s e = .silence) :
    ∃ p clock, e = .packet p clock ∧ p.IsMuteOn := by
  cases e with
  | poll clk => cases h
  | packet p clock =>
    simp only [request] at h
    split at h
    · split at h <;> cases h
    · split at h
      · cases h
      · split at h
        · rename_i hm
          exact ⟨p, clock, rfl, hm⟩
        · cases h

theorem poll_of_request {s : State} {e : Event} {ticks : Fin numNotes → Bool}
    {sustain : Word} {stamp : Fin numNotes → Word}
    (h : request s e = .decay ticks sustain stamp) :
    ∃ clk, e = .poll clk ∧ sustain = s.sustainLevel ∧ stamp = clk.stamp ∧
      ticks = fun i => due (clk.test i) (s.noteClocks i) s.msToDec := by
  cases e with
  | poll clk =>
    rw [request_poll] at h
    cases h
    exact ⟨clk, rfl, rfl, rfl, rfl⟩
  | packet p clock =>
    simp only [request] at h
    split at h
    · split at h <;> cases h
    · split at h
      · cases h
      · split at h <;> cases h

/-! ## §7 One slot -/

section OneSlot

variable {s : State} {i : Fin numNotes}

/-- A claim leaves a slot alone, or takes it while it is free. -/
theorem claim_slot (sl : Fin numNotes → Slot) (p : MidiPacket) (clock : Word)
    (i : Fin numNotes) :
    (Request.claim p clock).onSlots sl i = sl i ∨
      (sl i).used = false ∧ (Request.claim p clock).onSlots sl i = Slot.claimed p clock := by
  simp only [Request.onSlots]
  cases hk : first (fun j => !(sl j).used) with
  | none => exact Or.inl rfl
  | some k =>
    by_cases hik : i = k
    · subst hik
      have hfree := (first_eq_some_iff.mp hk).1
      exact Or.inr ⟨by simpa using hfree, Function.update_self _ _ _⟩
    · exact Or.inl (Function.update_of_ne hik _ _)

/-- A release leaves a slot alone, or clears it by its note byte. -/
theorem release_slot (sl : Fin numNotes → Slot) (n : Byte) (i : Fin numNotes) :
    (Request.release n).onSlots sl i = sl i ∨
      noteByte (sl i).noteVol = n ∧ (Request.release n).onSlots sl i = (sl i).cleared := by
  simp only [Request.onSlots]
  cases hk : first (fun j => noteByte (sl j).noteVol == n) with
  | none => exact Or.inl rfl
  | some k =>
    by_cases hik : i = k
    · subst hik
      exact Or.inr ⟨beq_iff_eq.mp (first_eq_some_iff.mp hk).1, Function.update_self _ _ _⟩
    · exact Or.inl (Function.update_of_ne hik _ _)

theorem step_slot (s : State) (e : Event) (i : Fin numNotes) :
    (step s e).slots i = (request s e).onSlots s.slots i :=
  congrFun (step_slots s e) i

/-- A poll ticks a slot in use or leaves it alone. -/
theorem poll_slot (hu : s.noteUsed i = true) (clk : PollClocks) :
    (step s (.poll clk)).slots i =
      if due (clk.test i) (s.noteClocks i) s.msToDec then
        (s.slots i).tick s.sustainLevel (clk.stamp i)
      else s.slots i := by
  rw [step_slot, request_poll]
  simp only [Request.onSlots, slots_apply, hu, Bool.true_and]

/-- What an event does to a slot in use: nothing, one tick, or it frees the
slot by a Note Off for its note or by the mute button. -/
theorem slot_cases (hu : s.noteUsed i = true) (e : Event) :
    (tickOf i s e = none ∧ (step s e).slots i = s.slots i) ∨
      (∃ clk, e = .poll clk ∧ due (clk.test i) (s.noteClocks i) s.msToDec = true ∧
        tickOf i s e = some s.sustainLevel ∧
        (step s e).slots i = (s.slots i).tick s.sustainLevel (clk.stamp i)) ∨
      ((step s e).noteUsed i = false ∧ ∃ p clock, e = .packet p clock ∧
        (p.IsNoteOff ∧ p.byte1 = noteByte (s.noteVol i) ∨ p.IsMuteOn)) := by
  cases e with
  | poll clk =>
    have hslot := poll_slot hu clk
    cases hd : due (clk.test i) (s.noteClocks i) s.msToDec with
    | false =>
      rw [hd, if_neg Bool.false_ne_true] at hslot
      exact Or.inl ⟨by simp [tickOf, hd], hslot⟩
    | true =>
      rw [hd, if_pos rfl] at hslot
      exact Or.inr (Or.inl ⟨clk, rfl, hd, by simp [tickOf, hu, hd], hslot⟩)
  | packet p clock =>
    have hslot := step_slot s (.packet p clock) i
    cases hr : request s (.packet p clock) with
    | keep =>
      rw [hr] at hslot
      exact Or.inl ⟨rfl, hslot⟩
    | claim q c =>
      rw [hr] at hslot
      rcases claim_slot s.slots q c i with hsame | ⟨hfree, -⟩
      · exact Or.inl ⟨rfl, hslot.trans hsame⟩
      · rw [slots_apply, hu] at hfree
        cases hfree
    | release n =>
      rw [hr] at hslot
      rcases release_slot s.slots n i with hsame | ⟨hnote, hcleared⟩
      · exact Or.inl ⟨rfl, hslot.trans hsame⟩
      · obtain ⟨q, c, hq, hoff, hn⟩ := noteOff_of_request hr
        exact Or.inr (Or.inr ⟨congrArg Slot.used (hslot.trans hcleared), q, c, hq,
          Or.inl ⟨hoff, hn.trans hnote.symm⟩⟩)
    | silence =>
      rw [hr] at hslot
      obtain ⟨q, c, hq, hmute⟩ := muteOn_of_request hr
      exact Or.inr (Or.inr ⟨congrArg Slot.used hslot, q, c, hq, Or.inr hmute⟩)
    | decay ticks sustain stamp =>
      obtain ⟨clk, hclk, -⟩ := poll_of_request hr
      cases hclk

end OneSlot

end MidiSynth.Software
