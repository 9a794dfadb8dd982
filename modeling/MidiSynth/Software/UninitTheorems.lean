/-
MidiSynth.Software.UninitTheorems — what the program can show of the locals
it never initialises.

`main` declares `vol`, `ms_to_dec`, `note_clocks` and `available_idx`
without a value. `Agree` relates two states whose differences come from
there: equal registers, flags and levels, equal stamps on the slots in use,
and equal `ms_to_dec` once a packet has assigned it. Every event keeps
`Agree`, except a decay poll with a slot in use while `ms_to_dec` is still
unassigned (`ReadsAssigned` fails there): line 186 then compares with
whatever the local happens to hold. `decay_time`, which IS initialised, is
never read.

§1 is one request on two tables that agree, §2 the controls, §3 the step,
§4 what an unassigned read does, and §5 puts the two directions together.
-/
import MidiSynth.Software.SlotTableTheorems

namespace MidiSynth.Software

open MidiSynth.Machine

/-! ## §1 One request on two tables -/

/-- Equal but for the stamp of a free slot. -/
def Slot.Agrees (x y : Slot) : Prop :=
  y.noteVol = x.noteVol ∧ y.used = x.used ∧ (x.used = true → y.clock = x.clock)

theorem Slot.Agrees.rfl {x : Slot} : x.Agrees x := ⟨Eq.refl _, Eq.refl _, fun _ => Eq.refl _⟩

theorem cleared_agrees (x y : Slot) : x.cleared.Agrees y.cleared :=
  ⟨rfl, rfl, fun hu => by cases hu⟩

/-- A tick stamps the slot anew and reads the register alone. -/
theorem tick_agrees {x y : Slot} (h : x.Agrees y) (sustain stamp : Word) :
    (x.tick sustain stamp).Agrees (y.tick sustain stamp) := by
  obtain ⟨hv, hu, -⟩ := h
  rw [Slot.tick, Slot.tick, hv, hu]
  split
  · exact Slot.Agrees.rfl
  · split
    · exact Slot.Agrees.rfl
    · exact ⟨rfl, rfl, fun _ => rfl⟩

section Tables

variable {x y : Fin numNotes → Slot}

theorem first_free_agrees (h : ∀ i, (x i).Agrees (y i)) :
    first (fun i => !(y i).used) = first (fun i => !(x i).used) :=
  first_congr fun i => congrArg (!·) (h i).2.1

theorem first_note_agrees (h : ∀ i, (x i).Agrees (y i)) (n : Byte) :
    first (fun i => noteByte (y i).noteVol == n) = first (fun i => noteByte (x i).noteVol == n) :=
  first_congr fun i => congrArg (fun v => noteByte v == n) (h i).1

theorem onSlots_agrees (h : ∀ i, (x i).Agrees (y i)) (r : Request) :
    ∀ i, (r.onSlots x i).Agrees (r.onSlots y i) := by
  cases r with
  | keep => exact h
  | claim p clock =>
    simp only [Request.onSlots, first_free_agrees h]
    cases first (fun i => !(x i).used) with
    | none => exact h
    | some i => exact forall_update h Slot.Agrees.rfl i
  | release n =>
    simp only [Request.onSlots, first_note_agrees h]
    cases first (fun i => noteByte (x i).noteVol == n) with
    | none => exact h
    | some i => exact forall_update h (cleared_agrees (x i) (y i)) i
  | silence => exact fun i => cleared_agrees (x i) (y i)
  | decay ticks sustain stamp =>
    intro i
    simp only [Request.onSlots, (h i).2.1]
    split
    · exact tick_agrees (h i) sustain (stamp i)
    · exact h i

theorem writes_agrees (h : ∀ i, (x i).Agrees (y i)) (r : Request) :
    r.writes y = r.writes x := by
  cases r with
  | keep => rfl
  | claim p clock => simp only [Request.writes, first_free_agrees h]
  | release n => simp only [Request.writes, first_note_agrees h]
  | silence => rfl
  | decay ticks sustain stamp =>
    simp only [Request.writes, Slot.tickWrites, (h _).1, (h _).2.1]

/-- The time tests of free slots do not matter. -/
theorem decay_congr {ticks ticks' : Fin numNotes → Bool}
    (h : ∀ i, (x i).used = true → ticks' i = ticks i) (sustain : Word)
    (stamp : Fin numNotes → Word) :
    (Request.decay ticks' sustain stamp).onSlots x = (Request.decay ticks sustain stamp).onSlots x ∧
      (Request.decay ticks' sustain stamp).writes x
        = (Request.decay ticks sustain stamp).writes x := by
  have hand : ∀ i, ((x i).used && ticks' i) = ((x i).used && ticks i) := by
    intro i
    cases hu : (x i).used with
    | false => rfl
    | true => rw [h i hu]
  simp only [Request.onSlots, Request.writes, hand, and_self]

end Tables

/-! ## §2 The controls -/

/-- The event assigns `ms_to_dec`. -/
def Event.SetsDecayTime : Event → Prop
  | .packet p _ => p.IsDecayTime
  | .poll _ => False

instance : ∀ e : Event, Decidable e.SetsDecayTime
  | .packet p _ => inferInstanceAs (Decidable p.IsDecayTime)
  | .poll _ => inferInstanceAs (Decidable False)

/-- Only the decay time knob looks at `ms_to_dec`, and it overwrites it. -/
theorem nextControls_msToDec (c : Controls) (m : Word) (e : Event) :
    nextControls { c with msToDec := m } e =
      { nextControls c e with
          msToDec := if e.SetsDecayTime then (nextControls c e).msToDec else m } := by
  cases e with
  | poll clk => simp [nextControls, Event.SetsDecayTime]
  | packet p clock =>
    simp only [nextControls, Event.SetsDecayTime, MidiPacket.IsDecayTime]
    by_cases hB : p.IsControlChange
    · have h9 : ¬ p.IsNoteOn := status_ne hB (by decide)
      have hE : p.byte0 >>> 4 ≠ 0xE := status_ne hB (by decide)
      simp only [h9, hE, hB, if_true, if_false, true_and]
      by_cases h16 : p.byte1 = 0x16
      · simp [h16]
      · simp only [if_neg h16]
        repeat (split; rfl)
        rfl
    · simp only [hB, false_and, if_false]
      repeat (split; rfl)
      rfl

theorem nextControls_keep {e : Event} (h : ¬ e.SetsDecayTime) (c : Controls) :
    (nextControls c e).msToDec = c.msToDec := by
  have hm := congrArg Controls.msToDec (nextControls_msToDec c c.msToDec e)
  simpa only [if_neg h] using hm

/-! ## §3 Two runs side by side -/

/-- Equal but for what the program has not assigned: stamps of free slots,
the scratch locals, and `ms_to_dec` until `assigned`. -/
structure Agree (assigned : Bool) (s t : State) : Prop where
  slots : ∀ i, (s.slots i).Agrees (t.slots i)
  controls : t.controls = { s.controls with msToDec := t.msToDec }
  msToDec : assigned = true → t.msToDec = s.msToDec

/-- The loop with a record of whether `ms_to_dec` has been assigned. -/
def assignStep (sa : State × Bool) (e : Event) : State × Bool :=
  (step sa.1 e, sa.2 || decide e.SetsDecayTime)

/-- A decay poll with a slot in use, and only that, reads `ms_to_dec`: the
read comes after an assignment. -/
def ReadsAssigned (sa : State × Bool) : Event → Prop
  | .packet _ _ => True
  | .poll _ => (∃ i, sa.1.noteUsed i = true) → sa.2 = true

instance (sa : State × Bool) : ∀ e : Event, Decidable (ReadsAssigned sa e)
  | .packet _ _ => inferInstanceAs (Decidable True)
  | .poll _ => inferInstanceAs (Decidable ((∃ i, sa.1.noteUsed i = true) → sa.2 = true))

theorem agree_boot (u u' : Uninit) : Agree false (boot u) (boot u') where
  slots := by
    intro i
    rw [boot_eq, boot_eq]
    exact ⟨rfl, rfl, fun h => by cases h⟩
  controls := by rw [boot_eq, boot_eq]; rfl
  msToDec := fun h => by cases h

section Step

variable {a : Bool} {s t : State} {e : Event}

/-- The two states make the same request, up to time tests of free slots. -/
theorem request_agrees (h : Agree a s t) (hr : ReadsAssigned (s, a) e) :
    (request t e).onSlots t.slots = (request s e).onSlots t.slots ∧
      (request t e).writes t.slots = (request s e).writes t.slots := by
  have hfirst : t.firstNote = s.firstNote := congrArg Controls.firstNote h.controls
  have hmuted : t.muted = s.muted := congrArg Controls.muted h.controls
  have hsustain : t.sustainLevel = s.sustainLevel := congrArg Controls.sustainLevel h.controls
  cases e with
  | packet p clock =>
    have hreq : request t (.packet p clock) = request s (.packet p clock) := by
      simp only [request, hfirst, hmuted]
    rw [hreq]
    exact ⟨rfl, rfl⟩
  | poll clk =>
    rw [request_poll, request_poll, hsustain]
    refine decay_congr (fun i hu => ?_) _ _
    obtain ⟨-, hused, hclock⟩ := h.slots i
    have hu' : s.noteUsed i = true := hused.symm.trans hu
    have hc : t.noteClocks i = s.noteClocks i := hclock hu'
    have hm : t.msToDec = s.msToDec := h.msToDec (hr ⟨i, hu'⟩)
    rw [hc, hm]

theorem agree_step (h : Agree a s t) (hr : ReadsAssigned (s, a) e) :
    Agree (a || decide e.SetsDecayTime) (step s e) (step t e) := by
  have hc : (step t e).controls = _ := step_controls t e
  rw [h.controls, nextControls_msToDec, ← step_controls] at hc
  have hm : (step t e).msToDec = _ := congrArg Controls.msToDec hc
  refine ⟨?_, ?_, fun ha => ?_⟩
  · rw [step_slots, step_slots, (request_agrees h hr).1]
    exact onSlots_agrees h.slots (request s e)
  · rw [hm]
    exact hc
  · by_cases hset : e.SetsDecayTime
    · rw [hm]
      exact if_pos hset
    · rw [decide_eq_false hset, Bool.or_false] at ha
      have hs : (step s e).msToDec = s.msToDec :=
        (congrArg Controls.msToDec (step_controls s e)).trans (nextControls_keep hset _)
      rw [hs, ← h.msToDec ha, hm]
      exact if_neg hset

/-- What a step shows: the stores, and the flags after it. -/
def observe (s : State) (e : Event) : List Write × (Fin numNotes → Bool) :=
  (writes s e, (step s e).noteUsed)

theorem observe_agrees (h : Agree a s t) (hr : ReadsAssigned (s, a) e) :
    observe s e = observe t e := by
  refine Prod.ext ?_ (funext fun i => ((agree_step h hr).slots i).2.1.symm)
  show writes s e = writes t e
  rw [step_writes, step_writes, (request_agrees h hr).2, writes_agrees h.slots]

end Step

/-- The register stores and the `note_used` flags of a run, step by step. -/
def observations (u : Uninit) (evs : List Event) : List (List Write × (Fin numNotes → Bool)) :=
  outputs step observe (boot u) evs

/-- The history never reads an unassigned `ms_to_dec`. -/
def NeverReadsUnassigned (u : Uninit) (evs : List Event) : Prop :=
  Along assignStep ReadsAssigned (boot u, false) evs

instance (u : Uninit) (evs : List Event) : Decidable (NeverReadsUnassigned u evs) :=
  decidableAlong _ _ _ _

/-! ## §4 An unassigned read shows -/

theorem due_zero (now stamp : Word) : due now stamp 0 = true :=
  decide_eq_true (Nat.zero_le _)

/-- No clock reading reaches the largest `ms_to_dec`: the division by
`CLOCKS_PER_SEC` leaves at most 4294967. -/
theorem due_max (now stamp : Word) : due now stamp (-1) = false := by
  refine decide_eq_false ?_
  rw [BitVec.not_le, BitVec.lt_def, BitVec.toNat_udiv]
  have hlt := (2000 * (now - stamp)).isLt
  have hk : clocksPerSec.toNat = 1000 := rfl
  have hm : (-1 : Word).toNat = 4294967295 := rfl
  rw [hk, hm]
  omega

theorem poll_writes_early {s : State} {clk : PollClocks}
    (h : ∀ i, due (clk.test i) (s.noteClocks i) s.msToDec = false) :
    writes s (.poll clk) = [] := by
  rw [step_writes, request_poll]
  simp only [Request.writes, h, Bool.and_false, Bool.false_eq_true, if_false, effectWrites,
    List.append_nil, List.flatMap_eq_nil_iff, implies_true]

/-- At sustain level 0 a tick always stores. -/
theorem tickWrites_ne_nil (x : Slot) (i : Fin numNotes) : x.tickWrites 0 i ≠ [] := by
  by_cases hv : volByte x.noteVol = 0
  · rw [tickWrites_zero x hv]
    exact List.cons_ne_nil _ _
  · have hpos : (0 : Word) < (volByte x.noteVol).setWidth 32 :=
      (setWidth_pos_iff _).mpr (byte_pos_of_ne_zero hv)
    rw [tickWrites_fade x hv hpos]
    exact List.cons_ne_nil _ _

theorem poll_writes_ne_nil {s : State} {clk : PollClocks} {i : Fin numNotes}
    (hs : s.sustainLevel = 0) (hu : s.noteUsed i = true)
    (hd : due (clk.test i) (s.noteClocks i) s.msToDec = true) :
    writes s (.poll clk) ≠ [] := by
  rw [step_writes, request_poll, hs]
  intro hnil
  have hall := List.flatMap_eq_nil_iff.mp (List.append_eq_nil_iff.mp hnil).1 i
    (List.mem_finRange i)
  have hboth : ((s.slots i).used && due (clk.test i) (s.noteClocks i) s.msToDec) = true := by
    rw [slots_apply, hu, hd, Bool.and_self]
  exact tickWrites_ne_nil (s.slots i) i ((if_pos hboth).symm.trans hall)

/-- The sustain knob turned to 0. -/
def sustainOff : Event := .packet ⟨0xB0, 0x17, 0⟩ 0

theorem step_sustainOff (s : State) :
    (step s sustainOff).slots = s.slots ∧ (step s sustainOff).sustainLevel = 0 ∧
      (step s sustainOff).msToDec = s.msToDec := by
  have hc := step_controls s sustainOff
  refine ⟨step_slots s sustainOff, ?_, ?_⟩
  · exact congrArg Controls.sustainLevel hc
  · exact congrArg Controls.msToDec hc

/-- The state of another run up to a point where `ms_to_dec` is still
unassigned: the same slots in use, and `ms_to_dec` as it started. -/
theorem run_agrees {u : Uninit} {pre : List Event} (h : NeverReadsUnassigned u pre)
    (m : Word) :
    let sa := run assignStep (boot u, false) pre
    let t := run step (boot { u with msToDec := m }) pre
    Agree sa.2 sa.1 t ∧ (sa.2 = false → t.msToDec = m) := by
  refine run_rel_along (C := ReadsAssigned)
    (R := fun sa t => Agree sa.2 sa.1 t ∧ (sa.2 = false → t.msToDec = m)) ?_ ?_ h
  · rintro sa t e hr ⟨hagree, hm⟩
    refine ⟨agree_step hagree hr, fun ha => ?_⟩
    obtain ⟨ha, hset⟩ := Bool.or_eq_false_iff.mp ha
    have ht : (step t e).msToDec = t.msToDec :=
      (congrArg Controls.msToDec (step_controls t e)).trans
        (nextControls_keep (of_decide_eq_false hset) _)
    rw [ht, hm ha]
  · refine ⟨agree_boot _ _, fun _ => ?_⟩
    rw [boot_eq]

/-- Wherever a history reads `ms_to_dec` unassigned, turning the sustain
knob to 0 just before makes the read visible: two initial contents store
differently. -/
theorem unassigned_read_shows {u : Uninit} {evs : List Event}
    (h : ¬ NeverReadsUnassigned u evs) :
    ∃ pre clk post, evs = pre ++ .poll clk :: post ∧
      observations { u with msToDec := 0 } (pre ++ [sustainOff, .poll clk]) ≠
        observations { u with msToDec := -1 } (pre ++ [sustainOff, .poll clk]) := by
  obtain ⟨pre, e, post, rfl, hpre, he⟩ := exists_of_not_along h
  cases e with
  | packet p clock => exact absurd trivial he
  | poll clk =>
    refine ⟨pre, clk, post, rfl, fun heq => ?_⟩
    obtain ⟨⟨i, hu⟩, ha⟩ := Classical.not_imp.mp he
    rw [Bool.not_eq_true] at ha
    obtain ⟨hagree₀, hm₀⟩ := run_agrees hpre 0
    obtain ⟨-, hm₁⟩ := run_agrees hpre (-1)
    have hu₀ : (run step (boot { u with msToDec := 0 }) pre).noteUsed i = true :=
      (hagree₀.slots i).2.1.trans hu
    generalize hs₀ : run step (boot { u with msToDec := 0 }) pre = s₀ at *
    generalize hs₁ : run step (boot { u with msToDec := -1 }) pre = s₁ at *
    -- the last stores of the two runs
    have hlast : writes (step s₀ sustainOff) (.poll clk) = writes (step s₁ sustainOff) (.poll clk) := by
      rw [observations, observations, outputs_append, outputs_append, hs₀, hs₁] at heq
      have htail := (List.append_inj heq (by rw [outputs_length, outputs_length])).2
      simp only [outputs_cons, outputs_nil, List.cons.injEq, observe, Prod.mk.injEq] at htail
      exact htail.2.1.1
    obtain ⟨hslots₀, hsus₀, hms₀⟩ := step_sustainOff s₀
    obtain ⟨-, -, hms₁⟩ := step_sustainOff s₁
    have hnil : writes (step s₁ sustainOff) (.poll clk) = [] :=
      poll_writes_early fun j => by rw [hms₁, hm₁ ha, due_max]
    have hne : writes (step s₀ sustainOff) (.poll clk) ≠ [] := by
      refine poll_writes_ne_nil (i := i) hsus₀ ?_ ?_
      · exact (congrArg Slot.used (congrFun hslots₀ i)).trans hu₀
      · rw [hms₀, hm₀ ha, due_zero]
    exact hne (hlast.trans hnil)

/-! ## §5 Independence -/

/-- **Independence from uninitialised locals.** A history whose decay polls
never read an unassigned `ms_to_dec` stores the same words and sets the
same flags whatever the locals start with; any other history reaches a poll
that shows the difference. -/
theorem uninit_independence (u : Uninit) (evs : List Event) :
    (NeverReadsUnassigned u evs → ∀ u', observations u evs = observations u' evs) ∧
    (¬ NeverReadsUnassigned u evs → ∃ pre clk post, evs = pre ++ .poll clk :: post ∧
      ∃ u₁ u₂, observations u₁ (pre ++ [sustainOff, .poll clk]) ≠
        observations u₂ (pre ++ [sustainOff, .poll clk])) := by
  refine ⟨fun h u' => ?_, fun h => ?_⟩
  · have hghost : outputs assignStep (fun sa e => observe sa.1 e) (boot u, false) evs
        = observations u evs :=
      outputs_map (f := Prod.fst) (fun _ _ => rfl) _ evs
    rw [← hghost, observations]
    refine outputs_rel (C := ReadsAssigned) (R := fun sa t => Agree sa.2 sa.1 t)
      ?_ ?_ (agree_boot u u') h
    · exact fun sa t e hr hagree => agree_step hagree hr
    · exact fun sa t e hr hagree => observe_agrees hagree hr
  · obtain ⟨pre, clk, post, hevs, hne⟩ := unassigned_read_shows h
    exact ⟨pre, clk, post, hevs, _, _, hne⟩

/-- The decay time is set before the first poll, so two contents of
`ms_to_dec` store alike. -/
theorem uninit_independence_assigned :
    let evs : List Event := [.packet ⟨0x90, 0, 0⟩ 0, .packet ⟨0xB0, 0x16, 9⟩ 0, sustainOff,
      .packet ⟨0x90, 60, 100⟩ 0, .poll ⟨fun _ => 5, fun _ => 6⟩]
    observations default evs = observations { (default : Uninit) with msToDec := 7 } evs :=
  (uninit_independence default _).1 (by decide) _

/-- With the sustain level at 0 and the decay time never set, one poll at
clock reading 0 fades the voice when `ms_to_dec` holds 0 and not when it
holds 1. -/
theorem not_uninit_independence :
    ¬ ∀ (u u' : Uninit) (evs : List Event), observations u evs = observations u' evs := by
  intro h
  have hobs := h { (default : Uninit) with msToDec := 0 } { (default : Uninit) with msToDec := 1 }
    [.packet ⟨0x90, 0, 0⟩ 0, sustainOff, .packet ⟨0x90, 60, 100⟩ 0,
      .poll ⟨fun _ => 0, fun _ => 0⟩]
  exact absurd hobs (by decide)

end MidiSynth.Software
