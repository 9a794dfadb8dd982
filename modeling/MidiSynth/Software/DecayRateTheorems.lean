/-
MidiSynth.Software.DecayRateTheorems — the decay never runs fast.

`clock()` gives the true time in milliseconds modulo `2 ^ 32`, and the time
test multiplies a difference of two readings by 2000 modulo `2 ^ 32`. Both
reductions can only make the elapsed time look shorter, so the test never
succeeds early, however far apart the readings are (`due_never_early`); up
to 2147483 milliseconds there is no reduction and it succeeds on time
(`due_on_time`).

§2 runs the loop with the true times of its `clock()` calls beside it. Each
tick is stamped at or after the time it was tested at, so the time between
two stamps is at least what the tick is worth, and the ticks of a voice add
up to no more than the time since its Note On (`decrements_mul_le`).
-/
import MidiSynth.Software.EnvelopeTheorems

namespace MidiSynth.Software

open MidiSynth.Machine

/-! ## §1 The time test -/

/-- What `clock()` gives at true time `t`. -/
def clockAt (t : Nat) : Word := BitVec.ofNat 32 t

theorem toNat_elapsed {t₀ t₁ : Nat} (h : t₀ ≤ t₁) :
    (clockAt t₁ - clockAt t₀).toNat = (t₁ - t₀) % 2 ^ 32 := by
  rw [clockAt, clockAt, BitVec.toNat_sub, BitVec.toNat_ofNat, BitVec.toNat_ofNat]
  omega

theorem due_iff {t₀ t₁ : Nat} (h : t₀ ≤ t₁) (d : Word) :
    due (clockAt t₁) (clockAt t₀) d = true ↔
      d.toNat ≤ 2000 * ((t₁ - t₀) % 2 ^ 32) % 2 ^ 32 / 1000 := by
  have hfactor : (2000 : Word).toNat = 2000 := rfl
  have hrate : clocksPerSec.toNat = 1000 := rfl
  rw [due, decide_eq_true_iff, BitVec.le_def, BitVec.toNat_udiv, BitVec.toNat_mul,
    toNat_elapsed h, hfactor, hrate]

/-- The test never succeeds before `d` half milliseconds have passed. -/
theorem due_never_early {t₀ t₁ : Nat} (h : t₀ ≤ t₁) {d : Word}
    (hdue : due (clockAt t₁) (clockAt t₀) d = true) : d.toNat ≤ 2 * (t₁ - t₀) := by
  have hle := (due_iff h d).mp hdue
  have hproduct := Nat.mod_le (2000 * ((t₁ - t₀) % 2 ^ 32)) (2 ^ 32)
  have helapsed := Nat.mod_le (t₁ - t₀) (2 ^ 32)
  omega

/-- Nothing is reduced while the product by 2000 fits 32 bits. -/
theorem due_on_time {t₀ t₁ : Nat} (h : t₀ ≤ t₁) {d : Word} (hd : d.toNat ≤ 2 * (t₁ - t₀))
    (hfits : t₁ - t₀ ≤ 2147483) : due (clockAt t₁) (clockAt t₀) d = true := by
  rw [due_iff h, Nat.mod_eq_of_lt (by omega), Nat.mod_eq_of_lt (by omega)]
  omega

/-! ## §2 Runs in true time -/

/-- An event with the true times of its `clock()` calls. -/
inductive TimedEvent where
  | packet (p : MidiPacket) (time : Nat)
  | poll (test stamp : Fin numNotes → Nat)

/-- The event the program sees. -/
def TimedEvent.erase : TimedEvent → Event
  | .packet p time => .packet p (clockAt time)
  | .poll test stamp => .poll ⟨fun i => clockAt (test i), fun i => clockAt (stamp i)⟩

def timedStep (s : State) (e : TimedEvent) : State := step s e.erase

/-- The times of the `clock()` calls an event makes for slot `i`: a poll
tests a slot in use, and stamps it if the test succeeds. -/
def clockCalls (i : Fin numNotes) (s : State) : TimedEvent → List Nat
  | .packet _ _ => []
  | .poll test stamp =>
    if s.noteUsed i then
      test i :: (if due (clockAt (test i)) (s.noteClocks i) s.msToDec then [stamp i] else [])
    else []

/-- A poll lowers the volume of slot `i`. -/
def decremented (i : Fin numNotes) (s : State) : TimedEvent → Bool
  | .packet _ _ => false
  | .poll test stamp => decide (volume i (timedStep s (.poll test stamp)) < volume i s)

/-- The volume decrements of slot `i` over a run. -/
def decrements (i : Fin numNotes) (s : State) (es : List TimedEvent) : Nat :=
  (outputs timedStep (decremented i) s es).count true

/-- The times of the `clock()` calls for slot `i` over a run. -/
def callTimes (i : Fin numNotes) (s : State) (es : List TimedEvent) : List Nat :=
  (outputs timedStep (clockCalls i) s es).flatten

/-- The slot is in use and `ms_to_dec` is `d`. -/
def Steady (i : Fin numNotes) (d : Word) (s : State) (_ : TimedEvent) : Prop :=
  s.noteUsed i = true ∧ s.msToDec = d

instance (i : Fin numNotes) (d : Word) (s : State) (e : TimedEvent) :
    Decidable (Steady i d s e) :=
  inferInstanceAs (Decidable (_ ∧ _))

section Run

variable {s : State} {i : Fin numNotes} {d : Word} {e : TimedEvent} {es : List TimedEvent}

theorem decrements_cons (i : Fin numNotes) (s : State) (e : TimedEvent)
    (es : List TimedEvent) :
    decrements i s (e :: es) =
      decrements i (timedStep s e) es + if decremented i s e then 1 else 0 := by
  rw [decrements, outputs_cons, List.count_cons, decrements]
  simp

theorem callTimes_cons (i : Fin numNotes) (s : State) (e : TimedEvent)
    (es : List TimedEvent) :
    callTimes i s (e :: es) = clockCalls i s e ++ callTimes i (timedStep s e) es := rfl

/-- A tick stamps the slot. -/
theorem tick_clock (sl : Slot) (sustain stamp : Word) :
    (sl.tick sustain stamp).clock = stamp := by
  unfold Slot.tick
  split
  · rfl
  · split <;> rfl

/-- An event does one of three things to a slot in use: it changes neither
its stamp nor its volume, it frees it, or it is a poll that tests it and
stamps it afresh. -/
theorem timed_cases (hu : s.noteUsed i = true) (e : TimedEvent) :
    ((timedStep s e).noteClocks i = s.noteClocks i ∧ decremented i s e = false) ∨
      ((timedStep s e).noteUsed i = false ∧ decremented i s e = false) ∨
      (∃ test stamp, e = .poll test stamp ∧
        due (clockAt (test i)) (s.noteClocks i) s.msToDec = true ∧
        (timedStep s e).noteClocks i = clockAt (stamp i)) := by
  rcases slot_cases hu e.erase with ⟨-, hslot⟩ | ⟨clk, hclk, hdue, -, hslot⟩ |
    ⟨hfreed, p, clock, hp, -⟩
  · refine Or.inl ⟨congrArg Slot.clock hslot, ?_⟩
    cases e with
    | packet p time => rfl
    | poll test stamp =>
      have hvol : (timedStep s (.poll test stamp)).noteVol i = s.noteVol i :=
        congrArg Slot.noteVol hslot
      simp [decremented, volume, hvol]
  · cases e with
    | packet p time => cases hclk
    | poll test stamp =>
      cases hclk
      refine Or.inr (Or.inr ⟨test, stamp, rfl, hdue, ?_⟩)
      exact (congrArg Slot.clock hslot).trans (tick_clock _ _ _)
  · cases e with
    | packet q time => exact Or.inr (Or.inl ⟨hfreed, rfl⟩)
    | poll test stamp => cases hp

/-- **Decrements take time**: while a voice is in use and `ms_to_dec` is
`d`, each decrement takes up `d` half milliseconds since the stamp found at
the start. -/
theorem decrements_mul_le {t₀ t : Nat} (hstamp : s.noteClocks i = clockAt t₀)
    (h : Along timedStep (Steady i d) s es)
    (hmono : (t₀ :: (callTimes i s es ++ [t])).Pairwise (· ≤ ·)) :
    decrements i s es * d.toNat ≤ 2 * (t - t₀) := by
  induction es generalizing s t₀ with
  | nil => simp [decrements]
  | cons e es ih =>
    obtain ⟨⟨hu, hd⟩, hrest⟩ := h
    rw [decrements_cons]
    rw [callTimes_cons, List.append_assoc] at hmono
    have htail : (t₀ :: (callTimes i (timedStep s e) es ++ [t])).Pairwise (· ≤ ·) :=
      hmono.sublist ((List.sublist_append_right _ _).cons_cons t₀)
    rcases timed_cases hu e with ⟨hkeep, hdec⟩ | ⟨hfreed, hdec⟩ | ⟨test, stamp, rfl, hdue, hnext⟩
    · rw [hdec]
      exact ih (hkeep.trans hstamp) hrest htail
    · -- freed: the run ends here
      cases es with
      | nil => simp [decrements, hdec]
      | cons e' es =>
        have hused := hrest.1.1
        rw [hfreed] at hused
        cases hused
    · rw [clockCalls, if_pos hu, if_pos hdue] at hmono
      obtain ⟨hfirst, hmono⟩ := List.pairwise_cons.mp hmono
      obtain ⟨hsecond, hmono⟩ := List.pairwise_cons.mp hmono
      have htest : t₀ ≤ test i := hfirst _ List.mem_cons_self
      have hlater : test i ≤ stamp i := hsecond _ List.mem_cons_self
      have hend : stamp i ≤ t := (List.pairwise_cons.mp hmono).1 t (by simp)
      rw [hstamp, hd] at hdue
      have hspent := due_never_early htest hdue
      have hafter := ih hnext hrest hmono
      have hone : (if decremented i s (.poll test stamp) then 1 else 0) * d.toNat ≤ d.toNat := by
        split <;> omega
      rw [Nat.add_mul]
      omega

/-- The voice that a Note On at `t₀` starts is stamped at `t₀`. -/
theorem noteClocks_of_claimedBy {p : MidiPacket} {clock : Word}
    (h : claimedBy s (.packet p clock) i = some p) :
    (step s (.packet p clock)).noteClocks i = clock :=
  congrArg Slot.clock (slot_of_claimedBy h).2

/-- **The decay never runs fast.** For true times `t₀ ≤ t₁` however far
apart, the time test succeeds only if `d` half milliseconds have passed, and
up to 2147483 milliseconds it succeeds if they have. So a voice that a Note
On claims at `t₀`, in any state, has lost at most `2 * (t - t₀) / d` steps
of volume by `t`, whatever events come and whenever it is polled, as long as
it is in use, `ms_to_dec` is `d` and the `clock()` calls made for it never
go back. -/
theorem decay_never_fast :
    (∀ (t₀ t₁ : Nat) (d : Word), t₀ ≤ t₁ → due (clockAt t₁) (clockAt t₀) d = true →
      d.toNat ≤ 2 * (t₁ - t₀)) ∧
    (∀ (t₀ t₁ : Nat) (d : Word), t₀ ≤ t₁ → d.toNat ≤ 2 * (t₁ - t₀) → t₁ - t₀ ≤ 2147483 →
      due (clockAt t₁) (clockAt t₀) d = true) ∧
    (∀ (s : State) (p : MidiPacket) (i : Fin numNotes) (t₀ t : Nat) (d : Word)
      (es : List TimedEvent),
      let s₁ := step s (.packet p (clockAt t₀))
      claimedBy s (.packet p (clockAt t₀)) i = some p → 0 < d.toNat →
      Along timedStep (Steady i d) s₁ es →
      (t₀ :: (callTimes i s₁ es ++ [t])).Pairwise (· ≤ ·) →
      decrements i s₁ es ≤ 2 * (t - t₀) / d.toNat) := by
  refine ⟨fun t₀ t₁ d h => due_never_early h, fun t₀ t₁ d h => due_on_time h, ?_⟩
  intro s p i t₀ t d es s₁ hclaim hd h hmono
  rw [Nat.le_div_iff_mul_le hd]
  exact decrements_mul_le (noteClocks_of_claimedBy hclaim) h hmono

/-- A Note On just before and a poll just after the clock wraps, decay knob
and sustain level at 0. -/
theorem decay_never_fast_wrap :
    decrements 0
        (step
          (run step (boot default)
            [.packet ⟨0x90, 0, 0⟩ 0, .packet ⟨0xB0, 0x16, 0⟩ 0, .packet ⟨0xB0, 0x17, 0⟩ 0])
          (.packet ⟨0x90, 0x3C, 100⟩ (clockAt (2 ^ 32 - 1))))
        [.poll (fun _ => 2 ^ 32 + 1) (fun _ => 2 ^ 32 + 2)]
      ≤ 2 * ((2 ^ 32 + 2) - (2 ^ 32 - 1)) / (1 : Word).toNat :=
  decay_never_fast.2.2 _ ⟨0x90, 0x3C, 100⟩ 0 (2 ^ 32 - 1) (2 ^ 32 + 2) 1 _ (by decide)
    (by decide) (by decide) (by decide)

end Run

end MidiSynth.Software
