/-
MidiSynth.Hardware.TriangleCycleTheorems — the triangle wave over whole
cycles.

Between resets the circuit sees the period only through `init` and
`increment`; `clock` is its `always_ff` for any values of the two. The ramp
has `init + 1` levels, and `position` says on which of them the register
stands, counted from the turning point at the bottom. While the two signals
are held, `local_val` minus what that position is worth never changes: it is
the `base` of the ramp (`base_clock`), and every level is the base and a
number of increments.

So a state that is back at its counter and its direction is back altogether
(`state_ext`), and equal positions have equal levels (`localVal_congr`): the
cycle is exact and symmetric, whatever the increment
(`triangle_cycle_exact`).
-/
import MidiSynth.Hardware.OscillatorTheorems

namespace MidiSynth.Hardware.TriangleWave

open MidiSynth.Machine MidiSynth.Verilog

/-! ## §1 The circuit between resets -/

/-- The combinational signals the registers are fed from. -/
structure Signals where
  init : BitVec 24
  increment : BitVec 24

/-- The signals under the period `p`. -/
def signals (p : BitVec 23) : Signals := ⟨init p, increment p⟩

/-- `always_ff @(posedge clk)` with reset low. -/
def clock (s : State) (g : Signals) : State :=
  if s.counter = 0 then { s with updown := !s.updown, counter := g.init }
  else
    { s with
        counter := s.counter - 1
        localVal :=
          if s.updown then s.localVal + g.increment else s.localVal - g.increment }

theorem step_held (s : State) (p : BitVec 23) : step s (held p) = clock s (signals p) := rfl

theorem run_held (s : State) (p : BitVec 23) (n : Nat) :
    run step s (List.replicate n (held p)) = run clock s (List.replicate n (signals p)) := by
  induction n generalizing s with
  | zero => rfl
  | succ n ih =>
    rw [List.replicate_succ, List.replicate_succ, run_cons, run_cons, step_held, ih]

section Clock

variable (g : Signals) {s : State}

theorem clock_turn (hs : s.counter = 0) :
    clock s g = ⟨g.init, s.localVal, !s.updown⟩ := by
  rw [clock, if_pos hs]

theorem clock_ramp (hs : s.counter ≠ 0) :
    clock s g = ⟨s.counter - 1,
      if s.updown then s.localVal + g.increment else s.localVal - g.increment, s.updown⟩ := by
  rw [clock, if_neg hs]

theorem countsDown : CountsDown clock State.counter g g.init where
  down := fun s hs => by rw [clock_ramp g hs]
  reload := fun s hs => by rw [clock_turn g hs]

/-- While the counter lasts, the direction stays. -/
theorem updown_run {n : Nat} (hn : n ≤ s.counter.toNat) :
    (run clock s (List.replicate n g)).updown = s.updown := by
  induction n generalizing s with
  | zero => rfl
  | succ n ih =>
    obtain ⟨hne, hle⟩ := counter_lasts hn
    rw [List.replicate_succ, run_cons, clock_ramp g hne, ih hle]

theorem updown_half (s : State) :
    (run clock s (List.replicate (s.counter.toNat + 1) g)).updown = !s.updown := by
  have hzero := ((countsDown g).run_down_zero_iff (Nat.le_refl s.counter.toNat)).mpr rfl
  rw [List.replicate_succ', run_concat, clock_turn g hzero, updown_run g (Nat.le_refl _)]

/-! ## §2 The base of the ramp -/

/-- How many increments above the bottom of the ramp. -/
def position (s : State) : BitVec 24 := if s.updown then g.init - s.counter else s.counter

/-- The level at the bottom of the ramp. -/
def base (s : State) : BitVec 24 := s.localVal - position g s * g.increment

theorem localVal_eq (s : State) : s.localVal = base g s + position g s * g.increment := by
  rw [base]
  ring

/-- **The base never moves** while the signals are held. -/
theorem base_clock (s : State) : base g (clock s g) = base g s := by
  by_cases hs : s.counter = 0
  · rw [clock_turn g hs]
    cases hu : s.updown with
    | false => simp [base, position, hu, hs]
    | true => simp [base, position, hu, hs]
  · rw [clock_ramp g hs]
    cases hu : s.updown with
    | false =>
      simp only [base, position, hu, Bool.false_eq_true, if_false]
      ring
    | true =>
      simp only [base, position, hu, if_true]
      ring

theorem base_run (s : State) (n : Nat) :
    base g (run clock s (List.replicate n g)) = base g s := by
  induction n generalizing s with
  | zero => rfl
  | succ n ih => rw [List.replicate_succ, run_cons, ih, base_clock]

/-- Equal base and position: equal level. -/
theorem localVal_congr {s t : State} (hb : base g s = base g t)
    (hp : position g s = position g t) : s.localVal = t.localVal := by
  rw [localVal_eq g s, localVal_eq g t, hb, hp]

/-- A state is its counter, its direction and its base. -/
theorem state_ext {s t : State} (hc : s.counter = t.counter) (hu : s.updown = t.updown)
    (hb : base g s = base g t) : s = t := by
  have hp : position g s = position g t := by rw [position, position, hc, hu]
  have hl := localVal_congr g hb hp
  cases s
  cases t
  simp only at hc hl hu
  rw [hc, hl, hu]

end Clock

/-! ## §3 The cycle from reset -/

section Cycle

variable (g : Signals)

/-- Clocks of a complete cycle. -/
def Signals.cycle : Nat := 2 * (g.init.toNat + 1)

/-- The state a reset leaves. -/
def start : State := ⟨g.init, resetLevel, true⟩

theorem start_signals (p : BitVec 23) : start (signals p) = resetState p := rfl

theorem base_start : base g (start g) = resetLevel := by
  simp [base, position, start]

theorem base_resetState (p : BitVec 23) : base (signals p) (resetState p) = resetLevel :=
  base_start (signals p)

/-- A state at the beginning of a half cycle comes back after two. -/
theorem run_cycle {s : State} (hs : s.counter = g.init) :
    run clock s (List.replicate g.cycle g) = s := by
  have hsplit : g.cycle = (s.counter.toNat + 1) + (g.init.toNat + 1) := by
    rw [hs, Signals.cycle, Nat.two_mul]
  have hmid : (run clock s (List.replicate (s.counter.toNat + 1) g)).counter = g.init :=
    (countsDown g).run_half s
  have hend := (countsDown g).run_half (run clock s (List.replicate (s.counter.toNat + 1) g))
  have hturn := updown_half g (run clock s (List.replicate (s.counter.toNat + 1) g))
  rw [hmid, ← run_replicate_add, ← hsplit] at hend hturn
  refine state_ext g (hend.trans hs.symm) ?_ (base_run g s _)
  rw [hturn, updown_half, Bool.not_not]

theorem run_cycles (k : Nat) :
    run clock (start g) (List.replicate (k * g.cycle) g) = start g := by
  induction k with
  | zero => rw [Nat.zero_mul]; rfl
  | succ k ih => rw [Nat.succ_mul, run_replicate_add, ih, run_cycle g rfl]

/-- Going up, the position is what has been counted down. -/
theorem position_rise {s : State} (hs : s.counter = g.init) (hu : s.updown = true) {n : Nat}
    (hn : n ≤ g.init.toNat) :
    position g (run clock s (List.replicate n g)) = BitVec.ofNat 24 n := by
  rw [← hs] at hn
  rw [position, updown_run g hn, hu, if_pos rfl, (countsDown g).run_down hn, hs]
  ring

/-- Going down, it is the counter. -/
theorem position_fall {s : State} (hs : s.counter = g.init) (hu : s.updown = false) {n : Nat}
    (hn : n ≤ g.init.toNat) :
    position g (run clock s (List.replicate n g)) = g.init - BitVec.ofNat 24 n := by
  rw [← hs] at hn
  rw [position, updown_run g hn, hu, if_neg Bool.false_ne_true, (countsDown g).run_down hn, hs]

theorem ofNat_sub_of_le {x : BitVec 24} {n : Nat} (hn : n ≤ x.toNat) :
    BitVec.ofNat 24 (x.toNat - n) = x - BitVec.ofNat 24 n := by
  apply BitVec.eq_of_toNat_eq
  have hlt := x.isLt
  rw [BitVec.toNat_sub, BitVec.toNat_ofNat, BitVec.toNat_ofNat]
  omega

/-- Over every cycle the registers come back, and the falling half mirrors
the rising one. `state n` is the state `n` clocks after the reset. -/
def CycleExact (state : Nat → State) (h : Nat) : Prop :=
  ∀ k, state (k * (2 * (h + 1))) = state 0 ∧
    ∀ j ≤ h, (state (k * (2 * (h + 1)) + (h + 1 + j))).localVal
      = (state (k * (2 * (h + 1)) + (h - j))).localVal

theorem cycleExact_clock :
    CycleExact (fun n => run clock (start g) (List.replicate n g)) g.init.toNat := by
  intro k
  have hback : run clock (start g) (List.replicate (k * (2 * (g.init.toNat + 1))) g) = start g :=
    run_cycles g k
  have hshift : ∀ n, run clock (start g) (List.replicate (k * (2 * (g.init.toNat + 1)) + n) g)
      = run clock (start g) (List.replicate n g) := by
    intro n
    rw [run_replicate_add, hback]
  have hhalf : (run clock (start g) (List.replicate (g.init.toNat + 1) g)).counter = g.init :=
    (countsDown g).run_half (start g)
  have hturn : (run clock (start g) (List.replicate (g.init.toNat + 1) g)).updown = false :=
    updown_half g (start g)
  refine ⟨hback, fun j hj => ?_⟩
  simp only [hshift]
  refine localVal_congr g ((base_run g _ _).trans (base_run g _ _).symm) ?_
  rw [run_replicate_add, position_fall g hhalf hturn hj, position_rise g rfl rfl (Nat.sub_le _ _),
    ofNat_sub_of_le hj]

theorem cycleExact_held (p : BitVec 23) :
    CycleExact (fun n => run step (resetState p) (List.replicate n (held p)))
      (p.toNat / 2) := by
  have h := cycleExact_clock (signals p)
  have hinit : (signals p).init.toNat = p.toNat / 2 := toNat_init p
  rw [hinit, start_signals] at h
  simp only [run_held]
  exact h

/-- **The triangle cycle is exact and symmetric**, for any values of `init`
and `increment`, and so for every period. -/
theorem triangle_cycle_exact :
    (∀ g : Signals,
      CycleExact (fun n => run clock (start g) (List.replicate n g)) g.init.toNat) ∧
    (∀ p : BitVec 23, 1 ≤ p.toNat / 2 →
      CycleExact (fun n => run step (resetState p) (List.replicate n (held p)))
        (p.toNat / 2)) :=
  ⟨cycleExact_clock, fun p _ => cycleExact_held p⟩

end Cycle

end MidiSynth.Hardware.TriangleWave
