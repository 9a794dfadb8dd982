/-
MidiSynth.Hardware.OscillatorTheorems — the generators under a constant
period.

§1 is the arithmetic of the two quotients. §2 runs the square generator: it
counts a register down from `init` to 0 and reloads it, so a half cycle is
`init + 1` clocks, and at its last clock the level is complemented. §3 has
the single clocks of the triangle generator, whose runs are in
`TriangleCycleTheorems`. §4 counts the wraps of the sawtooth.
-/
import MidiSynth.Hardware.Oscillators
import MidiSynth.Verilog.Accumulator
import MidiSynth.Verilog.DownCounter

namespace MidiSynth.Hardware

open MidiSynth.Machine MidiSynth.Verilog MidiSynth.Verilog.Expr

/-! ## §1 The quotients -/

/-- Half the period, in clocks. -/
theorem SquareWave.toNat_init (p : BitVec 23) : (SquareWave.init p).toNat = p.toNat / 2 := by
  have hp := p.isLt
  have hq := (denotes_sig p 32).div (denotes_ofNat (n := 2) 32 (by decide)) (by omega)
    (by decide)
  refine hq.toNat_assign_of_lt ?_
  omega

theorem TriangleWave.toNat_init (p : BitVec 23) : (TriangleWave.init p).toNat = p.toNat / 2 :=
  SquareWave.toNat_init p

theorem SawtoothWave.toNat_increment (p : BitVec 23) :
    (SawtoothWave.increment p).toNat = 33554431 / (2 * p.toNat) := by
  have hp := p.isLt
  have hq := (denotes_ofNat (n := 33554431) 32 (by decide)).div
    ((denotes_ofNat (n := 2) 32 (by decide)).mul (denotes_sig p 32)) (by decide) (by omega)
  refine hq.toNat_assign_of_lt ?_
  rcases Nat.eq_zero_or_pos p.toNat with h0 | hpos
  · rw [h0]
    decide
  · calc 33554431 / (2 * p.toNat) ≤ 33554431 / 2 := Nat.div_le_div_left (by omega) (by omega)
      _ < 2 ^ 24 := by decide

/-- The triangle's step is the span constant over half the period, cut to 24
bits. -/
theorem TriangleWave.toNat_increment (p : BitVec 23) :
    (TriangleWave.increment p).toNat = 33554431 / (p.toNat / 2) % 2 ^ 24 := by
  have hp := p.isLt
  have hi := TriangleWave.toNat_init p
  have hq := (denotes_ofNat (n := 33554431) 32 (by decide)).div
    (denotes_sig (TriangleWave.init p) 32) (by decide) (by omega)
  rw [← hi]
  exact hq.toNat_assign

/-! ## §2 The square wave -/

/-- A clock edge with reset low. -/
abbrev held (p : BitVec 23) : OscInput := ⟨false, p⟩

namespace SquareWave

variable {p : BitVec 23} {s : State}

theorem step_reload (h : s.counter = 0) : step s (held p) = ⟨init p, ~~~s.localVal⟩ := by
  simp only [step, h, Bool.false_eq_true, if_false, if_true]

theorem step_down (h : s.counter ≠ 0) :
    step s (held p) = ⟨s.counter - 1, s.localVal⟩ := by
  simp only [step, h, Bool.false_eq_true, if_false]

/-- While the counter lasts, only the counter moves. -/
theorem run_down {n : Nat} (hn : n ≤ s.counter.toNat) :
    run step s (List.replicate n (held p)) = ⟨s.counter - BitVec.ofNat 24 n, s.localVal⟩ := by
  induction n generalizing s with
  | zero => simp
  | succ n ih =>
    obtain ⟨hne, hle⟩ := counter_lasts hn
    rw [List.replicate_succ, run_cons, step_down hne, ih hle, counter_sub]

/-- One half cycle: the level is complemented at its last clock. -/
theorem run_half (s : State) :
    run step s (List.replicate (s.counter.toNat + 1) (held p)) = ⟨init p, ~~~s.localVal⟩ := by
  rw [List.replicate_succ', run_concat, run_down (Nat.le_refl _)]
  exact step_reload (by simp)

/-- `init + 1` clocks complement the level and bring the counter back, from
any phase. -/
theorem run_opposite (h : s.counter.toNat ≤ p.toNat / 2) :
    run step s (List.replicate (p.toNat / 2 + 1) (held p)) =
      { s with localVal := ~~~s.localVal } := by
  have hinit : (init p).toNat = p.toNat / 2 := toNat_init p
  have hsplit : p.toNat / 2 + 1
      = (s.counter.toNat + 1) + ((init p).toNat - s.counter.toNat) := by
    rw [hinit]
    omega
  have hback : (init p) - BitVec.ofNat 24 ((init p).toNat - s.counter.toNat) = s.counter := by
    have hsub : BitVec.ofNat 24 ((init p).toNat - s.counter.toNat) = init p - s.counter := by
      apply BitVec.eq_of_toNat_eq
      have hc := (init p).isLt
      rw [BitVec.toNat_ofNat, BitVec.toNat_sub]
      omega
    rw [hsub]
    ring
  rw [hsplit, run_replicate_add, run_half, run_down (Nat.sub_le _ _), hback]

/-- Clocks of a complete cycle of the square wave. -/
def cycle (p : BitVec 23) : Nat := 2 * (p.toNat / 2 + 1)

/-- A complete cycle brings the square wave back to where it was, from any
phase. -/
theorem run_cycle (h : s.counter.toNat ≤ p.toNat / 2) :
    run step s (List.replicate (cycle p) (held p)) = s := by
  have hback := run_opposite (p := p) (s := { s with localVal := ~~~s.localVal }) h
  rw [cycle, Nat.two_mul, run_replicate_add, run_opposite h, hback, BitVec.not_not]

end SquareWave

/-! ## §3 The triangle wave -/

namespace TriangleWave

variable {p : BitVec 23} {s : State}

/-- The level after `n` steps up or down. -/
def ramp (p : BitVec 23) (updown : Bool) (x : BitVec 24) (n : Nat) : BitVec 24 :=
  if updown then x + BitVec.ofNat 24 n * increment p else x - BitVec.ofNat 24 n * increment p

theorem step_turn (h : s.counter = 0) :
    step s (held p) = ⟨init p, s.localVal, !s.updown⟩ := by
  simp only [step, h, Bool.false_eq_true, if_false, if_true]

theorem step_ramp (h : s.counter ≠ 0) :
    step s (held p) = ⟨s.counter - 1, ramp p s.updown s.localVal 1, s.updown⟩ := by
  simp only [step, h, Bool.false_eq_true, if_false, ramp]
  cases s.updown <;> simp

/-- The state a reset leaves. -/
def resetState (p : BitVec 23) : State := ⟨init p, resetLevel, true⟩

theorem step_reset (s : State) (p : BitVec 23) : step s ⟨true, p⟩ = resetState p := rfl

/-- `local_val`, `n` clocks after the reset. -/
def level (p : BitVec 23) (n : Nat) : BitVec 24 :=
  (run step (resetState p) (List.replicate n (held p))).localVal

end TriangleWave

/-! ## §4 The sawtooth wave -/

namespace SawtoothWave

theorem step_held (s : State) (p : BitVec 23) :
    step s (held p) = ⟨s.localVal + increment p⟩ := rfl

/-- The wrap-arounds of `local_val` over `n` clocks from `x`. -/
def wrapsFrom (p : BitVec 23) (x : BitVec 24) (n : Nat) : Nat :=
  wraps State.localVal step ⟨x⟩ (List.replicate n (held p))

theorem wrapsFrom_eq (p : BitVec 23) (x : BitVec 24) (n : Nat) :
    wrapsFrom p x n = (x.toNat + n * (33554431 / (2 * p.toNat))) / 2 ^ 24 := by
  have hstep : ∀ i ∈ List.replicate n (held p), ∀ s,
      (step s i).localVal = s.localVal + increment p := by
    intro i hi s
    rw [(List.mem_replicate.mp hi).2, step_held]
  rw [wrapsFrom, count_wraps State.localVal hstep, List.length_replicate, toNat_increment]

end SawtoothWave

end MidiSynth.Hardware
