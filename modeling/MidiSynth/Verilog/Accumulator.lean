/-
MidiSynth.Verilog.Accumulator — a register that adds a constant at every
clock, modulo two to its width.

Such a phase accumulator divides the clock: it wraps around once for every
`2 ^ w` it has added. `count_wraps` counts the clocks of a run at which it
wrapped, that is, at which it FELL, and asks only what each clock does to
the register.

The wraps are the carries out of the top bit: adding `inc` to `x` carries
exactly when the sum is below `x` (`add_lt_iff`), and counting carries is
dividing (`carry_add_div`).
-/
import Mathlib.Algebra.Ring.Nat
import Mathlib.Tactic.Ring
import MidiSynth.Machine.Run

namespace MidiSynth.Verilog

open MidiSynth.Machine

section Carry

variable {w : Nat}

/-- A sum wraps exactly when it falls below its first operand. -/
theorem add_lt_iff (x y : BitVec w) : x + y < x ↔ 2 ^ w ≤ x.toNat + y.toNat := by
  have hx := x.isLt
  have hy := y.isLt
  rw [BitVec.lt_def, BitVec.toNat_add]
  by_cases h : x.toNat + y.toNat < 2 ^ w
  · rw [Nat.mod_eq_of_lt h]
    omega
  · rw [Nat.mod_eq_sub_mod (Nat.not_lt.mp h), Nat.mod_eq_of_lt (by omega)]
    omega

/-- The carry out of one addition, and the division by `2 ^ w` of whatever
is added afterwards. -/
theorem carry_add_div (x y : BitVec w) (m : Nat) :
    (if x + y < x then 1 else 0) + ((x + y).toNat + m) / 2 ^ w
      = (x.toNat + y.toNat + m) / 2 ^ w := by
  have hx := x.isLt
  have hy := y.isLt
  have hpos : 0 < 2 ^ w := Nat.two_pow_pos w
  by_cases h : 2 ^ w ≤ x.toNat + y.toNat
  · have hsum : x.toNat + y.toNat + m = ((x + y).toNat + m) + 2 ^ w := by
      rw [BitVec.toNat_add, Nat.mod_eq_sub_mod h, Nat.mod_eq_of_lt (by omega)]
      omega
    rw [if_pos ((add_lt_iff x y).mpr h), hsum, Nat.add_div_right _ hpos]
    omega
  · have hsum : (x + y).toNat = x.toNat + y.toNat := by
      rw [BitVec.toNat_add, Nat.mod_eq_of_lt (by omega)]
    rw [if_neg (fun hlt => h ((add_lt_iff x y).mp hlt)), hsum]
    omega

end Carry

section Run

variable {σ ι : Type*} {w : Nat} {step : σ → ι → σ} (reg : σ → BitVec w) {inc : BitVec w}
  {is : List ι}

/-- The clocks of a run at which the register falls. -/
def wraps (step : σ → ι → σ) (s : σ) (is : List ι) : Nat :=
  (outputs step (fun t i => decide (reg (step t i) < reg t)) s is).count true

/-- **Counting wraps is dividing** what was added in all. -/
theorem count_wraps (h : ∀ i ∈ is, ∀ s, reg (step s i) = reg s + inc) (s : σ) :
    wraps reg step s is = ((reg s).toNat + is.length * inc.toNat) / 2 ^ w := by
  induction is generalizing s with
  | nil => simp [wraps, Nat.div_eq_of_lt (reg s).isLt]
  | cons i is ih =>
    have htail := ih (fun j hj => h j (List.mem_cons_of_mem i hj)) (step s i)
    have hhead := h i List.mem_cons_self s
    have hsum : (reg s).toNat + (is.length + 1) * inc.toNat
        = (reg s).toNat + inc.toNat + is.length * inc.toNat := by ring
    rw [List.length_cons, hsum, ← carry_add_div, ← hhead, ← htail, wraps, outputs_cons,
      List.count_cons, wraps]
    simp only [beq_true, decide_eq_true_eq]
    omega

end Run

end MidiSynth.Verilog
