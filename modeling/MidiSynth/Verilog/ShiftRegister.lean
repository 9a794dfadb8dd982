/-
MidiSynth.Verilog.ShiftRegister — words sent bit by bit, most significant
bit first.

`wire x n` is what `n` edges carry when a register holding `x` is shifted
up by one at each of them and its top bit sampled: the bits of `x` from the
top, and zeros once they have run out.

`outputs_shifting` is the rule for a clocked circuit that contains such a
register: it asks only what each edge does to the register and the output,
so the rest of the state may do anything. `reassemble` is the register at
the other end of the wire, and `reassemble_take` the round trip.
-/
import Mathlib.Algebra.Ring.Nat
import MidiSynth.Machine.Run

namespace MidiSynth.Verilog

open MidiSynth.Machine

/-! ## §1 The register -/

/-- `{x[w-1:0], 1'b0}` for a register of `w + 1` bits. -/
def shiftedUp {w : Nat} (x : BitVec (w + 1)) : BitVec (w + 1) :=
  (x.extractLsb' 0 w).concat false

theorem shiftedUp_eq {w : Nat} (x : BitVec (w + 1)) : shiftedUp x = x <<< 1 := by
  apply BitVec.eq_of_getLsbD_eq
  intro i hi
  cases i with
  | zero => simp [shiftedUp]
  | succ i =>
    have hlt : i < w := by omega
    have hget : x.getLsbD i = x[i] := BitVec.getLsbD_eq_getElem (by omega)
    simp [shiftedUp, hlt, hget]

/-! ## §2 The wire -/

section Wire

variable {w : Nat}

/-- The bits of `x` from the most significant one, over `n` edges. -/
def wire (x : BitVec w) (n : Nat) : List Bool := (List.range n).map x.getMsbD

@[simp] theorem wire_length (x : BitVec w) (n : Nat) : (wire x n).length = n := by
  simp [wire]

theorem wire_succ (x : BitVec w) (n : Nat) :
    wire x (n + 1) = x.msb :: wire (x <<< 1) n := by
  have htail : ∀ k, (x <<< 1).getMsbD k = x.getMsbD (k + 1) := fun k => by simp
  simp only [wire, List.range_succ_eq_map, List.map_cons, List.map_map,
    BitVec.msb_eq_getMsbD_zero]
  refine congrArg _ (List.map_congr_left fun k _ => (htail k).symm)

/-- Enough edges tell words apart. -/
theorem wire_inj {x y : BitVec w} {n : Nat} (hn : w ≤ n) (h : wire x n = wire y n) :
    x = y := by
  apply BitVec.eq_of_getMsbD_eq
  intro i hi
  have hmem : i ∈ List.range n := List.mem_range.mpr (by omega)
  exact List.map_inj_left.mp h i hmem

end Wire

/-! ## §3 A circuit with a shift register -/

/-- A circuit that at every edge shifts `reg` up and puts its top bit out
sends the word `reg` held. -/
theorem outputs_shifting {σ ι : Type*} {w : Nat} {step : σ → ι → σ} {out : σ → ι → Bool}
    (reg : σ → BitVec w) {is : List ι}
    (h : ∀ i ∈ is, ∀ s, reg (step s i) = reg s <<< 1 ∧ out s i = (reg s).msb) (s : σ) :
    outputs step out s is = wire (reg s) is.length := by
  induction is generalizing s with
  | nil => rfl
  | cons i is ih =>
    obtain ⟨hreg, hout⟩ := h i List.mem_cons_self s
    have htail := ih (fun j hj => h j (List.mem_cons_of_mem i hj)) (step s i)
    rw [outputs_cons, htail, hout, hreg, List.length_cons, wire_succ]

/-! ## §4 The receiver -/

section Receiver

variable {w : Nat}

/-- A register that shifts the bits of the wire in, first bit first. -/
def reassemble (w : Nat) (bs : List Bool) : BitVec w := bs.foldl BitVec.shiftConcat 0

theorem wire_concat (x : BitVec w) (n : Nat) : wire x (n + 1) = wire x n ++ [x.getMsbD n] := by
  simp [wire, List.range_succ]

/-- One more bit of the word. -/
theorem shiftConcat_wire (x : BitVec w) {n : Nat} (hn : n < w) :
    (x >>> (w - n)).shiftConcat (x.getMsbD n) = x >>> (w - (n + 1)) := by
  apply BitVec.eq_of_getLsbD_eq
  intro i hi
  have hnext : w - (n + 1) = w - 1 - n := by omega
  cases i with
  | zero => simp [BitVec.getMsbD_eq_getLsbD, hn, hi, hnext]
  | succ i =>
    have hsame : w - n + i = w - (n + 1) + (i + 1) := by omega
    simp [hi, hsame]

/-- After `n` bits the receiver holds the top `n` bits of the word. -/
theorem reassemble_wire (x : BitVec w) {n : Nat} (hn : n ≤ w) :
    reassemble w (wire x n) = x >>> (w - n) := by
  induction n with
  | zero =>
    rw [Nat.sub_zero, BitVec.ushiftRight_eq_zero (Nat.le_refl w)]
    rfl
  | succ n ih =>
    rw [wire_concat, reassemble, List.foldl_append, ← reassemble, ih (Nat.le_of_lt hn),
      ← shiftConcat_wire x hn]
    rfl

theorem take_wire (x : BitVec w) (m n : Nat) : (wire x n).take m = wire x (min m n) := by
  rw [wire, ← List.map_take, List.take_range, wire]

/-- Enough edges give the word back. -/
theorem reassemble_take (x : BitVec w) {n : Nat} (hn : w ≤ n) :
    reassemble w ((wire x n).take w) = x := by
  rw [take_wire, Nat.min_eq_left hn, reassemble_wire x (Nat.le_refl w)]
  simp

end Receiver
end MidiSynth.Verilog
