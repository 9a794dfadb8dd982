/-
MidiSynth.Verilog.Progression — the values an accumulator ramps through.

A register that starts at `a` and adds `d` at each of `h` clocks takes the
values `a`, `a + d`, …, `a + h * d`, in a group that in hardware wraps
around. Two ramps of the same step and length may start apart and still
take the same SET of values, but only when the step comes back to zero
within the ramp, so that it covers a whole coset of its multiples
(`progression_eq_iff`).
-/
import Mathlib.Algebra.Group.Basic
import Mathlib.Algebra.Ring.Nat
import Mathlib.Data.Set.Basic
import Mathlib.Tactic.Ring

namespace MidiSynth.Verilog

section Group

variable {G : Type*} [AddCommGroup G]

/-- `a`, `a + d`, …, `a + h * d`. -/
def progression (a d : G) (h : Nat) : Set G := {x | ∃ k ≤ h, x = a + k • d}

/-- The step comes back to zero within `h + 1` clocks. -/
def ComesRound (d : G) (h : Nat) : Prop := ∃ m, 0 < m ∧ m ≤ h + 1 ∧ m • d = 0

variable {a b d : G} {h : Nat}

theorem start_mem : a ∈ progression a d h := ⟨0, Nat.zero_le h, by simp⟩

/-- Then the ramp takes in every multiple. -/
theorem ComesRound.mem (hd : ComesRound d h) (a : G) (k : Nat) :
    a + k • d ∈ progression a d h := by
  obtain ⟨m, hpos, hle, hzero⟩ := hd
  have hlt : k % m < m := Nat.mod_lt k hpos
  refine ⟨k % m, by omega, ?_⟩
  have hk : k • d = (m * (k / m) + k % m) • d := by rw [Nat.div_add_mod]
  rw [hk, add_nsmul, mul_comm m, mul_nsmul', hzero, nsmul_zero, zero_add]

/-- And a start can be reached from any multiple above it. -/
theorem ComesRound.back (hd : ComesRound d h) {k : Nat} (hab : a = b + k • d) :
    ∃ j : Nat, b = a + j • d := by
  obtain ⟨m, hpos, -, hzero⟩ := hd
  refine ⟨k * (m - 1), ?_⟩
  have hround : k + k * (m - 1) = k * m := by
    obtain ⟨n, rfl⟩ := Nat.exists_eq_add_of_le hpos
    rw [Nat.add_sub_cancel_left]
    ring
  rw [hab, add_assoc, ← add_nsmul, hround, mul_nsmul', hzero, nsmul_zero, add_zero]

theorem ComesRound.subset (hd : ComesRound d h) {k : Nat} (hab : a = b + k • d) :
    progression a d h ⊆ progression b d h := by
  rintro x ⟨j, -, rfl⟩
  rw [hab, add_assoc, ← add_nsmul]
  exact hd.mem b (k + j)

/-- Two starts whose ramps take the same values are equal, or else one step
below the first is in the ramp too, and closes it. -/
theorem comesRound_of_eq (heq : progression a d h = progression b d h) (hne : a ≠ b) :
    ComesRound d h ∧ ∃ k : Nat, a = b + k • d := by
  have ha : a ∈ progression b d h := heq ▸ start_mem
  obtain ⟨i, hi, hai⟩ := ha
  refine ⟨?_, i, hai⟩
  cases i with
  | zero => exact absurd (by simpa using hai) hne
  | succ i =>
    have hbelow : b + i • d ∈ progression a d h := heq ▸ ⟨i, Nat.le_of_lt hi, rfl⟩
    obtain ⟨m, hm, hbm⟩ := hbelow
    refine ⟨m + 1, Nat.succ_pos m, Nat.succ_le_succ hm, ?_⟩
    have hclose : a + (m + 1) • d = a := by
      rw [succ_nsmul, ← add_assoc, ← hbm, add_assoc, ← succ_nsmul, ← hai]
    exact add_eq_left.mp hclose

/-- **When two ramps take the same values.** -/
theorem progression_eq_iff :
    progression a d h = progression b d h ↔
      a = b ∨ ComesRound d h ∧ ∃ k : Nat, a = b + k • d := by
  constructor
  · intro heq
    by_cases hab : a = b
    · exact Or.inl hab
    · exact Or.inr (comesRound_of_eq heq hab)
  · rintro (rfl | ⟨hd, k, hab⟩)
    · rfl
    · obtain ⟨j, hba⟩ := hd.back hab
      exact Set.Subset.antisymm (hd.subset hab) (hd.subset hba)

end Group

end MidiSynth.Verilog
