/-
MidiSynth.Verilog.DownCounter — a register that counts down to zero and
reloads.

Such a counter divides the clock by `h + 1`, `h` being what it reloads.
`CountsDown` asks of a circuit only what each clock does to the register, so
the rest of the state may do anything. A counter found at `c` is zero after
exactly `c`, `c + (h + 1)`, `c + 2 * (h + 1)`, … clocks (`zero_iff`), even
when `c` is above `h`.

The induction is on half cycles: up to the first reload nothing happens, and
the clock of the reload leaves the same problem with fewer clocks to go
(`half_induct`).
-/
import Mathlib.Data.BitVec
import Mathlib.Tactic.Ring
import MidiSynth.Machine.Run

namespace MidiSynth.Verilog

open MidiSynth.Machine

/-! ## §1 Counting down -/

section Word

variable {w : Nat}

theorem toNat_sub_one {c : BitVec w} (h : c ≠ 0) : (c - 1).toNat = c.toNat - 1 := by
  have hc := c.isLt
  have hpos : c.toNat ≠ 0 := fun h' => h (BitVec.eq_of_toNat_eq h')
  have hlt : 1 < 2 ^ w := by omega
  have hone : (1 : BitVec w).toNat = 1 := Nat.mod_eq_of_lt hlt
  rw [BitVec.toNat_sub, hone]
  have hsplit : 2 ^ w - 1 + c.toNat = 2 ^ w + (c.toNat - 1) := by omega
  rw [hsplit, Nat.add_mod_left, Nat.mod_eq_of_lt (by omega)]

/-- A counter that lasts one more clock is not 0, and lasts the rest after
it. -/
theorem counter_lasts {c : BitVec w} {n : Nat} (hn : n + 1 ≤ c.toNat) :
    c ≠ 0 ∧ n ≤ (c - 1).toNat := by
  have hne : c ≠ 0 := by
    rintro rfl
    exact absurd hn (by simp)
  rw [toNat_sub_one hne]
  exact ⟨hne, by omega⟩

theorem counter_sub (c : BitVec w) (n : Nat) :
    c - 1 - BitVec.ofNat w n = c - BitVec.ofNat w (n + 1) := by
  have hsucc : BitVec.ofNat w (n + 1) = BitVec.ofNat w n + 1 := BitVec.ofNat_add n 1
  rw [hsucc]
  ring

end Word

/-! ## §2 A circuit with a down counter -/

section Circuit

variable {σ ι : Type*} {w : Nat} {step : σ → ι → σ} {reg : σ → BitVec w} {i : ι}
  {h : BitVec w}

/-- While `i` is on the ports, `reg` counts down to 0 and reloads `h`. -/
structure CountsDown (step : σ → ι → σ) (reg : σ → BitVec w) (i : ι) (h : BitVec w) :
    Prop where
  down : ∀ s, reg s ≠ 0 → reg (step s i) = reg s - 1
  reload : ∀ s, reg s = 0 → reg (step s i) = h

/-- The clocks of a run at which the counter reloads. -/
def reloads (step : σ → ι → σ) (reg : σ → BitVec w) (s : σ) (is : List ι) : Nat :=
  (outputs step (fun t _ => decide (reg t = 0)) s is).count true

theorem run_replicate_add (s : σ) (m n : Nat) :
    run step s (List.replicate (m + n) i)
      = run step (run step s (List.replicate m i)) (List.replicate n i) := by
  rw [List.replicate_add, run_append]

theorem reloads_replicate_add (s : σ) (m n : Nat) :
    reloads step reg s (List.replicate (m + n) i)
      = reloads step reg s (List.replicate m i)
        + reloads step reg (run step s (List.replicate m i)) (List.replicate n i) := by
  rw [reloads, List.replicate_add, outputs_append, List.count_append]
  rfl

/-- Induction on half cycles: `n` clocks that do not reach the first reload,
or the half cycle up to it and `n` clocks after. -/
theorem half_induct (step : σ → ι → σ) (reg : σ → BitVec w) (i : ι) {P : σ → Nat → Prop}
    (first : ∀ s n, n ≤ (reg s).toNat → P s n)
    (next : ∀ s n, P (run step s (List.replicate ((reg s).toNat + 1) i)) n →
      P s ((reg s).toNat + 1 + n)) (s : σ) (n : Nat) : P s n := by
  induction n using Nat.strong_induction_on generalizing s with
  | _ n ih =>
    rcases Nat.lt_or_ge (reg s).toNat n with hgt | hle
    · obtain ⟨m, rfl⟩ := Nat.exists_eq_add_of_le hgt
      exact next s m (ih m (by omega) _)
    · exact first s n hle

namespace CountsDown

variable (hc : CountsDown step reg i h)

include hc

theorem run_down {s : σ} {n : Nat} (hn : n ≤ (reg s).toNat) :
    reg (run step s (List.replicate n i)) = reg s - BitVec.ofNat w n := by
  induction n generalizing s with
  | zero => simp
  | succ n ih =>
    obtain ⟨hne, hle⟩ := counter_lasts hn
    rw [List.replicate_succ, run_cons, ih (by rw [hc.down s hne]; exact hle), hc.down s hne,
      counter_sub]

/-- Before the first reload the counter is 0 only at the end. -/
theorem run_down_zero_iff {s : σ} {n : Nat} (hn : n ≤ (reg s).toNat) :
    reg (run step s (List.replicate n i)) = 0 ↔ n = (reg s).toNat := by
  have hlt := (reg s).isLt
  rw [hc.run_down hn, sub_eq_zero, ← BitVec.toNat_inj, BitVec.toNat_ofNat,
    Nat.mod_eq_of_lt (by omega)]
  omega

/-- The clock after that reloads. -/
theorem run_half (s : σ) :
    reg (run step s (List.replicate ((reg s).toNat + 1) i)) = h := by
  rw [List.replicate_succ', run_concat]
  exact hc.reload _ ((hc.run_down_zero_iff (Nat.le_refl _)).mpr rfl)

/-- **The clocks that find the counter at 0.** -/
theorem zero_iff (s : σ) (n : Nat) :
    reg (run step s (List.replicate n i)) = 0 ↔
      ∃ k, n = (reg s).toNat + k * (h.toNat + 1) := by
  induction s, n using half_induct step reg i with
  | first s n hn =>
    rw [hc.run_down_zero_iff hn]
    constructor
    · intro heq
      exact ⟨0, by omega⟩
    · rintro ⟨k, hk⟩
      omega
  | next s n ih =>
    rw [run_replicate_add, ih, hc.run_half]
    constructor
    · rintro ⟨k, hk⟩
      exact ⟨k + 1, by rw [Nat.succ_mul]; omega⟩
    · rintro ⟨k, hk⟩
      cases k with
      | zero => omega
      | succ k => exact ⟨k, by rw [Nat.succ_mul] at hk; omega⟩

/-- Once reloaded, the counter stays at or below `h`. -/
theorem le_of_le {s : σ} (hs : reg s ≤ h) (n : Nat) :
    reg (run step s (List.replicate n i)) ≤ h := by
  induction n with
  | zero => exact hs
  | succ n ih =>
    rw [List.replicate_succ', run_concat]
    by_cases hz : reg (run step s (List.replicate n i)) = 0
    · rw [hc.reload _ hz]
      exact BitVec.le_refl h
    · rw [hc.down _ hz, BitVec.le_def, toNat_sub_one hz]
      exact Nat.le_trans (Nat.sub_le _ _) ih

/-- Up to the first reload there is none. -/
theorem reloads_down {s : σ} {n : Nat} (hn : n ≤ (reg s).toNat) :
    reloads step reg s (List.replicate n i) = 0 := by
  induction n generalizing s with
  | zero => rfl
  | succ n ih =>
    obtain ⟨hne, hle⟩ := counter_lasts hn
    have htail := ih (s := step s i) (by rw [hc.down s hne]; exact hle)
    rw [reloads] at htail
    rw [reloads, List.replicate_succ, outputs_cons, List.count_cons, htail,
      decide_eq_false hne]
    rfl

theorem reloads_half (s : σ) :
    reloads step reg s (List.replicate ((reg s).toNat + 1) i) = 1 := by
  have hz := (hc.run_down_zero_iff (Nat.le_refl (reg s).toNat)).mpr rfl
  rw [reloads_replicate_add, hc.reloads_down (Nat.le_refl _), Nat.zero_add]
  simp [reloads, hz]

/-- A counter that has reloaded is at or below `h`. -/
theorem le_of_reloads {s : σ} {n : Nat}
    (hn : 0 < reloads step reg s (List.replicate n i)) :
    reg (run step s (List.replicate n i)) ≤ h := by
  rcases Nat.lt_or_ge (reg s).toNat n with hgt | hle
  · obtain ⟨m, rfl⟩ := Nat.exists_eq_add_of_le hgt
    rw [run_replicate_add]
    exact hc.le_of_le (by rw [hc.run_half]; exact BitVec.le_refl h) m
  · rw [hc.reloads_down hle] at hn
    omega

end CountsDown

end Circuit

end MidiSynth.Verilog
