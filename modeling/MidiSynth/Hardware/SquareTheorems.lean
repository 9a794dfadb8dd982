/-
MidiSynth.Hardware.SquareTheorems — the square wave after a change of note.

A note change leaves the counter wherever the old notes brought it, possibly
above the new half period. The counter runs down once more and from then on
the wave has the new period exactly: `square_resync`. Nothing else of the
history is left, since the level only ever is one of two.
-/
import MidiSynth.Hardware.OscillatorTheorems

namespace MidiSynth.Hardware.SquareWave

open MidiSynth.Machine MidiSynth.Verilog

/-! ## §1 The two levels -/

/-- `24'h800000` or its complement. -/
def TwoLevels (s : State) : Prop := s.localVal = 0x800000 ∨ s.localVal = 0x7FFFFF

theorem twoLevels_step (s : State) (i : OscInput) (h : TwoLevels s) :
    TwoLevels (step s i) := by
  unfold step
  split
  · exact Or.inl rfl
  · split
    · rcases h with h | h
      · exact Or.inr (by rw [h]; rfl)
      · exact Or.inl (by rw [h]; rfl)
    · exact h

theorem twoLevels_run (s : State) (q : BitVec 23) (is : List OscInput) :
    TwoLevels (run step s (⟨true, q⟩ :: is)) :=
  run_induct twoLevels_step (Or.inl rfl) is

/-- A level is not its own complement. -/
theorem not_ne_self (x : BitVec 24) : ~~~x ≠ x := by
  intro h
  have hnat := congrArg BitVec.toNat h
  have hx := x.isLt
  rw [BitVec.toNat_not] at hnat
  omega

/-! ## §2 The edges -/

variable {s : State} {p : BitVec 23}

theorem countsDown (p : BitVec 23) : CountsDown step State.counter (held p) (init p) where
  down := fun s hs => by rw [step_down hs]
  reload := fun s hs => by rw [step_reload hs]

/-- The level, `n` clocks into the note. -/
def level (p : BitVec 23) (s : State) (n : Nat) : BitVec 24 :=
  (run step s (List.replicate n (held p))).localVal

/-- Clock `n + 1` complements the level if it finds the counter at 0. -/
theorem level_succ (s : State) (n : Nat) :
    level p s (n + 1) =
      if (run step s (List.replicate n (held p))).counter = 0 then ~~~level p s n
      else level p s n := by
  rw [level, List.replicate_succ', run_concat]
  split
  · rename_i hz
    rw [step_reload hz, level]
  · rename_i hz
    rw [step_down hz, level]

/-- Those are the clocks `c + 1`, `c + 1 + (h + 1)`, … -/
theorem counter_zero_iff (s : State) (n : Nat) :
    (run step s (List.replicate n (held p))).counter = 0 ↔
      ∃ k, n + 1 = s.counter.toNat + 1 + k * (p.toNat / 2 + 1) := by
  rw [(countsDown p).zero_iff, toNat_init]
  refine exists_congr fun k => ?_
  omega

/-! ## §3 The cycle -/

/-- After the first edge the counter is at or below the half period. -/
theorem counter_le {n : Nat} (hn : s.counter.toNat + 1 ≤ n) :
    (run step s (List.replicate n (held p))).counter.toNat ≤ p.toNat / 2 := by
  obtain ⟨m, rfl⟩ := Nat.exists_eq_add_of_le hn
  have hle : (run step s (List.replicate (s.counter.toNat + 1) (held p))).counter ≤ init p := by
    rw [run_half]
    exact BitVec.le_refl _
  have hafter := (countsDown p).le_of_le hle m
  rwa [← run_replicate_add, BitVec.le_def, toNat_init] at hafter

theorem level_opposite {n : Nat} (hn : s.counter.toNat + 1 ≤ n) :
    level p s (n + (p.toNat / 2 + 1)) = ~~~level p s n := by
  rw [level, run_replicate_add, run_opposite (counter_le hn), level]

theorem level_cycle {n : Nat} (hn : s.counter.toNat + 1 ≤ n) :
    level p s (n + 2 * (p.toNat / 2 + 1)) = level p s n := by
  have hsplit : n + 2 * (p.toNat / 2 + 1) = n + (p.toNat / 2 + 1) + (p.toNat / 2 + 1) := by omega
  rw [hsplit, level_opposite (by omega), level_opposite hn, BitVec.not_not]

/-- The half cycle that begins with the first edge. -/
theorem level_first_half {j : Nat} (hj : j ≤ p.toNat / 2) :
    level p s (s.counter.toNat + 1 + j) = ~~~s.localVal := by
  rw [level, run_replicate_add, run_half, run_down (by rw [toNat_init]; exact hj)]

/-- The one after it. -/
theorem level_second_half {j : Nat} (hj : j ≤ p.toNat / 2) :
    level p s (s.counter.toNat + 1 + j + (p.toNat / 2 + 1)) = s.localVal := by
  rw [level_opposite (by omega), level_first_half hj, BitVec.not_not]

/-- No shorter shift maps the wave to itself. -/
theorem cycle_minimal {d : Nat} (hd : 0 < d)
    (hper : ∀ n, s.counter.toNat + 1 ≤ n → level p s (n + d) = level p s n) :
    2 * (p.toNat / 2 + 1) ≤ d := by
  by_contra hlt
  rcases Nat.lt_or_ge (p.toNat / 2) d with hlong | hshort
  · -- a long shift takes the first clock of one half into the other
    obtain ⟨j, rfl⟩ := Nat.exists_eq_add_of_le hlong
    have hshift := hper (s.counter.toNat + 1) (Nat.le_refl _)
    have hland : s.counter.toNat + 1 + (p.toNat / 2 + 1 + j)
        = s.counter.toNat + 1 + j + (p.toNat / 2 + 1) := by omega
    have hfirst := level_first_half (p := p) (s := s) (j := 0) (by omega)
    rw [Nat.add_zero] at hfirst
    rw [Nat.succ_eq_add_one, hland, level_second_half (by omega), hfirst] at hshift
    exact not_ne_self _ hshift.symm
  · -- a short one takes the last clocks of one half into the other
    have hshift := hper (s.counter.toNat + 1 + (p.toNat / 2 + 1 - d)) (by omega)
    have hland : s.counter.toNat + 1 + (p.toNat / 2 + 1 - d) + d
        = s.counter.toNat + 1 + 0 + (p.toNat / 2 + 1) := by omega
    rw [hland, level_second_half (by omega), level_first_half (by omega)] at hshift
    exact not_ne_self _ hshift.symm

/-- **The square wave resynchronises.** After a reset and whatever inputs,
the level is one of two. From when `p` is held, with the counter at `c`, the
level is complemented at clocks `c + 1 + k * (h + 1)` and at no other. So
from the first of them on the halves are equal and the wave repeats every
`2 * (h + 1)` clocks, and no sooner. -/
theorem square_resync (s₀ : State) (q₀ : BitVec 23) (is : List OscInput) (p : BitVec 23) :
    let s := run step s₀ (⟨true, q₀⟩ :: is)
    let h := p.toNat / 2
    let c := s.counter.toNat
    let level := fun n => (run step s (List.replicate n (held p))).localVal
    (s.localVal = 0x800000 ∨ s.localVal = 0x7FFFFF) ∧
      (∀ n, (∃ k, n + 1 = c + 1 + k * (h + 1)) → level (n + 1) = ~~~level n) ∧
      (∀ n, (¬ ∃ k, n + 1 = c + 1 + k * (h + 1)) → level (n + 1) = level n) ∧
      (∀ n, c + 1 ≤ n →
        level (n + (h + 1)) = ~~~level n ∧ level (n + 2 * (h + 1)) = level n) ∧
      (∀ d, 0 < d → (∀ n, c + 1 ≤ n → level (n + d) = level n) → 2 * (h + 1) ≤ d) := by
  intro s h c level
  refine ⟨twoLevels_run s₀ q₀ is, fun n hk => ?_, fun n hk => ?_,
    fun n hn => ⟨level_opposite hn, level_cycle hn⟩, fun d hd hper => cycle_minimal hd hper⟩
  · exact (level_succ s n).trans (if_pos ((counter_zero_iff s n).mpr hk))
  · exact (level_succ s n).trans (if_neg (fun hz => hk ((counter_zero_iff s n).mp hz)))

end MidiSynth.Hardware.SquareWave
