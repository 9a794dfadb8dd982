/-
MidiSynth.Machine.Envelope — a level that fades towards a floor, tick by
tick.

At each tick the level goes down by one while it is above the floor given
for that tick; a level found at zero ends. `Fades v floors l` says that a
level that begins at `v` is `l` after a tick for each floor, `none` if the
last of the ticks ended it: an ended level takes no more ticks.

Whatever the floors are, the level never passes below the lowest of them
(`Fades.bounds`), and under a constant floor it is known exactly, the end
included (`Fades.constant`).
-/
import Mathlib.Algebra.Ring.Nat
import Mathlib.Order.Monotone.Basic

namespace MidiSynth.Machine

/-- One tick. -/
def fade (floor level : Nat) : Option Nat :=
  if level = 0 then none
  else if floor < level then some (level - 1)
  else some level

/-- A tick for each floor. -/
inductive Fades : Nat → List Nat → Option Nat → Prop where
  | start (level : Nat) : Fades level [] (some level)
  | ended {floor level : Nat} (h : fade floor level = none) : Fades level [floor] none
  | tick {floor level next : Nat} {floors : List Nat} {last : Option Nat}
      (h : fade floor level = some next) (rest : Fades next floors last) :
      Fades level (floor :: floors) last

section Fade

variable {floor level next : Nat}

theorem eq_zero_of_fade (h : fade floor level = none) : level = 0 := by
  unfold fade at h
  split at h
  · assumption
  · split at h <;> cases h

theorem fade_cases (h : fade floor level = some next) :
    0 < level ∧ (floor < level ∧ next + 1 = level ∨ level ≤ floor ∧ next = level) := by
  unfold fade at h
  split at h
  · cases h
  · split at h
    · cases h
      omega
    · cases h
      omega

end Fade

/-- **The level stays between the lowest floor and where it began.** -/
theorem Fades.bounds {level : Nat} {floors : List Nat} {last : Option Nat}
    (h : Fades level floors last) :
    ∀ l, last = some l → floors.foldl min level ≤ l ∧ l ≤ level := by
  induction h with
  | start level =>
    rintro l ⟨⟩
    exact ⟨Nat.le_refl _, Nat.le_refl _⟩
  | ended h =>
    intro l hl
    cases hl
  | @tick floor level next floors last h rest ih =>
    intro l hl
    obtain ⟨hlow, hhigh⟩ := ih l hl
    have hstep := fade_cases h
    have hmin : ∀ b, Monotone fun a : Nat => min a b := by
      intro b x y hle
      show min x b ≤ min y b
      omega
    have hmono := List.foldl_monotone hmin floors (show min level floor ≤ next by omega)
    exact ⟨Nat.le_trans hmono hlow, by omega⟩

/-- **Under a constant floor** the level goes down by one a tick until it
meets the floor. It ends if and only if the floor, or the level it began at,
is zero, and then at the tick after the one that took it to zero. -/
theorem Fades.constant {level floor : Nat} {floors : List Nat} {last : Option Nat}
    (h : Fades level floors last) (hfloor : ∀ x ∈ floors, x = floor) :
    (∀ l, last = some l → l = max (level - floors.length) (min level floor)) ∧
      (last = none ↔ min level floor = 0 ∧ floors.length = level + 1) ∧
      (min level floor = 0 → floors.length ≤ level + 1) := by
  induction h with
  | start level =>
    rw [List.length_nil]
    refine ⟨?_, by simp, by omega⟩
    rintro l ⟨⟩
    omega
  | @ended x level h =>
    have hzero := eq_zero_of_fade h
    refine ⟨?_, by simp [hzero], by simp [hzero]⟩
    intro l hl
    cases hl
  | @tick x level next floors last h rest ih =>
    have hx : x = floor := hfloor x List.mem_cons_self
    obtain ⟨hlevel, hend, hshort⟩ := ih (fun y hy => hfloor y (List.mem_cons_of_mem x hy))
    have hstep := fade_cases h
    rw [List.length_cons]
    refine ⟨fun l hl => ?_, ?_, by omega⟩
    · have hl' := hlevel l hl
      omega
    · rw [hend]
      omega

end MidiSynth.Machine
