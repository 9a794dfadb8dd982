/-
MidiSynth.Machine.Progress — what a machine that may fail gets to, under a
fair environment.

The inputs are an infinite sequence. `trace` is the state after the first of
them, `LeadsTo P Q` says that whenever the trace is in `P` it is in `Q` then
or later. A machine that waits in `P` for an input of some kind, and goes on
to `Q` with it, gets there if inputs of that kind keep coming
(`leadsTo_of_fair`); waits one after the other are composed by
`LeadsTo.trans`.
-/
import Mathlib.Order.Basic

namespace MidiSynth.Machine

variable {σ ι : Type*}

/-- The state after the first `k` inputs, if no step has failed. -/
def trace (step : σ → ι → Option σ) (s : σ) (is : ℕ → ι) : ℕ → Option σ
  | 0 => some s
  | k + 1 => (trace step s is k).bind fun t => step t (is k)

section LeadsTo

variable {step : σ → ι → Option σ} {s : σ} {is : ℕ → ι} {P Q R : σ → Prop}

theorem trace_succ {k : ℕ} {t t' : σ} (h : trace step s is k = some t)
    (hstep : step t (is k) = some t') : trace step s is (k + 1) = some t' := by
  rw [trace, h]
  exact hstep

/-- From `P` the trace comes to `Q`. -/
def LeadsTo (step : σ → ι → Option σ) (s : σ) (is : ℕ → ι) (P Q : σ → Prop) : Prop :=
  ∀ k t, trace step s is k = some t → P t →
    ∃ j t', k ≤ j ∧ trace step s is j = some t' ∧ Q t'

theorem LeadsTo.trans (hPQ : LeadsTo step s is P Q) (hQR : LeadsTo step s is Q R) :
    LeadsTo step s is P R := by
  intro k t ht hP
  obtain ⟨j, t', hkj, ht', hQ⟩ := hPQ k t ht hP
  obtain ⟨l, t'', hjl, ht'', hR⟩ := hQR j t' ht' hQ
  exact ⟨l, t'', Nat.le_trans hkj hjl, ht'', hR⟩

theorem LeadsTo.refl : LeadsTo step s is P P := by
  intro k t ht hP
  exact ⟨k, t, Nat.le_refl k, ht, hP⟩

theorem LeadsTo.or (hPR : LeadsTo step s is P R) (hQR : LeadsTo step s is Q R) :
    LeadsTo step s is (fun t => P t ∨ Q t) R := by
  intro k t ht hPQ
  rcases hPQ with hP | hQ
  · exact hPR k t ht hP
  · exact hQR k t ht hQ

/-- Whatever the value of a parameter is, as with a deadline that was set on the
way. -/
theorem LeadsTo.exists {α : Type*} {P : α → σ → Prop} (h : ∀ a, LeadsTo step s is (P a) Q) :
    LeadsTo step s is (fun t => ∃ a, P a t) Q := by
  intro k t ht hP
  obtain ⟨a, hP⟩ := hP
  exact h a k t ht hP

/-- **Waiting**: in `P` every step stays in `P` or comes to `Q`, a step with an
input of kind `G` comes to `Q`, and inputs of that kind keep coming. -/
theorem leadsTo_of_fair {G : ι → Prop}
    (hstay : ∀ k t, P t → ∃ t', step t (is k) = some t' ∧ (P t' ∨ Q t'))
    (hfire : ∀ k t, P t → G (is k) → ∃ t', step t (is k) = some t' ∧ Q t')
    (hfair : ∀ k, ∃ j, k ≤ j ∧ G (is j)) : LeadsTo step s is P Q := by
  intro k t ht hP
  obtain ⟨j, hkj, hG⟩ := hfair k
  -- up to the input of kind `G`, the trace stays in `P` or has come to `Q`
  have hwait : ∀ d, (∃ j t', k ≤ j ∧ trace step s is j = some t' ∧ Q t') ∨
      ∃ t', trace step s is (k + d) = some t' ∧ P t' := by
    intro d
    induction d with
    | zero => exact Or.inr ⟨t, ht, hP⟩
    | succ d ih =>
      rcases ih with hdone | ⟨t', ht', hP'⟩
      · exact Or.inl hdone
      · obtain ⟨t'', hstep, hnext⟩ := hstay (k + d) t' hP'
        have htrace := trace_succ ht' hstep
        rcases hnext with hP'' | hQ
        · exact Or.inr ⟨t'', htrace, hP''⟩
        · exact Or.inl ⟨k + d + 1, t'', by omega, htrace, hQ⟩
  rcases hwait (j - k) with hdone | ⟨t', ht', hP'⟩
  · exact hdone
  · rw [Nat.add_sub_cancel' hkj] at ht'
    obtain ⟨t'', hstep, hQ⟩ := hfire j t' hP' hG
    exact ⟨j + 1, t'', by omega, trace_succ ht' hstep, hQ⟩

/-- A step that any input makes. -/
theorem leadsTo_of_step (hstep : ∀ k t, P t → ∃ t', step t (is k) = some t' ∧ Q t') :
    LeadsTo step s is P Q := by
  intro k t ht hP
  obtain ⟨t', hstep, hQ⟩ := hstep k t hP
  exact ⟨k + 1, t', Nat.le_succ k, trace_succ ht hstep, hQ⟩

/-- A state that every input leaves alone is kept. -/
theorem trace_of_fixed {t : σ} {k : ℕ} (ht : trace step s is k = some t)
    (hfixed : ∀ j, step t (is j) = some t) {j : ℕ} (hkj : k ≤ j) : trace step s is j = some t := by
  induction hkj with
  | refl => exact ht
  | step _ ih => exact trace_succ ih (hfixed _)

end LeadsTo

end MidiSynth.Machine
