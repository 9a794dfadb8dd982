/-
MidiSynth.Machine.Channel — machines that pass items on.

A driver takes items from one side, holds some of them, and gives items to
the other side. `Conserves` is the law of a first-in-first-out channel for
one step: what is given, followed by what is still held, is what was held
followed by what was taken. Over a run the same equation holds of everything
given and everything taken (`run_conserves`), so nothing is lost, doubled or
reordered; what is not given yet is held.

`run_feeds` is the other half of a refinement: a machine whose every step
makes a second machine take the items it gives.
-/
import MidiSynth.Machine.Run

namespace MidiSynth.Machine

variable {σ τ ι κ : Type*}

/-- The items of a run, step by step, as one list. -/
def collect (step : σ → ι → σ) (out : σ → ι → List κ) (s : σ) (is : List ι) : List κ :=
  (outputs step out s is).flatten

section Collect

variable (step : σ → ι → σ) (out : σ → ι → List κ)

@[simp] theorem collect_nil (s : σ) : collect step out s [] = [] := rfl

@[simp] theorem collect_cons (s : σ) (i : ι) (is : List ι) :
    collect step out s (i :: is) = out s i ++ collect step out (step s i) is := rfl

end Collect

/-- One step of a first-in-first-out channel. -/
def Conserves (held : σ → List κ) (taken given : σ → ι → List κ) (step : σ → ι → σ) (s : σ)
    (i : ι) : Prop :=
  given s i ++ held (step s i) = held s ++ taken s i

/-- A channel over a run: everything given, then what is held, is what was
held at first, then everything taken. -/
theorem run_conserves {step : σ → ι → σ} {held : σ → List κ} {taken given : σ → ι → List κ}
    {s : σ} {is : List ι} (h : Along step (Conserves held taken given step) s is) :
    collect step given s is ++ held (run step s is) = held s ++ collect step taken s is := by
  induction is generalizing s with
  | nil => simp
  | cons i is ih =>
    obtain ⟨hi, his⟩ := h
    calc collect step given s (i :: is) ++ held (run step s (i :: is))
        = given s i ++ (collect step given (step s i) is ++ held (run step (step s i) is)) := by
          rw [collect_cons, run_cons, List.append_assoc]
      _ = given s i ++ (held (step s i) ++ collect step taken (step s i) is) := by rw [ih his]
      _ = held s ++ taken s i ++ collect step taken (step s i) is := by
          rw [← List.append_assoc, hi]
      _ = held s ++ collect step taken s (i :: is) := by rw [collect_cons, List.append_assoc]

/-- A machine that feeds another: every step makes the second machine take
the items the first one gives. -/
theorem run_feeds {step : σ → ι → σ} {given : σ → ι → List κ} {step' : τ → κ → τ} {f : σ → τ}
    {s : σ} {is : List ι}
    (h : Along step (fun s i => f (step s i) = run step' (f s) (given s i)) s is) :
    f (run step s is) = run step' (f s) (collect step given s is) := by
  induction is generalizing s with
  | nil => rfl
  | cons i is ih =>
    obtain ⟨hi, his⟩ := h
    rw [run_cons, ih his, hi, collect_cons, run_append]

end MidiSynth.Machine
