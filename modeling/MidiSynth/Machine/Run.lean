/-
MidiSynth.Machine.Run — deterministic machines driven by an input list.

A machine is a transition function `step : σ → ι → σ`. A clocked circuit is
one (the inputs are what its ports carry at each edge), and so is an event
loop (the inputs are the events). This module has the run of a machine, the
list of what it emits on the way, and the rules every safety proof is an
instance of:

  §1 `run`, `outputs` and how they append.
  §2 Invariants: `run_induct`, and `Along` for runs every step of which is
     taken from a state that meets a condition.
  §3 Two runs over the same inputs: `run_rel`, `run_rel_along`,
     `outputs_rel`, and `run_map` for a machine that keeps a record.
-/
import Mathlib.Logic.Basic

namespace MidiSynth.Machine

variable {σ τ ι ω : Type*}

/-! ## §1 Runs and outputs -/

/-- The state after a list of inputs. -/
def run (step : σ → ι → σ) (s : σ) (is : List ι) : σ := is.foldl step s

/-- What a run emits, one value an input, read off the state the input
meets. -/
def outputs (step : σ → ι → σ) (out : σ → ι → ω) : σ → List ι → List ω
  | _, [] => []
  | s, i :: is => out s i :: outputs step out (step s i) is

section Basic

variable (step : σ → ι → σ) (out : σ → ι → ω)

@[simp] theorem run_nil (s : σ) : run step s [] = s := rfl

@[simp] theorem run_cons (s : σ) (i : ι) (is : List ι) :
    run step s (i :: is) = run step (step s i) is := rfl

theorem run_append (s : σ) (is js : List ι) :
    run step s (is ++ js) = run step (run step s is) js :=
  List.foldl_append

theorem run_concat (s : σ) (is : List ι) (i : ι) :
    run step s (is ++ [i]) = step (run step s is) i :=
  run_append step s is [i]

@[simp] theorem outputs_nil (s : σ) : outputs step out s [] = [] := rfl

@[simp] theorem outputs_cons (s : σ) (i : ι) (is : List ι) :
    outputs step out s (i :: is) = out s i :: outputs step out (step s i) is := rfl

theorem outputs_append (s : σ) (is js : List ι) :
    outputs step out s (is ++ js) =
      outputs step out s is ++ outputs step out (run step s is) js := by
  induction is generalizing s with
  | nil => rfl
  | cons i is ih => simp [ih]

theorem outputs_length (s : σ) (is : List ι) :
    (outputs step out s is).length = is.length := by
  induction is generalizing s with
  | nil => rfl
  | cons i is ih => simp [ih]

end Basic

/-! ## §2 Invariants -/

/-- A property kept by every step is kept by every run. -/
theorem run_induct {step : σ → ι → σ} {P : σ → Prop}
    (hstep : ∀ s i, P s → P (step s i)) {s : σ} (hs : P s) (is : List ι) :
    P (run step s is) := by
  induction is generalizing s with
  | nil => exact hs
  | cons i is ih => exact ih (hstep s i hs)

/-- Every step of the run is taken from a state that meets the condition. -/
def Along (step : σ → ι → σ) (C : σ → ι → Prop) : σ → List ι → Prop
  | _, [] => True
  | s, i :: is => C s i ∧ Along step C (step s i) is

instance decidableAlong (step : σ → ι → σ) (C : σ → ι → Prop) [∀ s i, Decidable (C s i)] :
    ∀ (s : σ) (is : List ι), Decidable (Along step C s is)
  | _, [] => inferInstanceAs (Decidable True)
  | s, i :: is =>
    have := decidableAlong step C (step s i) is
    inferInstanceAs (Decidable (C s i ∧ Along step C (step s i) is))

theorem along_append {step : σ → ι → σ} {C : σ → ι → Prop} {s : σ} {is js : List ι} :
    Along step C s (is ++ js) ↔ Along step C s is ∧ Along step C (run step s is) js := by
  induction is generalizing s with
  | nil => exact (true_and _).symm.to_iff
  | cons i is ih =>
    rw [List.cons_append, run_cons]
    exact (and_congr_right fun _ => ih).trans and_assoc.symm

/-- The first step that misses the condition splits the run. -/
theorem exists_of_not_along {step : σ → ι → σ} {C : σ → ι → Prop} {s : σ}
    {is : List ι} (h : ¬ Along step C s is) :
    ∃ pre i post, is = pre ++ i :: post ∧ Along step C s pre ∧
      ¬ C (run step s pre) i := by
  induction is generalizing s with
  | nil => exact absurd trivial h
  | cons i is ih =>
    by_cases hC : C s i
    · obtain ⟨pre, j, post, rfl, hpre, hj⟩ := ih (s := step s i) (fun h' => h ⟨hC, h'⟩)
      exact ⟨i :: pre, j, post, rfl, ⟨hC, hpre⟩, hj⟩
    · exact ⟨[], i, is, rfl, trivial, hC⟩

/-- A property that a run ends with, and does not begin with, comes with one
of its steps. -/
theorem exists_step {step : σ → ι → σ} {F : σ → Prop} {s : σ} {is : List ι} (h0 : ¬ F s)
    (h1 : F (run step s is)) :
    ∃ pre i post, is = pre ++ i :: post ∧ ¬ F (run step s pre) ∧ F (step (run step s pre) i) := by
  induction is generalizing s with
  | nil => exact absurd h1 h0
  | cons i is ih =>
    by_cases hi : F (step s i)
    · exact ⟨[], i, is, rfl, h0, hi⟩
    · obtain ⟨pre, j, post, rfl, hpre, hj⟩ := ih hi h1
      exact ⟨i :: pre, j, post, rfl, hpre, hj⟩

/-! ## §3 Two runs over the same inputs -/

/-- Related states stay related, whatever the inputs. -/
theorem run_rel {step : σ → ι → σ} {step' : τ → ι → τ} {R : σ → τ → Prop}
    (hstep : ∀ s t i, R s t → R (step s i) (step' t i)) {s : σ} {t : τ} (h : R s t)
    (is : List ι) : R (run step s is) (run step' t is) := by
  induction is generalizing s t with
  | nil => exact h
  | cons i is ih => exact ih (hstep s t i h)

/-- Two runs stay related as long as the steps of the first meet the
condition. -/
theorem run_rel_along {step : σ → ι → σ} {step' : τ → ι → τ} {R : σ → τ → Prop}
    {C : σ → ι → Prop} (hstep : ∀ s t i, C s i → R s t → R (step s i) (step' t i))
    {s : σ} {t : τ} (h : R s t) {is : List ι} (hC : Along step C s is) :
    R (run step s is) (run step' t is) := by
  induction is generalizing s t with
  | nil => exact h
  | cons i is ih => exact ih (hstep s t i hC.1 h) hC.2

/-- Two runs that start related and emit alike from related states emit the
same list, as long as the steps of the first meet the condition. -/
theorem outputs_rel {step : σ → ι → σ} {step' : τ → ι → τ} {out : σ → ι → ω}
    {out' : τ → ι → ω} {R : σ → τ → Prop} {C : σ → ι → Prop}
    (hstep : ∀ s t i, C s i → R s t → R (step s i) (step' t i))
    (hout : ∀ s t i, C s i → R s t → out s i = out' t i) {s : σ} {t : τ} (h : R s t)
    {is : List ι} (hC : Along step C s is) :
    outputs step out s is = outputs step' out' t is := by
  induction is generalizing s t with
  | nil => rfl
  | cons i is ih =>
    rw [outputs_cons, outputs_cons, hout s t i hC.1 h, ih (hstep s t i hC.1 h) hC.2]

/-- A machine with a record kept beside its state runs as the machine does.
`f` forgets the record. -/
theorem run_map {step : σ → ι → σ} {step' : τ → ι → τ} {f : σ → τ}
    (hstep : ∀ s i, f (step s i) = step' (f s) i) (s : σ) (is : List ι) :
    f (run step s is) = run step' (f s) is := by
  refine run_rel (R := fun s t => f s = t) ?_ rfl is
  rintro s t i rfl
  exact hstep s i

theorem outputs_map {step : σ → ι → σ} {step' : τ → ι → τ} {out : τ → ι → ω} {f : σ → τ}
    (hstep : ∀ s i, f (step s i) = step' (f s) i) (s : σ) (is : List ι) :
    outputs step (fun s i => out (f s) i) s is = outputs step' out (f s) is := by
  induction is generalizing s with
  | nil => rfl
  | cons i is ih => rw [outputs_cons, outputs_cons, ih, hstep]

end MidiSynth.Machine
