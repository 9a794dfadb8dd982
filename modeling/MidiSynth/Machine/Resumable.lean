/-
MidiSynth.Machine.Resumable — parsers that are fed a piece at a time.

A receiver does not choose how its input is cut up, so a parser for it is a
step that takes what has arrived: it finishes an item and leaves the rest,
or it runs out of input and keeps what it needs in its state, or it fails.
`Continues` is the contract: more input behind what has arrived changes
neither an item that is finished nor a failure, and a step that ran out goes
on from its state as if it had never stopped.

`parse` repeats the step until the input is used up, and `parse_append` is
what the contract is for: the result does not depend on the cuts.
-/
import Mathlib.Data.List.Basic

namespace MidiSynth.Machine

variable {σ α : Type*}

/-- One call of a parser: whether an item was finished, the state, and the
input left; or a failure. -/
abbrev ParserStep (σ α : Type*) := σ → List α → Option (Bool × σ × List α)

/-- More input behind what has arrived: a finished item keeps it, a step that
ran out goes on with it. -/
def Continues (f : ParserStep σ α) : Prop :=
  ∀ s xs ys, f s (xs ++ ys) = (f s xs).bind fun r =>
    if r.1 then some (true, r.2.1, r.2.2 ++ ys) else f r.2.1 ys

/-- `f` may stop and go on, and in the states that satisfy `P` an item uses
up some of the input. -/
structure Resumable (f : ParserStep σ α) (P : σ → Prop) : Prop where
  continues : Continues f
  keeps : ∀ {s x xs done s' rest}, P s → f s (x :: xs) = some (done, s', rest) → P s'
  uses : ∀ {s x xs s' rest}, P s → f s (x :: xs) = some (true, s', rest) →
    rest.length ≤ xs.length

/-- At most `k` steps, until the input is used up. -/
def parseSteps (f : ParserStep σ α) : ℕ → σ → List α → Option σ
  | 0, s, _ => some s
  | _ + 1, s, [] => some s
  | k + 1, s, x :: xs =>
    match f s (x :: xs) with
    | none => none
    | some (false, s', _) => some s'
    | some (true, s', rest) => parseSteps f k s' rest

/-- Steps until the input is used up: every finished item uses up some. -/
def parse (f : ParserStep σ α) (s : σ) (xs : List α) : Option σ := parseSteps f xs.length s xs

section Resume

variable {f : ParserStep σ α} {P : σ → Prop}

@[simp] theorem parse_nil (s : σ) : parse f s [] = some s := rfl

/-- As many steps as there is input are enough. -/
theorem parseSteps_of_le (hf : Resumable f P) {k : ℕ} {s : σ} {xs : List α} (hs : P s)
    (hk : xs.length ≤ k) : parseSteps f k s xs = parse f s xs := by
  induction k using Nat.strongRecOn generalizing s xs with
  | ind k ih =>
    cases xs with
    | nil => cases k <;> rfl
    | cons x xs =>
      rw [List.length_cons] at hk
      obtain ⟨j, rfl⟩ : ∃ j, k = j + 1 := ⟨k - 1, by omega⟩
      rw [parse, List.length_cons, parseSteps, parseSteps]
      rcases hstep : f s (x :: xs) with _ | ⟨_ | _, s', rest⟩
      · rfl
      · rfl
      · have hs' := hf.keeps hs hstep
        have hlen := hf.uses hs hstep
        show parseSteps f j s' rest = parseSteps f xs.length s' rest
        rw [ih j (by omega) hs' (by omega)]
        rcases Nat.lt_or_ge xs.length (j + 1) with hlt | hge
        · exact (ih xs.length hlt hs' hlen).symm
        · omega

theorem parse_cons (hf : Resumable f P) {s : σ} (hs : P s) (x : α) (xs : List α) :
    parse f s (x :: xs) = match f s (x :: xs) with
      | none => none
      | some (false, s', _) => some s'
      | some (true, s', rest) => parse f s' rest := by
  rw [parse, List.length_cons, parseSteps]
  rcases hstep : f s (x :: xs) with _ | ⟨_ | _, s', rest⟩
  · rfl
  · rfl
  · exact parseSteps_of_le hf (hf.keeps hs hstep) (hf.uses hs hstep)

/-- **The result does not depend on the cuts.** -/
theorem parse_append (hf : Resumable f P) {s : σ} (hs : P s) (xs ys : List α) :
    parse f s (xs ++ ys) = (parse f s xs).bind fun s' => parse f s' ys := by
  induction hn : xs.length using Nat.strongRecOn generalizing s xs with
  | ind n ih =>
    cases xs with
    | nil => rfl
    | cons x xs =>
      have hmore := hf.continues s (x :: xs) ys
      rw [List.cons_append] at hmore
      rw [List.cons_append, parse_cons hf hs, parse_cons hf hs, hmore]
      rcases hstep : f s (x :: xs) with _ | ⟨_ | _, s', rest⟩
      · rfl
      · -- the step ran out, and goes on with `ys`
        cases ys with
        | nil =>
          rw [List.append_nil, hstep] at hmore
          rw [hmore.symm]
          rfl
        | cons y ys => exact (parse_cons hf (hf.keeps hs hstep) y ys).symm
      · have hlen := hf.uses hs hstep
        rw [List.length_cons] at hn
        exact ih rest.length (by omega) (hf.keeps hs hstep) rest rfl

theorem parse_keeps (hf : Resumable f P) {s s' : σ} (hs : P s) {xs : List α}
    (h : parse f s xs = some s') : P s' := by
  induction hn : xs.length using Nat.strongRecOn generalizing s xs with
  | ind n ih =>
    cases xs with
    | nil => exact Option.some.inj h ▸ hs
    | cons x xs =>
      rw [parse_cons hf hs] at h
      rcases hstep : f s (x :: xs) with _ | ⟨_ | _, t, rest⟩
      · rw [hstep] at h
        cases h
      · rw [hstep] at h
        obtain rfl : t = s' := Option.some.inj h
        exact hf.keeps hs hstep
      · rw [hstep] at h
        have hlen := hf.uses hs hstep
        rw [List.length_cons] at hn
        exact ih rest.length (by omega) (hf.keeps hs hstep) h rfl

/-- Pieces fed one after the other. -/
def parsePieces (f : ParserStep σ α) (s : σ) (pieces : List (List α)) : Option σ :=
  pieces.foldlM (parse f) s

/-- However the input is cut, the parser ends where it ends on the whole. -/
theorem parsePieces_eq (hf : Resumable f P) {s : σ} (hs : P s) (pieces : List (List α)) :
    parsePieces f s pieces = parse f s pieces.flatten := by
  induction pieces generalizing s with
  | nil => rfl
  | cons xs pieces ih =>
    rw [parsePieces, List.foldlM_cons, List.flatten_cons, parse_append hf hs]
    rcases h : parse f s xs with _ | s'
    · rfl
    · exact ih (parse_keeps hf hs h)

end Resume

end MidiSynth.Machine
