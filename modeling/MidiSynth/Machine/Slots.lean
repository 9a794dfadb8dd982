/-
MidiSynth.Machine.Slots — fixed pools of slots: first-fit claiming,
first-match releasing, and counting occupants.

A loop `for (i = 0; i < n; i++) if (p(i)) { …; break; }` acts on the first
index that satisfies `p`; `first` is that index. A `Pool n α` is `n` slots,
each empty or holding one occupant. The operations are the ones such loops
implement on a table of slots:

* `claim a` puts `a` in the first empty slot, and drops it when there is
  none;
* `release p` empties the first slot whose occupant satisfies `p`;
* `sweep f` passes every occupant through `f`, which may end it;
* `clear` empties the pool.

`count p` is the number of occupants that satisfy `p`. The four lemmas
`count_claim_le`, `count_release`, `count_sweep_le` and `count_clear` are
all a counting argument over a run needs.

`foldl_pointwise` and `foldl_emit_pointwise` are the loop rules for a pass
whose i-th round reads and writes the i-th entry of a table and nothing
else.
-/
import Mathlib.Algebra.BigOperators.Group.Finset.Piecewise
import Mathlib.Algebra.Order.BigOperators.Group.Finset
import Mathlib.Data.Fin.Basic
import Mathlib.Data.Fintype.Basic
import Mathlib.Algebra.Order.Group.Nat

namespace MidiSynth.Machine

variable {n : Nat} {α : Type*}

/-! ## The scan -/

/-- The first index satisfying `p`: where a scan with `break` stops. -/
def first (p : Fin n → Bool) : Option (Fin n) := (List.finRange n).find? p

theorem first_eq_some_iff {p : Fin n → Bool} {i : Fin n} :
    first p = some i ↔ p i = true ∧ ∀ j < i, p j = false := by
  rw [first, ← Fin.find?_eq_find?_finRange, Fin.find?_eq_some_iff]

theorem first_eq_none_iff {p : Fin n → Bool} :
    first p = none ↔ ∀ i, p i = false := by
  rw [first, ← Fin.find?_eq_find?_finRange, Fin.find?_eq_none_iff]

/-- A scan is decided by where its predicate holds. -/
theorem first_congr {p q : Fin n → Bool} (h : ∀ i, p i = q i) : first p = first q := by
  rw [funext h]

/-! ## Tables -/

/-- Two tables related entry by entry stay so when one entry of each is
rewritten. -/
theorem forall_update {ι α β : Type*} [DecidableEq ι] {R : α → β → Prop} {f : ι → α}
    {g : ι → β} (h : ∀ j, R (f j) (g j)) {a : α} {b : β} (hab : R a b) (i : ι) :
    ∀ j, R (Function.update f i a j) (Function.update g i b j) := by
  intro j
  by_cases hj : j = i
  · subst hj
    rwa [Function.update_self, Function.update_self]
  · rw [Function.update_of_ne hj, Function.update_of_ne hj]
    exact h j

/-- A pass over distinct indices whose i-th round changes the i-th entry by
`g i`, and no other entry, changes every entry it visits by its own `g`.
`P` is what the rounds keep and the entries' changes depend on. -/
theorem foldl_pointwise {σ ι β : Type*} {f : σ → ι → σ} (view : σ → ι → β)
    {P : σ → Prop} {g : ι → β → β} (hP : ∀ s i, P s → P (f s i))
    (hself : ∀ s i, P s → view (f s i) i = g i (view s i))
    (hother : ∀ s i j, j ≠ i → view (f s i) j = view s j) :
    ∀ {is : List ι}, is.Nodup → ∀ {s : σ}, P s → ∀ j ∈ is,
      view (is.foldl f s) j = g j (view s j) := by
  have hskip : ∀ (is : List ι) (s : σ) (j : ι), j ∉ is →
      view (is.foldl f s) j = view s j := by
    intro is
    induction is with
    | nil => intro s j _; rfl
    | cons i is ih =>
      intro s j hj
      rw [List.mem_cons, not_or] at hj
      rw [List.foldl_cons, ih _ _ hj.2, hother s i j hj.1]
  intro is
  induction is with
  | nil => intro _ s _ j hj; cases hj
  | cons i is ih =>
    intro hnd s hs j hj
    rw [List.nodup_cons] at hnd
    rw [List.foldl_cons]
    rcases List.mem_cons.mp hj with rfl | hj'
    · rw [hskip _ _ _ hnd.1, hself s j hs]
    · have hne : j ≠ i := fun h => hnd.1 (h ▸ hj')
      rw [ih hnd.2 (hP s i hs) j hj', hother s i j hne]

/-- What such a pass emits: each round's output is read off its own entry as
the pass found it. -/
theorem foldl_emit_pointwise {σ ι β ω : Type*} {f : σ → ι → σ × List ω}
    (view : σ → ι → β) {P : σ → Prop} {w : ι → β → List ω}
    (hP : ∀ s i, P s → P (f s i).1)
    (hself : ∀ s i, P s → (f s i).2 = w i (view s i))
    (hother : ∀ s i j, j ≠ i → view (f s i).1 j = view s j) :
    ∀ {is : List ι}, is.Nodup → ∀ {s : σ} {acc : List ω}, P s →
      (is.foldl (fun a i => ((f a.1 i).1, a.2 ++ (f a.1 i).2)) (s, acc)).2
        = acc ++ is.flatMap (fun i => w i (view s i)) := by
  intro is
  induction is with
  | nil => intro _ s acc _; simp
  | cons i is ih =>
    intro hnd s acc hs
    rw [List.nodup_cons] at hnd
    have hview : is.flatMap (fun j => w j (view (f s i).1 j))
        = is.flatMap (fun j => w j (view s j)) := by
      refine List.flatMap_congr (fun j hj => ?_)
      have hne : j ≠ i := fun h => hnd.1 (h ▸ hj)
      rw [hother s i j hne]
    rw [List.foldl_cons, ih hnd.2 (hP s i hs), hview, hself s i hs, List.flatMap_cons,
      List.append_assoc]

/-! ## Pools -/

/-- `n` slots, each empty or holding one occupant. -/
abbrev Pool (n : Nat) (α : Type*) := Fin n → Option α

namespace Pool

/-- Put an occupant in the first empty slot, if there is one. -/
def claim (pool : Pool n α) (a : α) : Pool n α :=
  match first (fun i => (pool i).isNone) with
  | none => pool
  | some i => Function.update pool i (some a)

/-- Empty the first slot whose occupant satisfies `p`. -/
def release (pool : Pool n α) (p : α → Bool) : Pool n α :=
  match first (fun i => (pool i).any p) with
  | none => pool
  | some i => Function.update pool i none

/-- Pass every occupant through its slot's `f`. -/
def sweep (pool : Pool n α) (f : Fin n → α → Option α) : Pool n α :=
  fun i => (pool i).bind (f i)

def clear : Pool n α := fun _ => none

/-- A claim finds the pool full, or fills its first empty slot. -/
theorem claim_cases (pool : Pool n α) (a : α) :
    ((∀ i, pool i ≠ none) ∧ pool.claim a = pool) ∨
      (∃ i, pool i = none ∧ (∀ j < i, pool j ≠ none) ∧
        pool.claim a = Function.update pool i (some a)) := by
  unfold claim
  cases h : first (fun i => (pool i).isNone) with
  | none =>
    rw [first_eq_none_iff] at h
    exact Or.inl ⟨fun i hi => by simpa [hi] using h i, rfl⟩
  | some i =>
    rw [first_eq_some_iff] at h
    exact Or.inr ⟨i, Option.isNone_iff_eq_none.mp h.1,
      fun j hj hnone => by simpa [hnone] using h.2 j hj, rfl⟩

/-- A release finds no match, or empties the first matching slot. -/
theorem release_cases (pool : Pool n α) (p : α → Bool) :
    ((∀ i, (pool i).any p = false) ∧ pool.release p = pool) ∨
      (∃ i a, pool i = some a ∧ p a = true ∧ (∀ j < i, (pool j).any p = false) ∧
        pool.release p = Function.update pool i none) := by
  unfold release
  cases h : first (fun i => (pool i).any p) with
  | none => exact Or.inl ⟨first_eq_none_iff.mp h, rfl⟩
  | some i =>
    rw [first_eq_some_iff] at h
    obtain ⟨a, ha, hp⟩ := (Option.any_eq_true _ _).mp h.1
    exact Or.inr ⟨i, a, ha, hp, h.2, rfl⟩

/-- How many occupants satisfy `p`. -/
def count (pool : Pool n α) (p : α → Bool) : Nat :=
  ∑ i, if (pool i).any p then 1 else 0

/-- Rewriting one slot moves the count by that slot's share. -/
theorem count_update (pool : Pool n α) (p : α → Bool) (i : Fin n) (o : Option α) :
    count (Function.update pool i o) p + (if (pool i).any p then 1 else 0)
      = count pool p + (if o.any p then 1 else 0) := by
  have hfun : (fun j => if (Function.update pool i o j).any p then 1 else 0)
      = Function.update (fun j => if (pool j).any p then (1 : Nat) else 0) i
          (if o.any p then 1 else 0) := by
    refine Function.eq_update_iff.mpr ⟨by simp, fun j hj => ?_⟩
    simp [hj]
  have hsplit := Finset.sum_erase_add Finset.univ
    (fun j => if (pool j).any p then (1 : Nat) else 0) (Finset.mem_univ i)
  rw [count, count, hfun, Finset.sum_update_of_mem (Finset.mem_univ i),
    Finset.sdiff_singleton_eq_erase, ← hsplit]
  omega

/-- A claim adds at most its own occupant. -/
theorem count_claim_le (pool : Pool n α) (p : α → Bool) (a : α) :
    count (pool.claim a) p ≤ count pool p + (if p a then 1 else 0) := by
  rcases claim_cases pool a with ⟨-, h⟩ | ⟨i, -, -, h⟩
  · rw [h]
    exact Nat.le_add_right _ _
  · have hu := count_update pool p i (some a)
    rw [Option.any_some, ← h] at hu
    omega

/-- A release removes exactly one matching occupant, if there is one. -/
theorem count_release (pool : Pool n α) (p : α → Bool) :
    count (pool.release p) p = count pool p - 1 := by
  rcases release_cases pool p with ⟨hnone, h⟩ | ⟨i, a, ha, hp, -, h⟩
  · have hzero : count pool p = 0 := by simp [count, hnone]
    rw [h, hzero]
  · have hu := count_update pool p i none
    rw [← h, ha, Option.any_some, hp, if_pos rfl] at hu
    simp only [Option.any_none, Bool.false_eq_true, if_false] at hu
    omega

/-- A release never adds a matching occupant, whatever it looks for. -/
theorem count_release_le (pool : Pool n α) (p q : α → Bool) :
    count (pool.release q) p ≤ count pool p := by
  rcases release_cases pool q with ⟨-, h⟩ | ⟨i, a, -, -, -, h⟩
  · rw [h]
  · have hu := count_update pool p i none
    rw [← h] at hu
    simp only [Option.any_none, Bool.false_eq_true, if_false] at hu
    omega

/-- A sweep under which survivors keep failing `p` adds nothing to the
count. -/
theorem count_sweep_le (pool : Pool n α) (p : α → Bool) (f : Fin n → α → Option α)
    (hf : ∀ i a b, f i a = some b → p b = true → p a = true) :
    count (pool.sweep f) p ≤ count pool p := by
  refine Finset.sum_le_sum (fun i _ => ?_)
  have himp : (pool.sweep f i).any p = true → (pool i).any p = true := by
    intro h
    obtain ⟨b, hb, hpb⟩ := (Option.any_eq_true _ _).mp h
    obtain ⟨a, ha, hab⟩ := Option.bind_eq_some_iff.mp hb
    exact (Option.any_eq_true _ _).mpr ⟨a, ha, hf i a b hab hpb⟩
  by_cases h : (pool.sweep f i).any p = true
  · rw [if_pos h, if_pos (himp h)]
  · rw [if_neg h]
    exact Nat.zero_le _

@[simp] theorem count_clear (p : α → Bool) : count (clear : Pool n α) p = 0 := by
  simp [count, clear]

end Pool

end MidiSynth.Machine
