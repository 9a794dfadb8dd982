/-
MidiSynth.Machine.Memory — arrays whose accesses are checked.

A C array of `n` elements is a `List.Vector α n`: its length is part of the
type and no operation can change it. `load` and `store` are `a[i]` and
`a[i] = x`, and `fill` is `memcpy` to the start of the array. An access
outside the array has no value (`none`), so "this function returns
`some …`" says that no access of it leaves the array.

The lemmas read an array through `toList`: a load at `i` is the head of
what is left after dropping `i` elements. Two relations speak of a function
made of such accesses, and each is put together along its text: `Gives` of
what it gives when it stays inside, `Accounts` of the calls at which it does
not.
-/
import Mathlib.Data.Vector.Basic

namespace MidiSynth.Machine

variable {α : Type*} {n : ℕ}

/-! ## The operations -/

/-- `a[i]`. -/
def load (a : List.Vector α n) (i : ℕ) : Option α := a.toList[i]?

/-- `a[i] = x`. -/
def store (a : List.Vector α n) (i : ℕ) (x : α) : Option (List.Vector α n) :=
  if i < n then some ⟨a.toList.set i x, by simp⟩ else none

/-- Copies `xs` to the start of the array. -/
def fill (a : List.Vector α n) (xs : List α) : Option (List.Vector α n) :=
  if h : xs.length ≤ n then
    some ⟨xs ++ a.toList.drop xs.length, by simp; omega⟩
  else none

/-! ## What they do to the list of elements -/

theorem load_eq_head? (a : List.Vector α n) (i : ℕ) : load a i = (a.toList.drop i).head? := by
  rw [load, List.head?_drop]

theorem load_of_drop {a : List.Vector α n} {i : ℕ} {x : α} {xs : List α}
    (h : a.toList.drop i = x :: xs) : load a i = some x := by
  rw [load_eq_head?, h]
  rfl

/-- The element after the one at `i`. -/
theorem drop_succ_of_drop {l : List α} {i : ℕ} {x : α} {xs : List α} (h : l.drop i = x :: xs) :
    l.drop (i + 1) = xs := by
  rw [← List.drop_drop, h]
  rfl

theorem store_of_lt (a : List.Vector α n) {i : ℕ} (h : i < n) (x : α) :
    ∃ a', store a i x = some a' ∧ a'.toList = a.toList.set i x :=
  ⟨⟨a.toList.set i x, by simp⟩, if_pos h, rfl⟩

theorem fill_of_le {xs : List α} (h : xs.length ≤ n) (a : List.Vector α n) :
    ∃ a', fill a xs = some a' ∧ a'.toList = xs ++ a.toList.drop xs.length :=
  ⟨⟨xs ++ a.toList.drop xs.length, by simp; omega⟩, dif_pos h, rfl⟩

theorem store_eq_none_iff {a : List.Vector α n} {i : ℕ} {x : α} :
    store a i x = none ↔ n ≤ i := by
  rw [store]
  split <;> simp <;> omega

/-! ## Consecutive elements -/

/-- `a[i], a[i+1], …`: `k` loads, or none if one of them leaves the array. -/
def loads (a : List.Vector α n) (i : ℕ) : ℕ → Option (List α)
  | 0 => some []
  | k + 1 => do
    let x ← load a i
    let xs ← loads a (i + 1) k
    return x :: xs

/-- Consecutive stores from `i` on. -/
def stores (a : List.Vector α n) (i : ℕ) : List α → Option (List.Vector α n)
  | [] => some a
  | x :: xs => do
    let a ← store a i x
    stores a (i + 1) xs

theorem loads_of_le (a : List.Vector α n) {i k : ℕ} (h : i + k ≤ n) :
    loads a i k = some ((a.toList.drop i).take k) := by
  induction k generalizing i with
  | zero => simp [loads]
  | succ k ih =>
    have hi : i < a.toList.length := by rw [List.Vector.toList_length]; omega
    rw [loads, load, List.getElem?_eq_getElem hi, ih (by omega), List.drop_eq_getElem_cons hi]
    rfl

theorem stores_of_le (a : List.Vector α n) {i : ℕ} {xs : List α} (h : i + xs.length ≤ n) :
    ∃ a', stores a i xs = some a' ∧
      a'.toList = a.toList.take i ++ xs ++ a.toList.drop (i + xs.length) := by
  induction xs generalizing a i with
  | nil => exact ⟨a, rfl, by simp⟩
  | cons x xs ih =>
    rw [List.length_cons] at h
    obtain ⟨a₁, hstore, h₁⟩ := store_of_lt a (i := i) (by omega) x
    obtain ⟨a₂, hstores, h₂⟩ := ih a₁ (i := i + 1) (by omega)
    have hlen : i < a.toList.length := by rw [List.Vector.toList_length]; omega
    refine ⟨a₂, by rw [stores, hstore]; exact hstores, ?_⟩
    have hi : (a.toList.take i).length = i := List.length_take_of_le hlen.le
    have htake : (a.toList.set i x).take (i + 1) = a.toList.take i ++ [x] := by
      rw [List.take_set, List.take_succ_eq_append_getElem hlen, List.set_append_right _ _ hi.le, hi,
        Nat.sub_self]
      rfl
    have hdrop : (a.toList.set i x).drop (i + 1 + xs.length)
        = a.toList.drop (i + (xs.length + 1)) := by
      rw [List.drop_set_of_lt (by omega), Nat.add_assoc, Nat.add_comm 1]
    rw [h₂, h₁, htake, hdrop, List.append_assoc (a.toList.take i)]
    rfl

/-- Consecutive stores leave the array when the last of them does. -/
theorem stores_eq_none (a : List.Vector α n) {i : ℕ} {xs : List α} (hi : i ≤ n)
    (h : n < i + xs.length) : stores a i xs = none := by
  induction xs generalizing a i with
  | nil => exact absurd h (Nat.not_lt.mpr hi)
  | cons x xs ih =>
    rw [stores]
    rcases hs : store a i x with _ | a'
    · rfl
    · have hlt : i < n := Nat.not_le.mp fun hle => by
        rw [store_eq_none_iff.mpr hle] at hs
        cases hs
      rw [List.length_cons] at h
      exact ih a' hlt (by omega)

/-! ## What a function gives

`Gives x P` says nothing about a function that leaves an array; of one that
does not, it says that the result has `P`. -/

section Gives

variable {β γ : Type} {P : β → Prop} {Q : γ → Prop}

def Gives (x : Option β) (P : β → Prop) : Prop := ∀ b, x = some b → P b

theorem Gives.pure {b : β} (h : P b) : Gives (some b) P := by
  rintro _ ⟨⟩
  exact h

theorem Gives.bind {x : Option β} {f : β → Option γ} (hx : Gives x P)
    (hf : ∀ b, P b → Gives (f b) Q) : Gives (x >>= f) Q := by
  intro c hc
  obtain ⟨b, hb, hc⟩ := Option.bind_eq_some_iff.mp hc
  exact hf b (hx b hb) c hc

/-- Nothing is asked of what comes before. -/
theorem Gives.after {x : Option β} {f : β → Option γ} (hf : ∀ b, Gives (f b) Q) :
    Gives (x >>= f) Q :=
  Gives.bind (P := fun _ => True) (fun _ _ => trivial) fun b _ => hf b

theorem Gives.ite {c : Prop} [Decidable c] {x y : Option β} (hx : c → Gives x P)
    (hy : ¬ c → Gives y P) : Gives (if c then x else y) P := by
  split
  · exact hx ‹_›
  · exact hy ‹_›

end Gives

/-! ## Which call leaves an array

A function that may leave an array calls others that may. Beside it goes the
list of its calls, as far as they get, and `Accounts` says that the list is
complete: the function has no fault of its own. -/

section Accounts

variable {β γ : Type} {κ : Type*} {F : κ → Prop}

/-- The calls that come after `x`, if it comes to a result. -/
def after (x : Option β) (cs : β → List κ) : List κ :=
  match x with
  | none => []
  | some b => cs b

/-- Some access of `x` leaves an array if, and only if, one of the calls `cs`
is one that does. -/
def Accounts (F : κ → Prop) (x : Option β) (cs : List κ) : Prop := x = none ↔ ∃ c ∈ cs, F c

theorem Accounts.pure (b : β) : Accounts F (some b) [] := iff_of_false nofun (by simp)

theorem Accounts.call {x : Option β} {c : κ} (h : F c ↔ x = none) : Accounts F x [c] := by
  rw [Accounts, List.exists_mem_cons_iff, h]
  simp

/-- What comes before accounts for its own part. -/
theorem Accounts.bind {x : Option β} {f : β → Option γ} {cs : List κ} {ds : β → List κ}
    (hx : Accounts F x cs) (hf : ∀ b, Accounts F (f b) (ds b)) :
    Accounts F (x >>= f) (cs ++ after x ds) := by
  cases x with
  | none =>
    obtain ⟨c, hc, hfault⟩ := hx.mp rfl
    exact iff_of_true rfl ⟨c, List.mem_append_left _ hc, hfault⟩
  | some b =>
    have hinside : ¬ ∃ c ∈ cs, F c := fun h => absurd (hx.mpr h) nofun
    refine (hf b).trans ⟨fun ⟨c, hc, hfault⟩ => ⟨c, List.mem_append_right cs hc, hfault⟩, ?_⟩
    rintro ⟨c, hc, hfault⟩
    exact ⟨c, (List.mem_append.mp hc).resolve_left fun hc => hinside ⟨c, hc, hfault⟩, hfault⟩

/-- What comes after stays inside. -/
theorem Accounts.bind_isSome {x : Option β} {f : β → Option γ} {cs : List κ}
    (hx : Accounts F x cs) (hf : ∀ b, ∃ c, f b = some c) : Accounts F (x >>= f) cs := by
  refine Iff.trans ?_ hx
  cases x with
  | none => exact iff_of_true rfl rfl
  | some b =>
    obtain ⟨c, hc⟩ := hf b
    exact iff_of_false (fun h => absurd (hc.symm.trans h) nofun) nofun

/-- What comes before stays inside. -/
theorem Accounts.bind_some {x : Option β} (hx : ∃ b, x = some b) {f : β → Option γ}
    {ds : β → List κ} (hf : ∀ b, Accounts F (f b) (ds b)) : Accounts F (x >>= f) (after x ds) := by
  obtain ⟨b, rfl⟩ := hx
  exact hf b

theorem Accounts.ite {c : Prop} [Decidable c] {x y : Option β} {cs ds : List κ}
    (hx : Accounts F x cs) (hy : Accounts F y ds) :
    Accounts F (if c then x else y) (if c then cs else ds) := by
  split
  · exact hx
  · exact hy

end Accounts

/-! ## Reading back -/

theorem get_of_getElem? {a : List.Vector α n} {i : Fin n} {x : α} (h : a.toList[i.val]? = some x) :
    a.get i = x := by
  obtain ⟨_, hx⟩ := List.getElem?_eq_some_iff.mp h
  exact hx

end MidiSynth.Machine
