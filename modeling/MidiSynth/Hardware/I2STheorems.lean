/-
MidiSynth.Hardware.I2STheorems — what the codec receives on each channel.

A half-frame sends the register that the half-frame before it loaded. A
right word is therefore `data_in`, and a left word is `data_in[23]`
zero-extended: 23 zeros and then the sign bit. `both_channels_carry_iff`
says when a sequence of half-frames nevertheless carries the sample in
every word: the sample is 0, or no left word is in the sequence.

The right channel is exact even while `data_in` changes at every edge
(`right_word_round_trip`): the word is the one at the last edge before it.
-/
import MidiSynth.Hardware.I2S

namespace MidiSynth.Hardware.I2S

open MidiSynth.Machine MidiSynth.Verilog

/-! ## §1 One edge -/

theorem step_high (s : State) (d : BitVec 24) :
    step s ⟨true, d⟩ =
      { left := (d.extractLsb' 23 1).setWidth 24, right := s.right <<< 1,
        sdata := s.right.msb } := by
  simp only [step, if_true, shiftedUp_eq, BitVec.msb_eq_getLsbD_last]

theorem step_low (s : State) (d : BitVec 24) :
    step s ⟨false, d⟩ = { left := s.left <<< 1, right := d, sdata := s.left.msb } := by
  simp only [step, Bool.false_eq_true, if_false, shiftedUp_eq, BitVec.msb_eq_getLsbD_last]

/-! ## §2 One half-frame -/

/-- While LRCLK is high the right register goes out, whatever `data_in`
does. -/
theorem bits_high {es : List Edge} (h : ∀ e ∈ es, e.lrclk = true) (s : State) :
    bits s es = wire s.right es.length := by
  refine outputs_shifting State.right (fun e he t => ?_) s
  obtain ⟨lrclk, d⟩ := e
  obtain rfl : lrclk = true := h _ he
  rw [step_high]
  exact ⟨rfl, rfl⟩

theorem bits_low {es : List Edge} (h : ∀ e ∈ es, e.lrclk = false) (s : State) :
    bits s es = wire s.left es.length := by
  refine outputs_shifting State.left (fun e he t => ?_) s
  obtain ⟨lrclk, d⟩ := e
  obtain rfl : lrclk = false := h _ he
  rw [step_low]
  exact ⟨rfl, rfl⟩

/-- The register a half-frame ends up having loaded, by its last edge. -/
def loaded (e : Edge) (s : State) : BitVec 24 := if e.lrclk then s.left else s.right

/-- What an edge loads. -/
def load (e : Edge) : BitVec 24 :=
  if e.lrclk then (e.dataIn.extractLsb' 23 1).setWidth 24 else e.dataIn

theorem loaded_run (s : State) (es : List Edge) (e : Edge) :
    loaded e (run step s (es ++ [e])) = load e := by
  obtain ⟨lrclk, d⟩ := e
  rw [run_concat]
  cases lrclk with
  | false => rw [step_low]; rfl
  | true => rw [step_high]; rfl

/-! ## §3 Sequences of half-frames -/

section Frames

variable {d : BitVec 24}

theorem HalfFrame.inputs_eq_concat (f : HalfFrame) :
    f.inputs d = List.replicate (f.edges - 1) ⟨f.lrclk, d⟩ ++ [⟨f.lrclk, d⟩] := by
  have hlong := f.long
  have hedges : f.edges = (f.edges - 1) + 1 := by omega
  rw [HalfFrame.inputs, hedges, List.replicate_succ']
  rfl

theorem HalfFrame.lrclk_of_mem {f : HalfFrame} {e : Edge} (h : e ∈ f.inputs d) :
    e.lrclk = f.lrclk := by
  obtain ⟨-, rfl⟩ := List.mem_replicate.mp h
  rfl

theorem opposite {x y c : Bool} (h : x ≠ y) (hx : x = c) : y = !c := by
  cases x <;> cases y <;> cases c <;> simp_all

/-- The word of half-frame `b` directly after the opposite half-frame `a`. -/
theorem bits_after {a b : HalfFrame} (hab : a.lrclk ≠ b.lrclk) (s : State)
    (pre : List HalfFrame) :
    bits (run step s (inputs d (pre ++ [a]))) (b.inputs d)
      = wire (load ⟨a.lrclk, d⟩) b.edges := by
  have hlen : (b.inputs d).length = b.edges := List.length_replicate
  have hin : inputs d (pre ++ [a]) =
      (inputs d pre ++ List.replicate (a.edges - 1) ⟨a.lrclk, d⟩) ++ [⟨a.lrclk, d⟩] := by
    rw [inputs, List.flatMap_append, List.flatMap_singleton, a.inputs_eq_concat,
      List.append_assoc]
    rfl
  have hload := loaded_run s (inputs d pre ++ List.replicate (a.edges - 1) ⟨a.lrclk, d⟩)
    ⟨a.lrclk, d⟩
  rw [hin, ← hload]
  cases ha : a.lrclk with
  | true =>
    have hb : b.lrclk = false := opposite hab ha
    rw [bits_low (fun e he => (HalfFrame.lrclk_of_mem he).trans hb), hlen]
    rfl
  | false =>
    have hb : b.lrclk = true := opposite hab ha
    rw [bits_high (fun e he => (HalfFrame.lrclk_of_mem he).trans hb), hlen]
    rfl

theorem toNat_load_high (d : BitVec 24) : (load ⟨true, d⟩).toNat = d.toNat / 2 ^ 23 := by
  have hbit : d.toNat / 2 ^ 23 < 2 := by have hd := d.isLt; omega
  rw [load, if_pos rfl, BitVec.toNat_setWidth, BitVec.extractLsb'_toNat,
    Nat.shiftRight_eq_div_pow, Nat.mod_eq_of_lt (b := 2 ^ 1) hbit, Nat.mod_eq_of_lt (by omega)]

/-- The sign bit of a sample is the sample only when both are 0. -/
theorem load_high_eq_iff : load ⟨true, d⟩ = d ↔ d = 0 := by
  have h := toNat_load_high d
  constructor
  · intro heq
    rw [heq] at h
    have hzero : d.toNat = 0 := by omega
    exact BitVec.eq_of_toNat_eq hzero
  · rintro rfl
    rfl

/-! ## §4 Both channels -/

/-- Every half-frame that comes after one of the opposite LRCLK level sends
`d` from bit 23 down, and zeros after bit 0. -/
def BothChannelsCarry (d : BitVec 24) (s : State) (fs : List HalfFrame) : Prop :=
  ∀ pre a b post, fs = pre ++ a :: b :: post → a.lrclk ≠ b.lrclk →
    bits (run step s (inputs d (pre ++ [a]))) (b.inputs d) = wire d b.edges

/-- A left word: a half-frame with LRCLK low after one with LRCLK high. -/
def HasLeftWord (fs : List HalfFrame) : Prop :=
  ∃ pre a b post, fs = pre ++ a :: b :: post ∧ a.lrclk = true ∧ b.lrclk = false

/-- **Both channels carry the sample** exactly when it is 0 or the sequence
has no left word. -/
theorem both_channels_carry_iff (d : BitVec 24) (s : State) (fs : List HalfFrame) :
    BothChannelsCarry d s fs ↔ d = 0 ∨ ¬ HasLeftWord fs := by
  constructor
  · intro h
    by_contra hcon
    obtain ⟨hd, hleft⟩ := not_or.mp hcon
    obtain ⟨pre, a, b, post, rfl, ha, hb⟩ := not_not.mp hleft
    have hab : a.lrclk ≠ b.lrclk := by rw [ha, hb]; decide
    have hword := h pre a b post rfl hab
    rw [bits_after hab, ha] at hword
    exact hd (load_high_eq_iff.mp (wire_inj b.long hword))
  · rintro h pre a b post rfl hab
    rw [bits_after hab]
    cases ha : a.lrclk with
    | false => rfl
    | true =>
      have hb : b.lrclk = false := opposite hab ha
      rcases h with hd | hleft
      · rw [load_high_eq_iff.mpr hd]
      · exact absurd ⟨pre, a, b, post, rfl, ha, hb⟩ hleft

/-- Sample 1 is silent on the left. -/
theorem not_both_channels_carry :
    ¬ ∀ (d : BitVec 24) (s : State) (fs : List HalfFrame), BothChannelsCarry d s fs := by
  intro h
  have hword := h 1 ⟨0, 0, false⟩ [⟨true, 24, Nat.le_refl 24⟩, ⟨false, 24, Nat.le_refl 24⟩] []
    ⟨true, 24, Nat.le_refl 24⟩ ⟨false, 24, Nat.le_refl 24⟩ [] rfl (by decide)
  exact absurd hword (by decide)

end Frames

/-! ## §5 The right channel while `data_in` changes -/

theorem lrclk_of_mem_edgesAt {lrclk : Bool} {ds : List (BitVec 24)} {e : Edge}
    (h : e ∈ edgesAt lrclk ds) : e.lrclk = lrclk := by
  obtain ⟨d, -, rfl⟩ := List.mem_map.mp h
  rfl

/-- The half-frame with LRCLK high sends the last word loaded before it. -/
theorem bits_edgesAt (s : State) (lows highs : List (BitVec 24)) (d : BitVec 24) :
    bits (run step s (edgesAt false (lows ++ [d]))) (edgesAt true highs)
      = wire d highs.length := by
  have hload : (run step s (edgesAt false (lows ++ [d]))).right = d := by
    rw [edgesAt, List.map_append]
    exact loaded_run s (lows.map (Edge.mk false)) ⟨false, d⟩
  have hlen : (edgesAt true highs).length = highs.length := List.length_map _
  rw [bits_high (fun e he => lrclk_of_mem_edgesAt he), hload, hlen]

/-- **The right channel round trip.** `d` is on `data_in` at the last edge
with LRCLK low. Whatever the registers held and whatever `data_in` does
before and after that edge, the half-frame with LRCLK high sends `d` from
bit 23 down and then zeros, and a receiver of its first 24 bits gets `d`. -/
theorem right_word_round_trip (s : State) (lows highs : List (BitVec 24)) (d : BitVec 24) :
    let word := bits (run step s (edgesAt false (lows ++ [d]))) (edgesAt true highs)
    word.length = highs.length ∧
      (∀ j < highs.length, word[j]? = some (if j < 24 then d.getLsbD (23 - j) else false)) ∧
      (24 ≤ highs.length → reassemble 24 (word.take 24) = d) := by
  intro word
  have hword : word = wire d highs.length := bits_edgesAt s lows highs d
  rw [hword]
  refine ⟨wire_length d _, fun j hj => ?_, fun hlong => reassemble_take d hlong⟩
  have hget : (wire d highs.length)[j]? = some (d.getMsbD j) := by
    rw [wire, List.getElem?_map, List.getElem?_range hj]
    rfl
  rw [hget, BitVec.getMsbD_eq_getLsbD]
  by_cases hbit : j < 24
  · simp [hbit]
  · simp [hbit]

end MidiSynth.Hardware.I2S
