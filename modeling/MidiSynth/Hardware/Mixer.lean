/-
MidiSynth.Hardware.Mixer — `mixer.sv`: four samples, one master volume.

The line that makes the sound is

    assign mixed_sample = ((sample_0 + sample_1 + sample_2 + sample_3)
                            * master_vol) >> 11;

Every operand but the shift amount is 24 bits or narrower, and so is the
left-hand side, so the sum and the product are computed in 24 bits: what
the shift sees is the product modulo `2 ^ 24`, and 13 bits come out. The
exact product needs 33 bits (the commented-out `added_sample` has 26, the
width of the sum). `mixed_exact_iff` says when nothing is lost.

The echo buffer of the module drives no output and is left out.
-/
import MidiSynth.Verilog.Expr

namespace MidiSynth.Hardware

open MidiSynth.Verilog MidiSynth.Verilog.Expr

/-- `mixed_sample`. -/
def mixedSample (s0 s1 s2 s3 : BitVec 24) (masterVol : BitVec 7) : BitVec 24 :=
  assign 24 (((sig s0 + sig s1 + sig s2 + sig s3) * sig masterVol) >>> (11 : Expr))

section Mixed

variable (s0 s1 s2 s3 : BitVec 24) (m : BitVec 7)

/-- The mixer computes in 24 bits. -/
theorem toNat_mixedSample :
    (mixedSample s0 s1 s2 s3 m).toNat =
      (s0.toNat + s1.toNat + s2.toNat + s3.toNat) * m.toNat % 2 ^ 24 / 2 ^ 11 := by
  have hsum := (((denotes_sig s0 24).add (denotes_sig s1 24)).add (denotes_sig s2 24)).add
    (denotes_sig s3 24)
  have hmix := (hsum.mul (denotes_sig m 24)).shiftRight
    (denotes_ofNat (n := 11) 32 (by decide)) (by decide)
  refine hmix.toNat_assign_of_lt ?_
  omega

/-- Silence in, silence out, at every volume. -/
theorem mixedSample_zero : mixedSample 0 0 0 0 m = 0 := by
  apply BitVec.eq_of_toNat_eq
  rw [toNat_mixedSample]
  simp

end Mixed

/-- **The mixer is exact** when, and only when, the product of the sum with
the volume fits 24 bits. -/
theorem mixed_exact_iff (s0 s1 s2 s3 : BitVec 24) (m : BitVec 7) :
    (mixedSample s0 s1 s2 s3 m).toNat
        = (s0.toNat + s1.toNat + s2.toNat + s3.toNat) * m.toNat / 2 ^ 11 ↔
      (s0.toNat + s1.toNat + s2.toNat + s3.toNat) * m.toNat < 2 ^ 24 := by
  rw [toNat_mixedSample]
  generalize (s0.toNat + s1.toNat + s2.toNat + s3.toNat) * m.toNat = k
  -- 13 bits survive, and an exact result from `2 ^ 24` up has more
  omega

/-- One square wave at its reset level, at the volume the program boots
with. -/
theorem not_mixed_exact :
    ¬ ∀ (s0 s1 s2 s3 : BitVec 24) (m : BitVec 7),
      (mixedSample s0 s1 s2 s3 m).toNat
        = (s0.toNat + s1.toNat + s2.toNat + s3.toNat) * m.toNat / 2 ^ 11 := by
  intro h
  exact absurd (h 0x800000 0 0 0 64) (by decide)

end MidiSynth.Hardware
