/-
MidiSynth.Verilog.Expr — unsigned SystemVerilog expressions under the
context-determined width rules.

In SystemVerilog the width at which `a + b`, `a * b` or `a / b` is computed
is not a property of the operands alone: the widest of the assignment's
left-hand side and every context-determined operand fixes ONE width, all
operands are zero-extended to it, and every operator works modulo two to
that width. The right operand of a shift is self-determined and takes no
part. An unsized literal is 32 bits wide.

`Expr` embeds this shallowly. An expression is its self-determined width
together with its value as a function of the context width, so a source
expression is written down as it stands and `assign w` supplies the
left-hand side.

`Denotes e ctx n` says that at context width `ctx` the expression carries
the natural number `n` modulo `2 ^ ctx`. The `Denotes` rules are how every
width argument is made: sums and products need no side condition, a
quotient needs operands that fit, a right shift sees only what survived.

Division by zero is `x` in SystemVerilog and zero in `BitVec`; a result
about a circuit has to exclude that case. Signed operands do not occur: one
unsigned operand makes the whole expression unsigned.
-/
import Mathlib.Algebra.Ring.Nat

namespace MidiSynth.Verilog

/-- An unsigned expression: its self-determined width, and its value once
the context has fixed the width it is evaluated at. -/
structure Expr where
  width : Nat
  eval : (ctx : Nat) → BitVec ctx

namespace Expr

/-- A vector operand, zero-extended (or cut) to the context width. -/
def sig {w : Nat} (x : BitVec w) : Expr where
  width := w
  eval := fun ctx => x.setWidth ctx

/-- An unsized literal. -/
def lit (n : Nat) : Expr := sig (BitVec.ofNat 32 n)

instance (n : Nat) : OfNat Expr n := ⟨lit n⟩

instance : Add Expr where
  add a b := ⟨max a.width b.width, fun ctx => a.eval ctx + b.eval ctx⟩

instance : Sub Expr where
  sub a b := ⟨max a.width b.width, fun ctx => a.eval ctx - b.eval ctx⟩

instance : Mul Expr where
  mul a b := ⟨max a.width b.width, fun ctx => a.eval ctx * b.eval ctx⟩

instance : Div Expr where
  div a b := ⟨max a.width b.width, fun ctx => a.eval ctx / b.eval ctx⟩

/-- The shift amount is self-determined: it is read at its own width. -/
instance : ShiftRight Expr where
  shiftRight a b := ⟨a.width, fun ctx => a.eval ctx >>> (b.eval b.width).toNat⟩

/-- `assign lhs = e` for a left-hand side of `w` bits: the context width is
the wider of the two sides, and the result is cut to the left-hand side. -/
def assign (w : Nat) (e : Expr) : BitVec w :=
  (e.eval (max w e.width)).setWidth w

/-! ## What an expression denotes at a width -/

/-- At context width `ctx` the expression carries `n` modulo `2 ^ ctx`. -/
def Denotes (e : Expr) (ctx n : Nat) : Prop := e.eval ctx = BitVec.ofNat ctx n

theorem Denotes.toNat_eval {e : Expr} {ctx n : Nat} (h : e.Denotes ctx n) :
    (e.eval ctx).toNat = n % 2 ^ ctx := by
  rw [h, BitVec.toNat_ofNat]

theorem denotes_sig {w : Nat} (x : BitVec w) (ctx : Nat) :
    (sig x).Denotes ctx x.toNat := by
  apply BitVec.eq_of_toNat_eq
  simp [sig]

/-- A literal that fits 32 bits denotes itself at every width. -/
theorem denotes_ofNat {n : Nat} (ctx : Nat) (h : n < 2 ^ 32) :
    (OfNat.ofNat n : Expr).Denotes ctx n := by
  have hlit := denotes_sig (BitVec.ofNat 32 n) ctx
  rwa [BitVec.toNat_ofNat, Nat.mod_eq_of_lt h] at hlit

theorem Denotes.add {a b : Expr} {ctx n m : Nat} (ha : a.Denotes ctx n)
    (hb : b.Denotes ctx m) : (a + b).Denotes ctx (n + m) := by
  show a.eval ctx + b.eval ctx = _
  rw [ha, hb, BitVec.ofNat_add]

theorem Denotes.mul {a b : Expr} {ctx n m : Nat} (ha : a.Denotes ctx n)
    (hb : b.Denotes ctx m) : (a * b).Denotes ctx (n * m) := by
  show a.eval ctx * b.eval ctx = _
  rw [ha, hb, BitVec.ofNat_mul]

/-- A difference wraps: subtracting `m` adds its complement to `2 ^ ctx`. -/
theorem Denotes.sub {a b : Expr} {ctx n m : Nat} (ha : a.Denotes ctx n)
    (hb : b.Denotes ctx m) (hm : m ≤ 2 ^ ctx) :
    (a - b).Denotes ctx (n + (2 ^ ctx - m)) := by
  show a.eval ctx - b.eval ctx = _
  rw [ha, hb]
  apply BitVec.eq_of_toNat_eq
  rw [BitVec.toNat_sub, BitVec.toNat_ofNat, BitVec.toNat_ofNat, BitVec.toNat_ofNat,
    Nat.add_mod_mod, Nat.add_comm n]
  rcases Nat.lt_or_eq_of_le hm with hlt | heq
  · rw [Nat.mod_eq_of_lt hlt]
  · rw [heq, Nat.mod_self, Nat.sub_zero, Nat.sub_self, Nat.zero_add, Nat.add_mod_left]

/-- A quotient is exact when both operands fit the context. -/
theorem Denotes.div {a b : Expr} {ctx n m : Nat} (ha : a.Denotes ctx n)
    (hb : b.Denotes ctx m) (hn : n < 2 ^ ctx) (hm : m < 2 ^ ctx) :
    (a / b).Denotes ctx (n / m) := by
  show a.eval ctx / b.eval ctx = _
  rw [ha, hb]
  apply BitVec.eq_of_toNat_eq
  have hq : n / m < 2 ^ ctx := Nat.lt_of_le_of_lt (Nat.div_le_self n m) hn
  simp [Nat.mod_eq_of_lt hn, Nat.mod_eq_of_lt hm, Nat.mod_eq_of_lt hq]

/-- A right shift acts on what is left of the operand modulo `2 ^ ctx`. -/
theorem Denotes.shiftRight {a b : Expr} {ctx n k : Nat} (ha : a.Denotes ctx n)
    (hb : b.Denotes b.width k) (hk : k < 2 ^ b.width) :
    (a >>> b).Denotes ctx (n % 2 ^ ctx / 2 ^ k) := by
  show a.eval ctx >>> (b.eval b.width).toNat = _
  rw [hb.toNat_eval, Nat.mod_eq_of_lt hk, ha]
  apply BitVec.eq_of_toNat_eq
  have hq : n % 2 ^ ctx / 2 ^ k < 2 ^ ctx :=
    Nat.lt_of_le_of_lt (Nat.div_le_self _ _) (Nat.mod_lt _ (Nat.two_pow_pos ctx))
  simp [Nat.shiftRight_eq_div_pow, Nat.mod_eq_of_lt hq]

/-- An assignment keeps the low `w` bits of what its right-hand side
denotes at the context width. -/
theorem Denotes.toNat_assign {e : Expr} {w n : Nat}
    (h : e.Denotes (max w e.width) n) : (assign w e).toNat = n % 2 ^ w := by
  rw [assign, BitVec.toNat_setWidth, h.toNat_eval]
  exact Nat.mod_mod_of_dvd n (Nat.pow_dvd_pow 2 (Nat.le_max_left w e.width))

theorem Denotes.toNat_assign_of_lt {e : Expr} {w n : Nat}
    (h : e.Denotes (max w e.width) n) (hn : n < 2 ^ w) : (assign w e).toNat = n := by
  rw [h.toNat_assign, Nat.mod_eq_of_lt hn]

end Expr

end MidiSynth.Verilog
