/-
MidiSynth.Hardware.I2S — `I2S_Interface.sv`, the serial link to the codec.

One step is one rising edge of SCLK. The two channel registers take turns:
while LRCLK is high the right register shifts out and the left one loads,
and while it is low they swap. All updates are non-blocking, so SDATA gets
the top bit the register had before the edge.

The right register loads `data_in`. The left one loads `data_in[23]`, a
single bit, which the assignment zero-extends to 24 bits.
-/
import MidiSynth.Verilog.ShiftRegister

namespace MidiSynth.Hardware.I2S

open MidiSynth.Machine MidiSynth.Verilog

structure State where
  left : BitVec 24
  right : BitVec 24
  sdata : Bool
  deriving DecidableEq, Repr

/-- What the ports carry at a rising edge of SCLK. -/
structure Edge where
  lrclk : Bool
  dataIn : BitVec 24
  deriving DecidableEq, Repr

/-- `always_ff @(posedge SCLK)`. -/
def step (s : State) (e : Edge) : State :=
  if e.lrclk then
    { left := (e.dataIn.extractLsb' 23 1).setWidth 24
      sdata := s.right.getLsbD 23
      right := shiftedUp (w := 23) s.right }
  else
    { right := e.dataIn
      sdata := s.left.getLsbD 23
      left := shiftedUp (w := 23) s.left }

/-- The bits placed on SDATA, one an edge. -/
def bits (s : State) (es : List Edge) : List Bool :=
  outputs step (fun s e => (step s e).sdata) s es

/-- Edges at one LRCLK level over which `data_in` changes freely. -/
def edgesAt (lrclk : Bool) (ds : List (BitVec 24)) : List Edge := ds.map (Edge.mk lrclk)

/-- Edges over which LRCLK does not change, 24 of them at least. -/
structure HalfFrame where
  lrclk : Bool
  edges : Nat
  long : 24 ≤ edges

/-- The edges of a half-frame while `d` is held on `data_in`. -/
def HalfFrame.inputs (d : BitVec 24) (f : HalfFrame) : List Edge :=
  List.replicate f.edges ⟨f.lrclk, d⟩

/-- The edges of a sequence of half-frames. -/
def inputs (d : BitVec 24) (fs : List HalfFrame) : List Edge := fs.flatMap (HalfFrame.inputs d)

end MidiSynth.Hardware.I2S
