/-
MidiSynth.Hardware.Oscillators — the three wave generators:
`square_wave_generator.sv`, `sawtooth_wave_generator.sv` and
`triangle_wave_generator.sv`.

Each is a clocked circuit with a period input. One step is one rising edge
of `clk`; the `assign`s that feed the registers (`init`, `increment`) are
combinational, so they see the period the edge sees. All three put out
their `local_val` scaled by the volume through the same expression, each
under its own name.

`period/2` and `33554431/(2*period)` are computed at 32 bits, the width of
the unsized literals, and cut to the 24 bits of their left-hand side.
-/
import MidiSynth.Machine.Run
import MidiSynth.Verilog.Expr

namespace MidiSynth.Hardware

open MidiSynth.Verilog MidiSynth.Verilog.Expr

/-- What a generator's ports carry at a rising edge of `clk`. -/
structure OscInput where
  reset : Bool
  period : BitVec 23
  deriving DecidableEq, Repr

/-- `{1'b1, {23{1'b0}}}`, the level at reset. -/
def resetLevel : BitVec 24 := 0x800000

/-- `(local_val*volume)/127`. -/
def scale (localVal : BitVec 24) (volume : BitVec 7) : BitVec 24 :=
  assign 24 (sig localVal * sig volume / (127 : Expr))

/-! ## Square wave -/

namespace SquareWave

structure State where
  counter : BitVec 24
  localVal : BitVec 24
  deriving DecidableEq, Repr

/-- `assign init = period/2`. -/
def init (period : BitVec 23) : BitVec 24 := assign 24 (sig period / (2 : Expr))

def value (s : State) (volume : BitVec 7) : BitVec 24 := scale s.localVal volume

/-- `always_ff @(posedge clk)`. -/
def step (s : State) (i : OscInput) : State :=
  if i.reset then ⟨init i.period, resetLevel⟩
  else if s.counter = 0 then ⟨init i.period, ~~~s.localVal⟩
  else { s with counter := s.counter - 1 }

end SquareWave

/-! ## Sawtooth wave -/

namespace SawtoothWave

structure State where
  localVal : BitVec 24
  deriving DecidableEq, Repr

/-- `assign increment = 'd33554431/(2*period)`. -/
def increment (period : BitVec 23) : BitVec 24 :=
  assign 24 ((33554431 : Expr) / ((2 : Expr) * sig period))

def value (s : State) (volume : BitVec 7) : BitVec 24 := scale s.localVal volume

/-- `always_ff @(posedge clk)`. -/
def step (s : State) (i : OscInput) : State :=
  if i.reset then ⟨resetLevel⟩
  else ⟨s.localVal + increment i.period⟩

end SawtoothWave

/-! ## Triangle wave -/

namespace TriangleWave

structure State where
  counter : BitVec 24
  localVal : BitVec 24
  updown : Bool
  deriving DecidableEq, Repr

/-- `assign init = period/2`. -/
def init (period : BitVec 23) : BitVec 24 := assign 24 (sig period / (2 : Expr))

/-- `assign increment = 'd33554431/init`. -/
def increment (period : BitVec 23) : BitVec 24 :=
  assign 24 ((33554431 : Expr) / sig (init period))

def value (s : State) (volume : BitVec 7) : BitVec 24 := scale s.localVal volume

/-- `always_ff @(posedge clk)`. -/
def step (s : State) (i : OscInput) : State :=
  if i.reset then ⟨init i.period, resetLevel, true⟩
  else if s.counter = 0 then { s with updown := !s.updown, counter := init i.period }
  else
    { s with
        counter := s.counter - 1
        localVal :=
          if s.updown then s.localVal + increment i.period
          else s.localVal - increment i.period }

end TriangleWave

end MidiSynth.Hardware
