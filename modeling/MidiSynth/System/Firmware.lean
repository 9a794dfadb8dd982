/-
MidiSynth.System.Firmware — the whole of `main`'s loop: `Usb.Task()`, the
drain loop and the decay poll, with the USB driver in it.

`Software.MainLoop` is a machine over packets and polls. This is the machine
that produces them. One time round the `while(1)` is one step at `task`, one
step at `recv` for each call of `RecvData` (the `do … while (size > 0)`), and
one step at `poll`; the driver's `operator bool` decides whether the drain
loop is entered. `faulted` records an access outside an array, after which
nothing is said.
-/
import MidiSynth.Software.MainLoop
import MidiSynth.Usb.HostTask

namespace MidiSynth.System

open MidiSynth.Machine
open MidiSynth.Software (Byte Word)
open MidiSynth.Usb

/-! ## The machine -/

/-- Where `main` stands. -/
inductive Pc where
  | task
  | recv
  | poll
  deriving DecidableEq, Repr

structure Firmware where
  host : Host
  main : Software.State
  pc : Pc
  faulted : Bool

/-- What one step may meet: what `Task` reads, what the controller answers to
a transfer, and the readings of `clock()`. -/
structure Input where
  task : Host.TaskInput
  answers : List InAnswer
  clock : Word
  polls : Software.PollClocks

namespace Firmware

/-- Before the first time round. -/
def boot (u : Software.Uninit) (midi : Midi) : Firmware where
  host := Host.fresh midi
  main := Software.boot u
  pc := .task
  faulted := false

/-- What a transfer on the data IN endpoint meets: the return code of
`SetAddress`, and the controller's answers. -/
def bus (s : Firmware) (i : Input) : Bus where
  setAddress :=
    match s.host.setAddress s.host.midi.bAddress (s.host.midi.epInfo epDataInIndex).epAddr with
    | .error e => e
    | .ok _ => 0
  answers := i.answers

/-- `MIDI_packet`, once `RecvData` has stored to it. -/
def packet (outBuf : List Byte) : Software.MidiPacket :=
  ⟨outBuf.getD 0 0, outBuf.getD 1 0, outBuf.getD 2 0⟩

/-- `Usb.Task(); if(Midi)`. -/
def taskStep (s : Firmware) (i : Input) : Firmware :=
  match s.host.task i.task with
  | none => { s with faulted := true }
  | some h => { s with host := h, pc := if h.midi.bPollEnable then .recv else .poll }

/-- One round of the drain loop. -/
def recvStep (s : Firmware) (i : Input) : Firmware :=
  match s.host.midi.recvData false (s.bus i) with
  | none => { s with faulted := true }
  | some r =>
    let s := { s with host := { s.host with midi := r.midi } }
    if 0 < r.size then
      { s with main := Software.step s.main (.packet (packet r.outBuf) i.clock) }
    else { s with pc := .poll }

/-- The decay poll. -/
def pollStep (s : Firmware) (i : Input) : Firmware :=
  { s with main := Software.step s.main (.poll i.polls), pc := .task }

def step (s : Firmware) (i : Input) : Firmware :=
  if s.faulted then s
  else
    match s.pc with
    | .task => s.taskStep i
    | .recv => s.recvStep i
    | .poll => s.pollStep i

end Firmware

end MidiSynth.System
