/-
MidiSynth.Usb.MidiSender — the sending half of the USB-MIDI class driver:
`SendData`, `SendSysEx` and what they call, and `extractSysExData`, of
`include/usbh_midi.cpp`.

`SendData` makes one event packet of a message and sends it. A System
Exclusive message has no fixed length: `SendSysEx` cuts it into events of
three bytes, the code of the last one saying how many of them count, gathers
the events in `buf` and sends the buffer when it holds a packet of the IN
endpoint's size.

`dataptr` is a list, what the memory holds from there on; `none` is an access
outside it or outside `buf`. `OutBus` is what the outside answers to one
transfer, and the last component of what the functions give back is what the
device took. `buf` is not initialised, so what it holds is an argument.
-/
import MidiSynth.Usb.OutTransfer
import MidiSynth.Usb.MidiDriver

namespace MidiSynth.Usb

open MidiSynth.Machine
open MidiSynth.Software (Byte)

/-! ## Transfers -/

/-- What one OUT transfer meets: what `SetAddress` returns, HRSL, and what the
controller answers. -/
structure OutBus where
  setAddress : Byte
  hrsl : Byte
  answers : List OutAnswer

/-- `USB::outTransfer` on the data OUT endpoint. -/
def Midi.outTransfer (m : Midi) (bus : OutBus) (data : List Byte) : OutTransfer × Midi :=
  let i := (m.entry (m.epInfo epDataOutIndex).epAddr).getD epDataOutIndex
  if bus.setAddress ≠ 0 then (⟨bus.setAddress, m.epInfo i, []⟩, m)
  else
    let t := Usb.outTransfer (m.epInfo i) data bus.hrsl bus.answers
    (t, { m with epInfo := Function.update m.epInfo i t.ep })

/-! ## Messages -/

/-- `lookupMsgSize`. -/
def lookupMsgSize (status cin : Byte) : Byte :=
  let cin := if cin = 0 then convertStatus2Cin status else cin
  getMsgSizeFromCin cin

/-- `MIDI_MAX_SYSEX_SIZE`. -/
abbrev maxSysExSize : ℕ := 256

/-- The search of `countSysExDataSize` for the terminator, at the `c`-th byte
and `left` bytes before the limit. -/
def countLoop (data : List Byte) (c : ℕ) : ℕ → Option ℕ
  | 0 => do
    let b ← data[c - 1]?
    return if b = 0xF7 then c else 0
  | left + 1 => do
    let b ← data[c - 1]?
    if b = 0xF7 then return c else countLoop data (c + 1) left

/-- `countSysExDataSize`. -/
def countSysExDataSize (data : List Byte) : Option ℕ := do
  let status ← data[0]?
  if status ≠ 0xF0 then return 0 else countLoop data 1 (maxSysExSize - 1)

/-- `(nCable << 4) | cin`. -/
def eventHeader (nCable cin : Byte) : Byte := nCable <<< 4 ||| cin

/-- One round of `SendSysEx`: the four bytes that go into `buf`, what is left
of `n`, and of the data. -/
def sysExRound (nCable : Byte) (n : BitVec 16) (data : List Byte) :
    Option (List Byte × BitVec 16 × List Byte) :=
  if n = 1 then do
    return ([eventHeader nCable 5, ← data[0]?, 0, 0], 0, data.drop 1)
  else if n = 2 then do
    return ([eventHeader nCable 6, ← data[0]?, ← data[1]?, 0], 0, data.drop 2)
  else do
    let cin := if n = 3 then 7 else 4
    return ([eventHeader nCable cin, ← data[0]?, ← data[1]?, ← data[2]?], n - 3, data.drop 3)

/-- What the loop of `SendSysEx` works on. -/
structure SysEx where
  midi : Midi
  buf : List.Vector Byte eventPacketSize
  wptr : Byte
  n : BitVec 16
  data : List Byte
  taken : List Byte

/-- The loop of `SendSysEx`, `rounds` more times at most. `bus` is what each
transfer meets from here on. -/
def sysExLoop (nCable maxpkt : Byte) : ℕ → (ℕ → OutBus) → SysEx → Option (Byte × SysEx)
  | 0, _, s => some (0, s)
  | rounds + 1, bus, s =>
    if s.n = 0 then some (0, s)
    else do
      let (event, n, data) ← sysExRound nCable s.n s.data
      let buf ← stores s.buf s.wptr.toNat event
      let s := { s with buf := buf, wptr := s.wptr + 4, n := n, data := data }
      if maxpkt ≤ s.wptr ∨ s.n = 0 then
        let out ← loads s.buf 0 s.wptr.toNat
        let (t, midi) := s.midi.outTransfer (bus 0) out
        let s := { s with midi := midi, taken := s.taken ++ t.taken }
        if t.rcode ≠ 0 then return (t.rcode, s)
        else sysExLoop nCable maxpkt rounds (fun k => bus (k + 1)) { s with wptr := 0 }
      else sysExLoop nCable maxpkt rounds bus s

/-- `SendSysEx`. Each round takes a byte at least. -/
def Midi.sendSysEx (m : Midi) (buf : List.Vector Byte eventPacketSize) (data : List Byte)
    (datasize : BitVec 16) (nCable : Byte) (bus : ℕ → OutBus) : Option (Byte × SysEx) :=
  sysExLoop nCable (m.epInfo epDataInIndex).maxPktSize datasize.toNat bus
    ⟨m, buf, 0, datasize, data, []⟩

/-- What `SendData` gives back: the code, the driver, and what the device
took. -/
structure SentData where
  rcode : Byte
  midi : Midi
  taken : List Byte

/-- The event that `SendData` makes of a message in its own `buf`. -/
def messageEvent (buf : List.Vector Byte 4) (data : List Byte) (nCable : Byte) :
    Option (List Byte) := do
  let status ← data[0]?
  let cin := convertStatus2Cin status
  let msglen := getMsgSizeFromCin cin
  if msglen = 3 then return [eventHeader nCable cin, status, ← data[1]?, ← data[2]?]
  else if msglen = 2 then return [eventHeader nCable cin, status, ← data[1]?, 0]
  else if msglen = 1 then return [eventHeader nCable cin, status, 0, 0]
  else return [eventHeader nCable cin, status, ← load buf 2, ← load buf 3]

/-- `SendData`. `sysExBuf` is what `SendSysEx` finds in its `buf`. -/
def Midi.sendData (m : Midi) (buf : List.Vector Byte 4)
    (sysExBuf : List.Vector Byte eventPacketSize) (data : List Byte) (nCable : Byte)
    (bus : ℕ → OutBus) : Option SentData := do
  let status ← data[0]?
  if status = 0xF0 then
    let size ← countSysExDataSize data
    let (rcode, s) ← m.sendSysEx sysExBuf data (BitVec.ofNat 16 size) nCable bus
    return ⟨rcode, s.midi, s.taken⟩
  else
    let event ← messageEvent buf data nCable
    let (t, midi) := m.outTransfer (bus 0) event
    return ⟨t.rcode, midi, t.taken⟩

/-- `extractSysExData`, at an event: what it stores from `buf` on. It returns
how many bytes these are. -/
def extractSysExData (p : List Byte) : Option (List Byte) := do
  let cin := (← p[0]?) &&& 0x0F
  if cin &&& 0xC ≠ 4 then return []
  else
    match cin.toNat with
    | 4 | 7 => return [← p[1]?, ← p[2]?, ← p[3]?]
    | 6 => return [← p[1]?, ← p[2]?]
    | 5 => return [← p[1]?]
    | _ => return []

end MidiSynth.Usb
