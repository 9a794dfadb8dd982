/-
MidiSynth.Usb.MidiDriver — the receiving half of the USB-MIDI class driver:
`USBH_MIDI::RecvData` of `include/usbh_midi.cpp`.

A USB-MIDI device sends 4-byte event packets, up to sixteen to a transfer.
`RecvData` gives `main` one event a call: it takes the next event of
`recvBuf` while there is one, and asks the device for a transfer when there
is none. The buffer has no length field. What marks its end is a pair of
zero bytes where the next event would start, which `RecvData(bytes_rcvd, …)`
writes after the received bytes if there is room by its own count
(`*bytes_rcvd < MIDI_EVENT_PACKET_SIZE-4`), or `readPtr` at the end of the
buffer.

The buffer is an array with checked accesses, so `none` is an access outside
`recvBuf`. `Bus` is what the outside answers to one call.
-/
import MidiSynth.Machine.Memory
import MidiSynth.Usb.Transfer

namespace MidiSynth.Usb

open MidiSynth.Machine
open MidiSynth.Software (Byte)

/-! ## Constants and tables -/

/-- `MIDI_EVENT_PACKET_SIZE`, the size of `recvBuf`. -/
abbrev eventPacketSize : ℕ := 64

/-- `MIDI_MAX_ENDPOINTS`: control, bulk IN, bulk OUT. -/
abbrev maxEndpoints : ℕ := 3

/-- The control endpoint. -/
abbrev epControlIndex : Fin maxEndpoints := 0

abbrev epDataInIndex : Fin maxEndpoints := 1

abbrev epDataOutIndex : Fin maxEndpoints := 2

/-- `cin2len`: the length of the message an event of each code carries. -/
def cin2len : List Byte := [0, 0, 2, 3, 3, 1, 2, 3, 3, 3, 3, 3, 2, 2, 3, 1]

/-- `sys2cin`: the code of each system message. -/
def sys2cin : List Byte := [0, 2, 3, 2, 0, 0, 5, 0, 0xF, 0, 0xF, 0xF, 0xF, 0, 0xF, 0xF]

/-- `getMsgSizeFromCin`. The table has an entry for every nibble. -/
def getMsgSizeFromCin (cin : Byte) : Byte := cin2len.getD cin.toNat 0

/-- `convertStatus2Cin`. -/
def convertStatus2Cin (status : Byte) : Byte :=
  if status < 0xF0 then (status &&& 0xF0) >>> 4
  else sys2cin.getD (status &&& 0x0F).toNat 0

/-! ## The driver -/

/-- `class USBH_MIDI`. -/
structure Midi where
  bAddress : Byte
  bPollEnable : Bool
  pid : BitVec 16
  vid : BitVec 16
  bTransferTypeMask : Byte
  epInfo : Fin maxEndpoints → EpInfo
  recvBuf : List.Vector Byte eventPacketSize
  readPtr : Byte

instance : Inhabited Midi :=
  ⟨⟨0, false, 0, 0, 0, fun _ => ⟨0, 0, false, false, 0⟩, List.Vector.replicate _ 0, 0⟩⟩

/-- What one call of `RecvData` meets, should it ask for a transfer: what
`SetAddress` returns and what the controller answers. -/
structure Bus where
  setAddress : Byte
  answers : List InAnswer

/-- What `RecvData` gives back: the size it returns, the bytes stored from
`outBuf` on, and the driver. -/
structure Received where
  size : Byte
  outBuf : List Byte
  midi : Midi

/-- `getEpInfoEntry`: the first entry with the endpoint's number. -/
def Midi.entry (m : Midi) (ep : Byte) : Option (Fin maxEndpoints) :=
  first (fun i => (m.epInfo i).epAddr == ep)

/-- `USB::inTransfer` on the data IN endpoint. The driver's own record has
the number it asks for, so the table lookup finds an entry: this one, or an
earlier one of the same number. -/
def Midi.inTransfer (m : Midi) (bus : Bus) : Transfer × Midi :=
  let nbytes : BitVec 16 := (m.epInfo epDataInIndex).maxPktSize.setWidth 16
  let i := (m.entry (m.epInfo epDataInIndex).epAddr).getD epDataInIndex
  if bus.setAddress ≠ 0 then (⟨bus.setAddress, nbytes, [], m.epInfo i⟩, m)
  else
    let t := Usb.inTransfer (m.epInfo i) nbytes bus.answers
    (t, { m with epInfo := Function.update m.epInfo i t.ep })

/-- `RecvData(uint16_t *bytes_rcvd, uint8_t *dataptr)` into `recvBuf`: the
transfer, and two zeros after it. -/
def Midi.recvTransfer (m : Midi) (bus : Bus) : Option (Byte × Midi) := do
  let (t, m) := m.inTransfer bus
  let buf ← fill m.recvBuf t.stored
  let buf ← if t.nbytes.toNat < eventPacketSize - 4 then stores buf t.nbytes.toNat [0, 0]
    else some buf
  return (t.rcode, { m with recvBuf := buf })

/-- The event at `readPtr`, from the label `RecvData_return_from_buffer`. -/
def Midi.returnFromBuffer (m : Midi) (isRaw : Bool) : Option Received := do
  let cin ← load m.recvBuf m.readPtr.toNat
  let midi ← loads m.recvBuf (m.readPtr + 1).toNat 3
  return {
    size := getMsgSizeFromCin (cin &&& 0x0F)
    outBuf := (if isRaw then [cin] else []) ++ midi
    midi := { m with readPtr := m.readPtr + 4 } }

/-- `recvBuf[i] == 0 && recvBuf[i+1] == 0`. The second byte is read only if
the first one is zero. -/
def zeroPair (buf : List.Vector Byte eventPacketSize) (i : ℕ) : Option Bool := do
  let b₀ ← load buf i
  if b₀ = 0 then
    let b₁ ← load buf (i + 1)
    return decide (b₁ = 0)
  else return false

/-- The half of `RecvData` that asks for a transfer. -/
def Midi.recvFresh (m : Midi) (isRaw : Bool) (bus : Bus) : Option Received := do
  let (rcode, m) ← Midi.recvTransfer { m with readPtr := 0 } bus
  if rcode ≠ 0 then return ⟨0, [], m⟩
  else
    let head ← loads m.recvBuf 0 4
    -- all data zero: no valid data received
    if head = [0, 0, 0, 0] then return ⟨0, [], m⟩
    else m.returnFromBuffer isRaw

/-- `RecvData(uint8_t *outBuf, bool isRaw)`. -/
def Midi.recvData (m : Midi) (isRaw : Bool) (bus : Bus) : Option Received :=
  if m.bPollEnable = false then some ⟨0, [], m⟩
  else if m.readPtr ≠ 0 ∧ m.readPtr.toNat < eventPacketSize then do
    let done ← zeroPair m.recvBuf m.readPtr.toNat
    if done then m.recvFresh isRaw bus else m.returnFromBuffer isRaw
  else m.recvFresh isRaw bus

end MidiSynth.Usb
