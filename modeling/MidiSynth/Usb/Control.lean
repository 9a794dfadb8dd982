/-
MidiSynth.Usb.Control — control requests: `USB::ctrlReq` and the descriptor
requests of `include/Usb.cpp`.

A control read is a SETUP packet, a data stage of IN transfers into one
buffer, and a status packet. Every transfer of the data stage is written from
the start of the buffer, and handed on from there before the next one. The
bytes still to come are counted down in 16 bits by what `InTransfer` reports.

What the outside answers is `CtrlAnswers`: one list of packets for each
transfer of the data stage. A device that has given all its answers NAKs.
The branch that flips the toggle when `InTransfer` returns a toggle error is
left out: it never does (`inTransfer_rcode_ne_togErr`). So are the toggles of
the control endpoint, which only the controller reads.
-/
import MidiSynth.Usb.DescParser

namespace MidiSynth.Usb

open MidiSynth.Machine
open MidiSynth.Software (Byte)

/-! ## Requests -/

/-- What the controller answers to one request: to the SETUP packet, to the
transfers of the data stage, to the status packet. -/
structure CtrlAnswers where
  setup : Byte
  data : List (List InAnswer)
  status : Byte

section Read

variable {σ : Type} {n : ℕ} (feed : σ → List.Vector Byte n → ℕ → Option σ)
  (nbytes : BitVec 16) (ep : EpInfo)

/-- The data stage of an IN request. `left` is what is still to come, and
`feed` is what the callback does with the bytes read. -/
def dataStage (buf : List.Vector Byte n) (s : σ) (left : BitVec 16) :
    List (List InAnswer) → Option (Byte × List.Vector Byte n × σ)
  | [] => some (if left = 0 then 0 else hrNAK, buf, s)
  | answers :: ts =>
    if left = 0 then some (0, buf, s)
    else do
      let t := inTransfer ep nbytes answers
      let buf ← fill buf t.stored
      if t.rcode ≠ 0 then return (t.rcode, buf, s)
      else
        let s ← feed s buf t.nbytes.toNat
        if t.nbytes < nbytes then return (0, buf, s)
        else dataStage buf s (left - t.nbytes) ts

/-- `ctrlReq` with an IN data stage, once `SetAddress` has found `ep`. -/
def ctrlRead (total : BitVec 16) (buf : List.Vector Byte n) (s : σ) (a : CtrlAnswers) :
    Option (Byte × List.Vector Byte n × σ) :=
  if a.setup ≠ 0 then some (a.setup, buf, s)
  else do
    let (rcode, buf, s) ← dataStage feed nbytes ep buf s total a.data
    return (if rcode ≠ 0 then rcode else a.status, buf, s)

end Read

/-- `ctrlReq` without a data stage. -/
def ctrlWrite (a : CtrlAnswers) : Byte := if a.setup ≠ 0 then a.setup else a.status

/-- No callback is given. -/
def noParser {n : ℕ} (s : Unit) (_ : List.Vector Byte n) (_ : ℕ) : Option Unit := some s

/-- `p->Parse(read, dataptr, …)`. -/
def parseRead {n : ℕ} (p : DescParser) (buf : List.Vector Byte n) (read : ℕ) : Option DescParser := do
  let bytes ← loads buf 0 read
  parse DescParser.parseDescriptor p bytes

/-! ## The descriptors -/

/-- The fields of `USB_DEVICE_DESCRIPTOR` that are used. -/
structure DevDescr where
  bMaxPacketSize0 : Byte
  idVendor : BitVec 16
  idProduct : BitVec 16
  bNumConfigurations : Byte

/-- `sizeof(USB_DEVICE_DESCRIPTOR)`. -/
abbrev devDescrSize : ℕ := 18

/-- The buffer read as a device descriptor. -/
def devDescr (buf : List.Vector Byte devDescrSize) : DevDescr where
  bMaxPacketSize0 := buf.get 7
  idVendor := buf.get 9 ++ buf.get 8
  idProduct := buf.get 11 ++ buf.get 10
  bNumConfigurations := buf.get 17

/-- `getDevDescr`. -/
def getDevDescr (ep : EpInfo) (nbytes : BitVec 16) (buf : List.Vector Byte devDescrSize)
    (a : CtrlAnswers) : Option (Byte × List.Vector Byte devDescrSize) := do
  let (rcode, buf, _) ← ctrlRead noParser nbytes ep nbytes buf () a
  return (rcode, buf)

/-- What one call of `getConfDescr` with a parser meets: the answers to its
two requests, and what `buf` and the fields that the parser's constructor
leaves alone hold before. -/
structure ConfAnswers where
  buf : List.Vector Byte eventPacketSize
  varBuffer : List.Vector Byte 16
  isGoodInterface : Bool
  confValue : Byte
  head : CtrlAnswers
  descriptors : CtrlAnswers

/-- `wTotalLength` of the configuration descriptor in the buffer. -/
def wTotalLength (buf : List.Vector Byte eventPacketSize) : BitVec 16 := buf.get 3 ++ buf.get 2

/-- `getConfDescr` with a parser: nine bytes for the total length, then all of
it in transfers of 64. -/
def getConfDescr (ep : EpInfo) (p : DescParser) (a : ConfAnswers) : Option (Byte × DescParser) := do
  let (rcode, buf, _) ← ctrlRead noParser 9 ep 9 a.buf () a.head
  if rcode ≠ 0 then return (rcode, p)
  else
    let total := wTotalLength buf
    let (rcode, _, p) ← ctrlRead parseRead 64 ep total buf p a.descriptors
    return (rcode, p)

end MidiSynth.Usb
