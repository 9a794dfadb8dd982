/-
MidiSynth.Usb.DescParser — the configuration descriptor parser of
`include/usbh_midi.cpp` (`MidiDescParser`), with the two helpers of
`include/parsetools.h` it is built on.

`USB::getConfDescr` hands the parser each packet of the descriptor as it
arrives, so `Parse` can be called with any cut of the bytes. A descriptor is
a length, a type and a body. Configuration, interface and endpoint
descriptors are copied to `varBuffer` and read there, everything else is
skipped. `ParseDescriptor` keeps where it is in `stateParseDescr`; the
states 2 and 3 only fall through, so a call begins in one of three stages.

`varBuffer` has 16 bytes and nothing compares the length with that: a store
outside it is `none`. What the constructor leaves without a value
(`isGoodInterface`, `confValue`) is an argument of `DescParser.fresh`.
-/
import MidiSynth.Machine.Resumable
import MidiSynth.Usb.MidiDriver

namespace MidiSynth.Usb

open MidiSynth.Machine
open MidiSynth.Software (Byte)

/-! ## Constants -/

def descriptorConfiguration : Byte := 0x02

def descriptorInterface : Byte := 0x04

def descriptorEndpoint : Byte := 0x05

def classAudio : Byte := 0x01

def subclassMidiStreaming : Byte := 3

def transferTypeBulk : Byte := 0x02

/-- `bmUSB_TRANSFER_TYPE`. -/
def bmTransferType : Byte := 0x03

/-! ## The state -/

/-- `stateParseDescr` at the start of a call: 0, 1 or 4. -/
inductive ParseStage where
  | start
  | header
  | body
  deriving DecidableEq, Repr

/-- `MidiDescParser`, and the fields of the driver that its
`EndpointXtract` uses. `valParser.pBuf` and `theBuffer.pValue` are one
offset into `varBuffer`: the parser is initialised whenever they part. -/
structure DescParser where
  stage : ParseStage
  varBuffer : List.Vector Byte 16
  -- valParser
  pBuf : ℕ
  countDown : Byte
  valueSize : Byte
  -- theSkipper
  nStage : Bool
  skipLeft : BitVec 16
  -- the parser's own
  dscrLen : Byte
  dscrType : Byte
  nEPs : Byte
  isMidiSearch : Bool
  isGoodInterface : Bool
  confValue : Byte
  -- theXtractor
  bTransferTypeMask : Byte
  epInfo : Fin maxEndpoints → EpInfo

/-- The constructor. -/
def DescParser.fresh (modeMidi isGoodInterface : Bool) (confValue : Byte)
    (varBuffer : List.Vector Byte 16) (bTransferTypeMask : Byte)
    (epInfo : Fin maxEndpoints → EpInfo) : DescParser where
  stage := .start
  varBuffer := varBuffer
  pBuf := 0
  countDown := 0
  valueSize := 0
  nStage := false
  skipLeft := 0
  dscrLen := 0
  dscrType := 0
  nEPs := 0
  isMidiSearch := modeMidi
  isGoodInterface := isGoodInterface
  confValue := confValue
  bTransferTypeMask := bTransferTypeMask
  epInfo := epInfo

namespace DescParser

/-! ## The two helpers -/

/-- `MultiByteValueParser::Parse`. -/
def valParse (p : DescParser) : List Byte → Option (Bool × DescParser × List Byte)
  | [] =>
    if p.countDown = 0 then some (true, { p with countDown := p.valueSize }, [])
    else some (false, p, [])
  | b :: bs =>
    if p.countDown = 0 then some (true, { p with countDown := p.valueSize }, b :: bs)
    else do
      let buf ← store p.varBuffer (p.pBuf + (p.valueSize.toNat - p.countDown.toNat)) b
      valParse { p with varBuffer := buf, countDown := p.countDown - 1 } bs

/-- Stage 0 of `ByteSkipper::Skip`: a skip that is under way goes on. -/
def beginSkip (p : DescParser) (bytesToSkip : BitVec 16) : DescParser :=
  if p.nStage then p else { p with skipLeft := bytesToSkip, nStage := true }

/-- Stage 1. -/
def skipLoop (p : DescParser) : List Byte → Option (Bool × DescParser × List Byte)
  | [] => if p.skipLeft = 0 then some (true, { p with nStage := false }, []) else some (false, p, [])
  | b :: bs =>
    if p.skipLeft = 0 then some (true, { p with nStage := false }, b :: bs)
    else skipLoop { p with skipLeft := p.skipLeft - 1 } bs

/-- `ByteSkipper::Skip`. -/
def skip (p : DescParser) (bytesToSkip : BitVec 16) (bs : List Byte) :
    Option (Bool × DescParser × List Byte) :=
  (p.beginSkip bytesToSkip).skipLoop bs

/-! ## Endpoints -/

/-- `USBH_MIDI::EndpointXtract` on the endpoint descriptor in `varBuffer`. -/
def endpointXtract (p : DescParser) : Bool × (Fin maxEndpoints → EpInfo) :=
  let bEndpointAddress := p.varBuffer.get 2
  let bmAttributes := p.varBuffer.get 3
  let wMaxPacketSize : BitVec 16 := p.varBuffer.get 5 ++ p.varBuffer.get 4
  if bmAttributes &&& p.bTransferTypeMask = transferTypeBulk then
    let index := if bEndpointAddress &&& 0x80 = 0x80 then epDataInIndex else epDataOutIndex
    (true, Function.update p.epInfo index
      { p.epInfo index with
        epAddr := bEndpointAddress &&& 0x0F
        maxPktSize := if 64 < wMaxPacketSize then 64 else wMaxPacketSize.setWidth 8 })
  else (false, p.epInfo)

/-! ## One descriptor -/

/-- State 0: the two bytes of the header are wanted. -/
def beginHeader (p : DescParser) : DescParser :=
  if p.stage = .start then { p with pBuf := 0, valueSize := 2, countDown := 2, stage := .header }
  else p

/-- States 1 to 3 once the header is there: the body is wanted behind it. -/
def beginBody (p : DescParser) : DescParser :=
  let dscrLen := p.varBuffer.get 0
  let dscrType := p.varBuffer.get 1
  { p with
    dscrLen := dscrLen
    dscrType := dscrType
    isGoodInterface := if dscrType = descriptorInterface then false else p.isGoodInterface
    pBuf := 2
    valueSize := dscrLen - 2
    countDown := dscrLen - 2
    stage := .body }

/-- The end of a descriptor. -/
def endDescriptor (p : DescParser) : DescParser := { p with pBuf := 0, stage := .start }

/-- `bInterfaceClass` and `bInterfaceSubClass` are audio, MIDI streaming. -/
def isMidiInterface (p : DescParser) : Bool :=
  decide (p.varBuffer.get 5 = classAudio ∧ p.varBuffer.get 6 = subclassMidiStreaming)

/-- What state 4 does with a descriptor that is in `varBuffer`. -/
def takeDescriptor (p : DescParser) : DescParser :=
  if p.dscrType = descriptorConfiguration then { p with confValue := p.varBuffer.get 5 }
  else if p.dscrType = descriptorInterface then
    if p.isMidiSearch ∧ ¬ p.isMidiInterface then p
    else { p with isGoodInterface := true, nEPs := if p.nEPs < 2 then 0 else p.nEPs }
  else if p.isGoodInterface ∧ p.nEPs < 2 then
    let (found, epInfo) := p.endpointXtract
    { p with epInfo := epInfo, nEPs := if found then p.nEPs + 1 else p.nEPs }
  else p

/-- The descriptors that are copied to `varBuffer`. -/
def isRead (dscrType : Byte) : Bool :=
  dscrType = descriptorConfiguration ∨ dscrType = descriptorInterface ∨
    dscrType = descriptorEndpoint

/-- State 4. -/
def readBody : ParserStep DescParser Byte := fun p bs =>
  if isRead p.dscrType then
    (p.valParse bs).map fun (done, p, bs) =>
      if done then (true, p.takeDescriptor.endDescriptor, bs) else (false, p, bs)
  else
    (p.skip (p.dscrLen.setWidth 16 - 2) bs).map fun (done, p, bs) =>
      if done then (true, p.endDescriptor, bs) else (false, p, bs)

/-- `MidiDescParser::ParseDescriptor`. -/
def parseDescriptor : ParserStep DescParser Byte := fun p bs =>
  let p := p.beginHeader
  if p.stage = .header then do
    let (done, p, bs) ← p.valParse bs
    if done then readBody p.beginBody bs else some (false, p, bs)
  else readBody p bs

end DescParser

end MidiSynth.Usb
