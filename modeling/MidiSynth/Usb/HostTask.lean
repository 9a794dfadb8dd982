/-
MidiSynth.Usb.HostTask — attaching, configuring and releasing the device:
`USB::Task`, `Configuring`, `AttemptConfig` and `DefaultAddressing` of
`include/Usb.cpp`, `Init` and `Release` of `include/usbh_midi.cpp`.

`main` calls `Task` once each time round its loop. `Task` looks at the bus
lines and moves the state machine one step; in `USB_STATE_CONFIGURING` the
step is the whole enumeration of the device. The MIDI driver is the only one
registered, and it inherits `VIDPIDOK`, `DEVCLASSOK`, `ConfigureDevice` and
`Poll` from `USBDeviceConfig`: the first two refuse every device, so it is
only tried blindly, and the last two do nothing.

What the outside answers is an argument: the state of the lines, the readings
of `millis()`, the controller's registers, and the answers to every control
request. Bus resets and `delay` calls leave no trace in the state. `none` is
an access outside an array, as everywhere in this driver.

  §1 The state.
  §2 `Release` and the device table.
  §3 `Init`, stage by stage.
  §4 `Configuring`.
  §5 `Task`.
-/
import MidiSynth.Usb.AddressPool
import MidiSynth.Usb.Control

namespace MidiSynth.Usb

open MidiSynth.Machine
open MidiSynth.Software (Byte Word)

/-! ## §1 The state -/

/-- `usb_task_state`. -/
inductive TaskState where
  | detachedInitialize
  | waitForDevice
  | illegal
  | settle
  | resetDevice
  | waitResetComplete
  | waitSof
  | waitReset
  | configuring
  | running
  | error
  deriving DecidableEq, Repr

/-- `(usb_task_state & USB_STATE_MASK) == USB_STATE_DETACHED`. -/
def TaskState.detached : TaskState → Bool
  | .detachedInitialize | .waitForDevice | .illegal => true
  | _ => false

/-- `getVbusState()`. -/
inductive VbusState where
  | se0
  | se1
  | fshost
  | lshost
  deriving DecidableEq, Repr

/-- The host: `class USB` with the MIDI driver registered. -/
structure Host where
  state : TaskState
  delay : Word
  usbError : Byte
  pool : AddressPool
  midi : Midi

def errDeviceNotSupported : Byte := 0xD1

def errInitIncomplete : Byte := 0xD2

def errOutOfAddressSpace : Byte := 0xD4

def errAddressNotFound : Byte := 0xD6

def errAlreadyInUse : Byte := 0xD9

def errEpNotFound : Byte := 0xDB

def hrJERR : Byte := 0x0D

/-- `dev0ep`, and the record `Configuring` puts in its place. -/
def dev0ep : EpInfo := ⟨0, 8, false, false, 15⟩

/-- The constructors. What they leave without a value is an argument. -/
def Host.fresh (midi : Midi) : Host where
  state := .detachedInitialize
  delay := 0
  usbError := 0
  pool := AddressPool.fresh
  midi := { midi with
    bAddress := 0
    bPollEnable := false
    readPtr := 0
    epInfo := fun i => { midi.epInfo i with
      epAddr := 0
      maxPktSize := if i = epControlIndex then 8 else 0
      bmNakPower := if i = epControlIndex then 15 else 1 } }

namespace Host

/-! ## §2 The device table -/

/-- `USBH_MIDI::Release`. -/
def release (h : Host) : Host :=
  { h with
    pool := h.pool.freeAddress h.midi.bAddress
    midi := { h.midi with bAddress := 0, bPollEnable := false, readPtr := 0 } }

def setEntry (h : Host) (i : Fin (numAddresses + 1)) (d : UsbDevice) : Host :=
  { h with pool := Function.update h.pool i d }

def setLowspeed (h : Host) (i : Fin (numAddresses + 1)) (lowspeed : Bool) : Host :=
  h.setEntry i { h.pool i with lowspeed := lowspeed }

/-- The records `epinfo` points to. -/
def table (h : Host) : EpTable → List EpInfo
  | .dev0ep => [dev0ep]
  | .midi => (List.finRange maxEndpoints).map h.midi.epInfo

/-- `SetAddress`: the record of an endpoint, or an error code. -/
def setAddress (h : Host) (addr ep : Byte) : Except Byte EpInfo :=
  match h.pool.getUsbDevicePtr addr with
  | none => .error errAddressNotFound
  | some i =>
    match ((h.table (h.pool i).epinfo).take (h.pool i).epcount.toNat).find? (·.epAddr == ep) with
    | none => .error errEpNotFound
    | some e => .ok e

/-- `setEpInfoEntry` with the driver's table. -/
def setEpInfoEntry (h : Host) (addr epcount : Byte) : Byte × Host :=
  match h.pool.getUsbDevicePtr addr with
  | none => (errAddressNotFound, h)
  | some i =>
    (0, h.setEntry i { h.pool i with devAddress := addr, epinfo := .midi, epcount := epcount })

/-- `getDevDescr` at an address. -/
def devDescrAt (h : Host) (addr : Byte) (nbytes : BitVec 16)
    (buf : List.Vector Byte devDescrSize) (a : CtrlAnswers) :
    Option (Byte × List.Vector Byte devDescrSize) :=
  match h.setAddress addr 0 with
  | .error e => some (e, buf)
  | .ok ep => getDevDescr ep nbytes buf a

/-- A request without data at an address: `setAddr` and `setConf`. -/
def writeAt (h : Host) (addr : Byte) (a : CtrlAnswers) : Byte :=
  match h.setAddress addr 0 with
  | .error e => e
  | .ok _ => ctrlWrite a

/-! ## §3 `Init` -/

/-- What one call of `Init` meets: the answers to its requests, and what
`buf` holds before. -/
structure InitAnswers where
  buf : List.Vector Byte devDescrSize
  firstDescr : CtrlAnswers
  setAddr : CtrlAnswers
  devDescr : CtrlAnswers
  conf : Bool → ℕ → ConfAnswers
  setConf : CtrlAnswers

/-- For reconnect. -/
def resetToggles (h : Host) : Host :=
  { h with midi := { h.midi with
      epInfo := fun i => if i = epControlIndex then h.midi.epInfo epControlIndex
        else { h.midi.epInfo i with bmSndToggle := false, bmRcvToggle := false } } }

/-- The first request, with the driver's table at address 0 for its time. -/
def firstDescr (h : Host) (lowspeed : Bool) (a : InitAnswers) :
    Option (Byte × List.Vector Byte devDescrSize × Host) := do
  let old := (h.pool rootIndex).epinfo
  let h := h.setEntry rootIndex { h.pool rootIndex with epinfo := .midi, lowspeed := lowspeed }
  let (rcode, buf) ← h.devDescrAt 0 8 a.buf a.firstDescr
  return (rcode, buf, h.setEntry rootIndex { h.pool rootIndex with epinfo := old })

/-- The new address. -/
def assignAddress (h : Host) (lowspeed : Bool) (buf : List.Vector Byte devDescrSize)
    (a : InitAnswers) : Byte × Host :=
  let (bAddress, pool) := h.pool.allocAddress 0 0
  let h := { h with pool := pool, midi := { h.midi with bAddress := bAddress } }
  if bAddress = 0 then (errOutOfAddressSpace, h)
  else
    let ep0 := { h.midi.epInfo epControlIndex with
      maxPktSize := (Usb.devDescr buf).bMaxPacketSize0 }
    let h := { h with
      midi := { h.midi with epInfo := Function.update h.midi.epInfo epControlIndex ep0 } }
    let rcode := h.writeAt 0 a.setAddr
    let h := h.setLowspeed rootIndex false
    if rcode ≠ 0 then
      (rcode, { h with
        pool := h.pool.freeAddress bAddress
        midi := { h.midi with bAddress := 0 } })
    else
      match h.pool.getUsbDevicePtr bAddress with
      | none => (errAddressNotFound, h)
      | some i => (0, h.setLowspeed i lowspeed)

/-- `setupDeviceSpecific`: the Novation devices whose endpoints are not marked
as bulk. -/
def setupDeviceSpecific (vid pid : BitVec 16) (mask : Byte) : Byte :=
  if vid = 0x1235 then
    if pid = 0x20 ∨ pid = 0x36 ∨ pid = 0x51 ∨ pid = 0x69 then 2
    else if 0x30 ≤ pid ∧ pid ≤ 0x32 ∨ pid = 0x35 ∨ 0x7B ≤ pid ∧ pid ≤ 0x7D ∨ pid = 0x102 ∨
        0x113 ≤ pid ∧ pid ≤ 0x122 ∨ 0x134 ≤ pid ∧ pid ≤ 0x137 then 2
    else mask
  else mask

/-- The second request, and the driver's table at the new address. Gives the
number of configurations. -/
def readDevice (h : Host) (buf : List.Vector Byte devDescrSize) (a : InitAnswers) :
    Option (Byte × Byte × Host) := do
  let (rcode, buf) ← h.devDescrAt h.midi.bAddress (BitVec.ofNat 16 devDescrSize) buf a.devDescr
  if rcode ≠ 0 then return (rcode, 0, h.release)
  else
    let udd := Usb.devDescr buf
    let h := { h with midi := { h.midi with vid := udd.idVendor, pid := udd.idProduct } }
    let (rcode, h) := h.setEpInfoEntry h.midi.bAddress 1
    if rcode ≠ 0 then return (rcode, 0, h.release)
    else
      return (0, udd.bNumConfigurations, { h with midi := { h.midi with
        bTransferTypeMask := setupDeviceSpecific h.midi.vid h.midi.pid bmTransferType } })

/-- One pass over the configurations from the `i`-th on, `left` of them. Gives
the number of endpoints, the control endpoint counted, and the configuration
value. -/
def findEndpoints (modeMidi : Bool) (a : InitAnswers) (bNumEP bConfNum : Byte) :
    ℕ → ℕ → Host → Option (Byte × Byte × Byte × Host)
  | _, 0, h => some (0, bNumEP, bConfNum, h)
  | i, left + 1, h =>
    let c := a.conf modeMidi i
    let p := DescParser.fresh modeMidi c.isGoodInterface c.confValue c.varBuffer
      h.midi.bTransferTypeMask h.midi.epInfo
    match h.setAddress h.midi.bAddress 0 with
    | .error e => some (e, bNumEP, bConfNum, h.release)
    | .ok ep => do
      let (rcode, p) ← getConfDescr ep p c
      let h := { h with midi := { h.midi with epInfo := p.epInfo } }
      if rcode ≠ 0 then return (rcode, bNumEP, bConfNum, h.release)
      else
        let bNumEP := bNumEP + p.nEPs
        if 1 < bNumEP then return (0, bNumEP, p.confValue, h)
        else findEndpoints modeMidi a bNumEP bConfNum (i + 1) left h

/-- Step 2: any interface will do if there is no MIDI interface. -/
def findVendor (a : InitAnswers) (numOfConf bNumEP bConfNum : Byte) (h : Host) :
    Option (Byte × Byte × Byte × Host) :=
  if bNumEP = 1 then findEndpoints false a bNumEP bConfNum 0 numOfConf.toNat h
  else some (0, bNumEP, bConfNum, h)

/-- The two passes, the driver's table and the configuration value. -/
def configure (h : Host) (numOfConf : Byte) (a : InitAnswers) : Option (Byte × Host) := do
  let (rcode, bNumEP, bConfNum, h) ← findEndpoints true a 1 0 0 numOfConf.toNat h
  if rcode ≠ 0 then return (rcode, h)
  else
    let (rcode, bNumEP, _, h) ← findVendor a numOfConf bNumEP bConfNum h
    if rcode ≠ 0 then return (rcode, h)
    else if bNumEP < 2 then return (0xFF, h.release)
    else
      let (_, h) := h.setEpInfoEntry h.midi.bAddress 3
      let rcode := h.writeAt h.midi.bAddress a.setConf
      if rcode ≠ 0 then return (rcode, h.release)
      else return (0, { h with midi := { h.midi with bPollEnable := true } })

/-- `USBH_MIDI::Init`, at the root port. -/
def init (h : Host) (lowspeed : Bool) (a : InitAnswers) : Option (Byte × Host) :=
  let h := h.resetToggles
  if h.midi.bAddress ≠ 0 then some (errAlreadyInUse, h)
  else do
    let (rcode, buf, h) ← h.firstDescr lowspeed a
    if rcode ≠ 0 then return (rcode, h.release)
    else
      let (rcode, h) := h.assignAddress lowspeed buf a
      if rcode ≠ 0 then return (rcode, h)
      else
        let (rcode, numOfConf, h) ← h.readDevice buf a
        if rcode ≠ 0 then return (rcode, h) else h.configure numOfConf a

/-! ## §4 `Configuring` -/

/-- What one call of `Configuring` meets: the answers to its own request, to
each attempt of the driver, and to the request of `DefaultAddressing`. -/
structure ConfiguringAnswers where
  buf : List.Vector Byte devDescrSize
  devDescr : CtrlAnswers
  attempts : ℕ → InitAnswers
  setAddr : CtrlAnswers

/-- `AttemptConfig` with `left` retries left: `hrJERR` is tried again. -/
def attemptConfig (lowspeed : Bool) (a : ℕ → InitAnswers) : ℕ → Host → Option (Byte × Host)
  | 0, h => h.init lowspeed (a 0)
  | left + 1, h => do
    let (rcode, h) ← h.init lowspeed (a (left + 1))
    if rcode = hrJERR then attemptConfig lowspeed a left h else return (rcode, h)

/-- `DefaultAddressing`. -/
def defaultAddressing (h : Host) (lowspeed : Bool) (a : CtrlAnswers) : Byte × Host :=
  let h := h.setLowspeed rootIndex lowspeed
  let (bAddress, pool) := h.pool.allocAddress 0 0
  let h := { h with pool := pool }
  if bAddress = 0 then (errOutOfAddressSpace, h)
  else
    match h.pool.getUsbDevicePtr bAddress with
    | none => (errAddressNotFound, h)
    | some i =>
      let h := h.setLowspeed i lowspeed
      let rcode := h.writeAt 0 a
      if rcode ≠ 0 then (rcode, { h with pool := h.pool.freeAddress bAddress }) else (0, h)

/-- `Configuring` at the root port. -/
def configuring (h : Host) (lowspeed : Bool) (a : ConfiguringAnswers) : Option (Byte × Host) := do
  let (rcode, _) ← getDevDescr dev0ep (BitVec.ofNat 16 devDescrSize) a.buf a.devDescr
  let h := h.setLowspeed rootIndex lowspeed
  if rcode ≠ 0 then return (rcode, h)
  -- no driver asks for the device; blindly attempt the one there is
  else if h.midi.bAddress ≠ 0 then return h.defaultAddressing lowspeed a.setAddr
  else
    let (rcode, h) ← attemptConfig lowspeed a.attempts 3 h
    if rcode ≠ errDeviceNotSupported ∧ rcode ≠ errAlreadyInUse then return (rcode, h)
    else return h.defaultAddressing lowspeed a.setAddr

/-! ## §5 `Task` -/

/-- What one call of `Task` meets: the lines, the readings of `millis()` where
the device is seen, where a delay is waited for and where the frames start,
`bmBUSRST` in HCTL, `bmFRAMEIRQ` in HIRQ, and the answers to `Configuring`. -/
structure TaskInput where
  vbus : VbusState
  attachMillis : Word
  millis : Word
  frameMillis : Word
  busRst : Bool
  frameIrq : Bool
  answers : ConfiguringAnswers

/-- `USB_SETTLE_DELAY`. -/
def settleDelay : Word := 200

/-- The first `switch` of `Task`. -/
def lineChange (h : Host) (t : TaskInput) : Host :=
  match t.vbus with
  | .se1 => { h with state := .illegal }
  | .se0 => if h.state.detached then h else { h with state := .detachedInitialize }
  | .fshost | .lshost =>
    if h.state.detached then { h with delay := t.attachMillis + settleDelay, state := .settle }
    else h

/-- `(int32_t)((uint32_t)millis() - delay) >= 0L`. -/
def waited (h : Host) (millis : Word) : Bool := !(millis - h.delay).slt 0

/-- `USB_STATE_CONFIGURING`. -/
def configureStep (h : Host) (t : TaskInput) : Option Host := do
  let (rcode, h) ← h.configuring (t.vbus = .lshost) t.answers
  if rcode ≠ 0 then
    if rcode ≠ errInitIncomplete then return { h with usbError := rcode, state := .error }
    else return h
  else return { h with state := .running }

/-- The second `switch` of `Task`. -/
def stateStep (h : Host) (t : TaskInput) : Option Host :=
  match h.state with
  | .detachedInitialize => some { h.release with state := .waitForDevice }
  | .waitForDevice | .illegal => some h
  | .settle => some (if h.waited t.millis then { h with state := .waitResetComplete } else h)
  | .resetDevice => some { h with state := .waitResetComplete }
  | .waitResetComplete => some (if t.busRst then h else { h with state := .waitSof })
  | .waitSof =>
    some (if t.frameIrq then { h with state := .waitReset, delay := t.frameMillis + 20 } else h)
  | .waitReset =>
    if h.waited t.millis then configureStep { h with state := .configuring } t else some h
  | .configuring => h.configureStep t
  | .running | .error => some h

/-- `USB::Task`. -/
def task (h : Host) (t : TaskInput) : Option Host := (h.lineChange t).stateStep t

end Host

end MidiSynth.Usb
