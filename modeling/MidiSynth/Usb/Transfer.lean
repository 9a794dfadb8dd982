/-
MidiSynth.Usb.Transfer — bulk IN transfers: `USB::InTransfer` of
`include/Usb.cpp` and the endpoint record of `include/address.h`.

The MAX3421E host controller is not in the repository, so what it answers is
the input: one `InAnswer` for each IN packet dispatched, with every register
`InTransfer` reads after it. A controller that has given all its answers
NAKs, so a finite list stands for every exchange that comes to an end (a
controller that reports toggle errors for ever keeps `InTransfer` for ever,
and is left out).

`Transfer` is what the call gives back: the return code, the byte count
reported through `nbytesptr`, the bytes stored at `data`, and the endpoint
record. The count and the stored bytes are kept apart because the code does
so: `*nbytesptr += pktsize` adds the packet's size, whether or not the packet
fitted what was left of the buffer.
-/
import MidiSynth.Software.MainLoop

namespace MidiSynth.Usb

open MidiSynth.Software (Byte)

/-! ## Host result codes -/

def hrNAK : Byte := 0x04

def hrTOGERR : Byte := 0x06

/-- `rcode = 0xf0; //receive error`. -/
def receiveError : Byte := 0xF0

/-! ## Endpoints -/

/-- `struct EpInfo`. -/
structure EpInfo where
  epAddr : Byte
  maxPktSize : Byte
  bmSndToggle : Bool
  bmRcvToggle : Bool
  bmNakPower : BitVec 6
  deriving DecidableEq, Repr

/-! ## The transfer -/

/-- What the controller answers to one IN packet: what `dispatchPkt`
returns, RCVTOGRD in HRSL, RCVDAVIRQ in HIRQ, RCVBC, and what reading RCVFIFO
gives. -/
structure InAnswer where
  rcode : Byte
  rcvTogRd : Bool
  rcvDavIrq : Bool
  rcvBc : Byte
  rcvFifo : ℕ → Byte

/-- What a transfer gives back. -/
structure Transfer where
  rcode : Byte
  nbytes : BitVec 16
  stored : List Byte
  ep : EpInfo

/-- The size `InTransfer` takes a packet to have: never more than asked. -/
def packetSize (nbytes : BitVec 16) (rcvBc : Byte) : Byte :=
  if nbytes < rcvBc.setWidth 16 then nbytes.setWidth 8 else rcvBc

/-- `(pktsize > mem_left) ? mem_left : pktsize`, with `mem_left` in
`int16_t`. -/
def bytesToRead (nbytes got : BitVec 16) (pktsize : Byte) : ℕ :=
  let memLeft := nbytes - got
  let memLeft := if memLeft.slt 0 then 0 else memLeft
  min memLeft.toNat pktsize.toNat

/-- The loop of `USB::InTransfer`. `nbytes` is what was asked for, `got` is
`*nbytesptr`, `stored` what has been written from `data` on. -/
def inLoop (nbytes : BitVec 16) (ep : EpInfo) (got : BitVec 16) (stored : List Byte) :
    List InAnswer → Transfer
  | [] => ⟨hrNAK, got, stored, ep⟩
  | a :: as =>
    if a.rcode = hrTOGERR then
      -- the toggle is flipped wrong here so that the next packet has it right
      inLoop nbytes { ep with bmRcvToggle := !a.rcvTogRd } got stored as
    else if a.rcode ≠ 0 then ⟨a.rcode, got, stored, ep⟩
    else if !a.rcvDavIrq then ⟨receiveError, got, stored, ep⟩
    else
      let pktsize := packetSize nbytes a.rcvBc
      let read := bytesToRead nbytes got pktsize
      let stored := stored ++ (List.range read).map a.rcvFifo
      let got := got + pktsize.setWidth 16
      if pktsize < ep.maxPktSize ∨ nbytes ≤ got then
        ⟨0, got, stored, { ep with bmRcvToggle := a.rcvTogRd }⟩
      else inLoop nbytes ep got stored as

/-- `USB::InTransfer`. -/
def inTransfer (ep : EpInfo) (nbytes : BitVec 16) (answers : List InAnswer) : Transfer :=
  inLoop nbytes ep 0 [] answers

/-! ## What a transfer stores -/

theorem toNat_packetSize (nbytes : BitVec 16) (rcvBc : Byte) :
    (packetSize nbytes rcvBc).toNat = min nbytes.toNat rcvBc.toNat := by
  have hbc : rcvBc.toNat < 256 := rcvBc.isLt
  have hw : (rcvBc.setWidth 16).toNat = rcvBc.toNat := by
    rw [BitVec.toNat_setWidth]
    omega
  rw [packetSize]
  split
  · rename_i h
    rw [BitVec.lt_def, hw] at h
    rw [BitVec.toNat_setWidth]
    omega
  · rename_i h
    rw [BitVec.lt_def, hw] at h
    omega

/-- As long as the count has not passed `nbytes`, the signed difference is
the room left. -/
theorem bytesToRead_eq {nbytes : BitVec 16} (got : BitVec 16) (hn : nbytes.toNat < 2 ^ 15)
    (hle : got.toNat ≤ nbytes.toNat) (pktsize : Byte) :
    bytesToRead nbytes got pktsize = min (nbytes.toNat - got.toNat) pktsize.toNat := by
  have hsub : (nbytes - got).toNat = nbytes.toNat - got.toNat :=
    BitVec.toNat_sub_of_le (BitVec.le_def.mpr hle)
  have hpos : (nbytes - got).slt 0 = false := by
    rw [BitVec.slt_eq_decide, BitVec.toInt_eq_toNat_of_lt (by omega)]
    exact decide_eq_false (Int.not_lt.mpr (Int.natCast_nonneg _))
  rw [bytesToRead, hpos, ← hsub]
  rfl

/-- `*nbytesptr += pktsize` does not wrap below `2 ^ 15`. -/
theorem toNat_got_add {nbytes : BitVec 16} (got : BitVec 16) (hn : nbytes.toNat < 2 ^ 15)
    (hle : got.toNat ≤ nbytes.toNat) (pktsize : Byte) :
    (got + pktsize.setWidth 16).toNat = got.toNat + pktsize.toNat := by
  rw [BitVec.toNat_add, BitVec.toNat_setWidth]
  omega

/-- The loop stores as many bytes as it counts, but never more than asked
for. -/
theorem inLoop_stored {nbytes : BitVec 16} (hn : nbytes.toNat < 2 ^ 15) (ep : EpInfo)
    (got : BitVec 16) (stored : List Byte) (hle : got.toNat ≤ nbytes.toNat)
    (hlen : stored.length = got.toNat) (answers : List InAnswer) :
    let t := inLoop nbytes ep got stored answers
    t.stored.length = min nbytes.toNat t.nbytes.toNat := by
  induction answers generalizing ep got stored with
  | nil => exact hlen.trans (Nat.min_eq_right hle).symm
  | cons a as ih =>
    have hfail : stored.length = min nbytes.toNat got.toNat :=
      hlen.trans (Nat.min_eq_right hle).symm
    have hsize := toNat_packetSize nbytes a.rcvBc
    have hgot := toNat_got_add got hn hle (packetSize nbytes a.rcvBc)
    have hread := bytesToRead_eq got hn hle (packetSize nbytes a.rcvBc)
    unfold inLoop
    split
    · exact ih _ _ _ hle hlen
    split
    · exact hfail
    split
    · exact hfail
    have hstored : (stored ++ (List.range (bytesToRead nbytes got (packetSize nbytes a.rcvBc))).map
        a.rcvFifo).length = min nbytes.toNat (got.toNat + (packetSize nbytes a.rcvBc).toNat) := by
      rw [List.length_append, List.length_map, List.length_range, hread, hlen]
      omega
    dsimp only
    split
    · rw [hstored, hgot]
    · rename_i hmore
      have hlt : ¬ nbytes.toNat ≤ got.toNat + (packetSize nbytes a.rcvBc).toNat := fun h =>
        hmore (Or.inr (BitVec.le_def.mpr (hgot ▸ h)))
      exact ih _ _ _ (by omega) (by rw [hstored, hgot]; omega)

/-- A transfer never writes past the `nbytes` bytes it was given. -/
theorem inTransfer_stored_le {nbytes : BitVec 16} (hn : nbytes.toNat < 2 ^ 15) (ep : EpInfo)
    (answers : List InAnswer) :
    (inTransfer ep nbytes answers).stored.length ≤ nbytes.toNat := by
  have h := inLoop_stored hn ep 0 [] (Nat.zero_le _) rfl answers
  exact h.le.trans (Nat.min_le_left _ _)

end MidiSynth.Usb
