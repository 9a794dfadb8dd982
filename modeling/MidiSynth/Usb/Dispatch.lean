/-
MidiSynth.Usb.Dispatch — one packet on the bus: `USB::dispatchPkt` of
`include/Usb.cpp`.

A packet that the device does not accept is launched again: after a NAK up
to the endpoint's limit, after a bus timeout up to `USB_RETRY_LIMIT`, and
only as long as `USB_XFER_TIMEOUT` is not over. Any other result ends it.

The input is what HRSL holds after each launch, for as long as the clock
allows another one. §2 bounds the launches that a limit allows.
-/
import MidiSynth.Usb.Transfer

namespace MidiSynth.Usb

open MidiSynth.Software (Byte)

/-! ## §1 The packet -/

def hrTIMEOUT : Byte := 0x0E

/-- `USB_RETRY_LIMIT`. -/
def retryLimit : Byte := 3

/-- `USB_NAK_MAX_POWER`. -/
def nakMaxPower : BitVec 6 := 15

/-- `*nak_limit`, as `SetAddress` computes it. 0 means that NAKs are not
counted. -/
def EpInfo.nakLimit (ep : EpInfo) : BitVec 16 :=
  (1 <<< (if nakMaxPower < ep.bmNakPower then nakMaxPower else ep.bmNakPower).toNat) - 1

/-- `regRd(rHRSL) & 0x0f`. -/
def hrslt (hrsl : Byte) : Byte := hrsl &&& 0x0F

/-- What `dispatchPkt` returns, and how often the packet was launched. -/
structure Dispatched where
  rcode : Byte
  launches : ℕ
  deriving DecidableEq, Repr

/-- One more launch. -/
def Dispatched.again (d : Dispatched) : Dispatched := { d with launches := d.launches + 1 }

/-- The loop of `dispatchPkt`. -/
def dispatchLoop (nakLimit : BitVec 16) (rcode retryCount : Byte) (nakCount : BitVec 16) :
    List Byte → Dispatched
  | [] => ⟨rcode, 0⟩
  | hrsl :: hrsls =>
    let rcode := hrslt hrsl
    if rcode = hrNAK then
      if nakLimit ≠ 0 ∧ nakCount + 1 = nakLimit then ⟨rcode, 1⟩
      else (dispatchLoop nakLimit rcode retryCount (nakCount + 1) hrsls).again
    else if rcode = hrTIMEOUT then
      if retryCount + 1 = retryLimit then ⟨rcode, 1⟩
      else (dispatchLoop nakLimit rcode (retryCount + 1) nakCount hrsls).again
    else ⟨rcode, 1⟩

/-- `USB::dispatchPkt`. -/
def dispatchPkt (nakLimit : BitVec 16) (hrsls : List Byte) : Dispatched :=
  dispatchLoop nakLimit 0 0 0 hrsls

/-! ## §2 How often a packet is launched -/

theorem toNat_succ_of_lt {w : ℕ} {n limit : BitVec w} (hn : n.toNat < limit.toNat) :
    (n + 1).toNat = n.toNat + 1 := by
  have hlimit := limit.isLt
  rcases w with _ | w
  · omega
  · have hone : (1 : BitVec (w + 1)).toNat = 1 := by simp
    rw [BitVec.toNat_add, hone]
    exact Nat.mod_eq_of_lt (by omega)

theorem dispatchLoop_launches {nakLimit : BitVec 16} (rcode : Byte) {retryCount : Byte}
    {nakCount : BitVec 16} (hretry : retryCount.toNat < retryLimit.toNat)
    (hnak : nakCount.toNat < nakLimit.toNat) (hrsls : List Byte) :
    (dispatchLoop nakLimit rcode retryCount nakCount hrsls).launches + nakCount.toNat
      + retryCount.toNat + 1 ≤ nakLimit.toNat + retryLimit.toNat := by
  have hne : ∀ {w : ℕ} {n limit : BitVec w}, n.toNat < limit.toNat → n + 1 ≠ limit →
      n.toNat + 1 < limit.toNat := by
    intro w n limit hlt hneq
    have hsucc := toNat_succ_of_lt hlt
    refine Nat.lt_of_le_of_ne hlt fun heq => hneq (BitVec.eq_of_toNat_eq (hsucc.trans heq))
  induction hrsls generalizing rcode retryCount nakCount with
  | nil =>
    show 0 + _ + _ + 1 ≤ _
    omega
  | cons hrsl hrsls ih =>
    unfold dispatchLoop
    dsimp only
    split
    · split
      · show 1 + _ + _ + 1 ≤ _
        omega
      · rename_i hmore
        have hpos : nakLimit ≠ 0 := fun h => by simp [h] at hnak
        have hlt := hne hnak (fun h => hmore ⟨hpos, h⟩)
        have hsucc := toNat_succ_of_lt hnak
        have hrest := ih (hrslt hrsl) hretry (hsucc.trans_lt hlt)
        simp only [Dispatched.again]
        omega
    split
    · split
      · show 1 + _ + _ + 1 ≤ _
        omega
      · rename_i hmore
        have hlt := hne hretry hmore
        have hsucc := toNat_succ_of_lt hretry
        have hrest := ih (hrslt hrsl) (hsucc.trans_lt hlt) hnak
        simp only [Dispatched.again]
        omega
    · show 1 + _ + _ + 1 ≤ _
      omega

/-- A limit of `n` NAKs allows `n + 2` launches, however often the clock would
allow another. -/
theorem dispatchPkt_launches {nakLimit : BitVec 16} (hpos : nakLimit ≠ 0) (hrsls : List Byte) :
    (dispatchPkt nakLimit hrsls).launches ≤ nakLimit.toNat + 2 := by
  have hnak : (0 : BitVec 16).toNat < nakLimit.toNat :=
    Nat.pos_of_ne_zero fun h => hpos (BitVec.eq_of_toNat_eq h)
  have hlaunches := dispatchLoop_launches 0 (show (0 : Byte).toNat < retryLimit.toNat by decide) hnak
    hrsls
  have hlimit : retryLimit.toNat = 3 := rfl
  rw [dispatchPkt]
  omega

theorem dispatchPkt_launches_timeouts :
    (dispatchPkt 1 (List.replicate 9 hrTIMEOUT)).launches ≤ (1 : BitVec 16).toNat + 2 :=
  dispatchPkt_launches (by decide) _

/-- With a limit of one NAK, the first one is the last launch. -/
example : dispatchPkt 1 [hrNAK, hrNAK, 0] = ⟨hrNAK, 1⟩ := by decide

end MidiSynth.Usb
