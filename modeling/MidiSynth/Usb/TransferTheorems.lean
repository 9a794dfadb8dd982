/-
MidiSynth.Usb.TransferTheorems — `InTransfer` against the device.

A device sends the bytes of a transfer in packets of its endpoint's size,
the last one shorter unless it fills the transfer. Packets whose toggle was
wrong are sent again. `Sends` says this of the controller's answers, and
`inTransfer_sends` that `InTransfer` then returns those bytes: every one
once, in order.
-/
import MidiSynth.Usb.Transfer

namespace MidiSynth.Usb

open MidiSynth.Software (Byte)

/-- `InTransfer` goes on after a toggle error and never returns it, so
`ctrlReq` never sees one. -/
theorem inTransfer_rcode_ne_togErr (ep : EpInfo) (nbytes : BitVec 16) (answers : List InAnswer) :
    (inTransfer ep nbytes answers).rcode ≠ hrTOGERR := by
  suffices h : ∀ ep got stored, (inLoop nbytes ep got stored answers).rcode ≠ hrTOGERR from h ep 0 []
  induction answers with
  | nil =>
    intro ep got stored
    show hrNAK ≠ hrTOGERR
    decide
  | cons a as ih =>
    intro ep got stored
    unfold inLoop
    split
    · exact ih _ _ _
    split
    · assumption
    split
    · show receiveError ≠ hrTOGERR
      decide
    dsimp only
    split
    · show (0 : Byte) ≠ hrTOGERR
      decide
    · exact ih _ _ _

/-- The answer brings these bytes. -/
structure Carries (a : InAnswer) (bs : List Byte) : Prop where
  rcode : a.rcode = 0
  rcvDavIrq : a.rcvDavIrq = true
  rcvBc : a.rcvBc.toNat = bs.length
  rcvFifo : (List.range bs.length).map a.rcvFifo = bs

/-- A packet that fits the rest of the buffer is read and counted whole. -/
theorem Carries.sizes {a : InAnswer} {packet : List Byte} (ha : Carries a packet)
    {nbytes got : BitVec 16} {room : ℕ} (hn : nbytes.toNat < 2 ^ 15)
    (hgot : got.toNat + room = nbytes.toNat) (hroom : packet.length ≤ room) :
    (packetSize nbytes a.rcvBc).toNat = packet.length ∧
      (got + (packetSize nbytes a.rcvBc).setWidth 16).toNat = got.toNat + packet.length ∧
      bytesToRead nbytes got (packetSize nbytes a.rcvBc) = packet.length := by
  have hsize : (packetSize nbytes a.rcvBc).toNat = packet.length := by
    rw [toNat_packetSize, ha.rcvBc]
    omega
  have hadd := toNat_got_add got hn (by omega) (packetSize nbytes a.rcvBc)
  have hread := bytesToRead_eq got hn (by omega) (packetSize nbytes a.rcvBc)
  exact ⟨hsize, by rw [hadd, hsize], by omega⟩

/-- A transfer of up to `room` bytes in packets of `m`: full packets while
there is room for more, then a short one or the one that fills it. A packet
whose toggle was wrong is sent again. -/
inductive Sends (m : ℕ) : ℕ → List Byte → List InAnswer → Prop where
  | again {room : ℕ} {bs : List Byte} {a : InAnswer} {as : List InAnswer} (ha : a.rcode = hrTOGERR)
      (has : Sends m room bs as) : Sends m room bs (a :: as)
  | last {room : ℕ} {bs : List Byte} {a : InAnswer} (ha : Carries a bs) (hm : bs.length ≤ m)
      (hroom : bs.length ≤ room) (hend : bs.length < m ∨ bs.length = room) : Sends m room bs [a]
  | more {room : ℕ} {packet bs : List Byte} {a : InAnswer} {as : List InAnswer}
      (ha : Carries a packet) (hm : packet.length = m) (hroom : m < room)
      (has : Sends m (room - m) bs as) : Sends m room (packet ++ bs) (a :: as)

/-- Every packet of a transfer is as small as the endpoint's size. -/
theorem Sends.packet_le {m room : ℕ} {bs : List Byte} {answers : List InAnswer}
    (h : Sends m room bs answers) : ∀ a ∈ answers, a.rcode = 0 → a.rcvBc.toNat ≤ m := by
  induction h with
  | again ha _ ih =>
    refine List.forall_mem_cons.mpr ⟨fun hzero => ?_, ih⟩
    rw [ha] at hzero
    cases hzero
  | last ha hm _ _ =>
    intro a hmem _
    rw [List.mem_singleton.mp hmem, ha.rcvBc]
    exact hm
  | more ha hm _ _ ih => exact List.forall_mem_cons.mpr ⟨fun _ => (ha.rcvBc.trans hm).le, ih⟩

/-- The size in the record does for a device with packets of `m`: it is the
device's, or the transfer is filled and no full packet looks short. -/
def Serves (ep : EpInfo) (m room : ℕ) (bs : List Byte) : Prop :=
  ep.maxPktSize.toNat = m ∨ bs.length = room ∧ (ep.maxPktSize.toNat ≤ m ∨ room ≤ m)

/-- **`InTransfer` returns what the device sends**: toggle errors neither lose
nor double a byte. -/
theorem inLoop_sends {m room : ℕ} {bs : List Byte} {answers : List InAnswer}
    (h : Sends m room bs answers) {nbytes : BitVec 16} (hn : nbytes.toNat < 2 ^ 15) {ep : EpInfo}
    (hep : Serves ep m room bs) {got : BitVec 16} (hgot : got.toNat + room = nbytes.toNat)
    (stored : List Byte) :
    let t := inLoop nbytes ep got stored answers
    t.rcode = 0 ∧ t.nbytes.toNat = got.toNat + bs.length ∧ t.stored = stored ++ bs := by
  induction h generalizing ep got stored with
  | again ha _ ih =>
    unfold inLoop
    rw [if_pos ha]
    refine ih ?_ hgot stored
    exact hep
  | @last room bs a ha hm hroom hend =>
    obtain ⟨hlen, hadd, hall⟩ := ha.sizes hn hgot hroom
    have hstop : packetSize nbytes a.rcvBc < ep.maxPktSize ∨
        nbytes ≤ got + (packetSize nbytes a.rcvBc).setWidth 16 := by
      rw [BitVec.lt_def, BitVec.le_def, hadd]
      rcases hep with hrecord | ⟨hfull, -⟩ <;> omega
    have htog : ¬ (0 : Byte) = hrTOGERR := by decide
    unfold inLoop
    simp only [if_neg htog, ha.rcode, ha.rcvDavIrq, ne_eq, not_true_eq_false, if_false,
      Bool.not_true, Bool.false_eq_true, if_pos hstop, hall, ha.rcvFifo, hadd]
    exact ⟨trivial, trivial, trivial⟩
  | @more room packet bs a as ha hm hroom _ ih =>
    obtain ⟨hlen, hadd, hall⟩ := ha.sizes hn hgot (by omega)
    rw [Serves, List.length_append] at hep
    have hle : ep.maxPktSize.toNat ≤ m := by omega
    have hrest : Serves ep m (room - m) bs := by
      rw [Serves]
      omega
    have hgo : ¬ (packetSize nbytes a.rcvBc < ep.maxPktSize ∨
        nbytes ≤ got + (packetSize nbytes a.rcvBc).setWidth 16) := by
      rw [BitVec.lt_def, BitVec.le_def, hadd]
      omega
    have htog : ¬ (0 : Byte) = hrTOGERR := by decide
    unfold inLoop
    simp only [if_neg htog, ha.rcode, ha.rcvDavIrq, ne_eq, not_true_eq_false, if_false,
      Bool.not_true, Bool.false_eq_true, if_neg hgo, hall, ha.rcvFifo]
    have hleft : (got + (packetSize nbytes a.rcvBc).setWidth 16).toNat + (room - m)
        = nbytes.toNat := by omega
    obtain ⟨hcode, hcount, hstored⟩ := ih hrest hleft (stored ++ packet)
    refine ⟨hcode, ?_, ?_⟩
    · rw [hcount, hadd, List.length_append, Nat.add_assoc]
    · rw [hstored, List.append_assoc]

theorem inTransfer_sends {m : ℕ} {bs : List Byte} {answers : List InAnswer} {ep : EpInfo}
    {nbytes : BitVec 16} (hn : nbytes.toNat < 2 ^ 15) (h : Sends m nbytes.toNat bs answers)
    (hep : Serves ep m nbytes.toNat bs) :
    let t := inTransfer ep nbytes answers
    t.rcode = 0 ∧ t.nbytes.toNat = bs.length ∧ t.stored = bs := by
  have hzero : (0 : BitVec 16).toNat + nbytes.toNat = nbytes.toNat := Nat.zero_add _
  obtain ⟨hcode, hcount, hstored⟩ := inLoop_sends h hn hep hzero []
  exact ⟨hcode, hcount.trans (Nat.zero_add _), hstored⟩

theorem Sends.length_le {m room : ℕ} {bs : List Byte} {answers : List InAnswer}
    (h : Sends m room bs answers) : bs.length ≤ room := by
  induction h with
  | again _ _ ih => exact ih
  | last _ _ hroom _ => exact hroom
  | more _ hm hroom _ ih =>
    rw [List.length_append]
    omega

end MidiSynth.Usb
