/-
MidiSynth.Usb.RecvTheorems — `RecvData` as a queue of events.

`recvBuf` and `readPtr` hold a queue: the events from `readPtr` on, up to
the first one that starts with two zero bytes (`Midi.pending`). One call
takes the head of that queue, and asks for a transfer only when it is empty
(`recvData_spec`). What a transfer puts into the queue is what stands in the
buffer once the transfer and its two zeros are written over the old contents
(`arriving`), and that is not always what the device sent:

  §1 Events, and how a buffer is read as a list of them.
  §2 The buffer after a transfer.
  §3 One call, for every driver whose read pointer is a whole number of
     events (`Midi.Sound`): no access leaves `recvBuf`, and the queue moves
     by one.
  §4 When the events of a transfer arrive as sent (`arriving_eq_iff`).
-/
import MidiSynth.Usb.MidiDriver
import MidiSynth.Usb.TransferTheorems

namespace MidiSynth.Usb

open MidiSynth.Machine
open MidiSynth.Software (Byte)

/-! ## §1 Events -/

/-- A USB-MIDI event packet: cable number and code, and a MIDI message of up
to three bytes. -/
@[ext] structure EventPacket where
  header : Byte
  midi0 : Byte
  midi1 : Byte
  midi2 : Byte
  deriving DecidableEq, Repr

namespace EventPacket

def bytes (e : EventPacket) : List Byte := [e.header, e.midi0, e.midi1, e.midi2]

/-- The size `RecvData` returns for the event. -/
def size (e : EventPacket) : Byte := getMsgSizeFromCin (e.header &&& 0x0F)

/-- What `RecvData` stores from `outBuf` on. -/
def outBuf (isRaw : Bool) (e : EventPacket) : List Byte :=
  (if isRaw then [e.header] else []) ++ [e.midi0, e.midi1, e.midi2]

/-- The event reads as the end of the buffer. -/
def Ends (e : EventPacket) : Prop := e.header = 0 ∧ e.midi0 = 0

instance (e : EventPacket) : Decidable e.Ends := inferInstanceAs (Decidable (_ ∧ _))

/-- The event `00 00 00 00`. -/
def blank : EventPacket := ⟨0, 0, 0, 0⟩

@[simp] theorem bytes_length (e : EventPacket) : e.bytes.length = 4 := rfl

end EventPacket

/-- The bytes of a transfer. -/
def eventBytes (es : List EventPacket) : List Byte := es.flatMap EventPacket.bytes

@[simp] theorem eventBytes_nil : eventBytes [] = [] := rfl

@[simp] theorem eventBytes_cons (e : EventPacket) (es : List EventPacket) :
    eventBytes (e :: es) = e.header :: e.midi0 :: e.midi1 :: e.midi2 :: eventBytes es := rfl

theorem eventBytes_append (es fs : List EventPacket) :
    eventBytes (es ++ fs) = eventBytes es ++ eventBytes fs := List.flatMap_append

theorem eventBytes_length (es : List EventPacket) : (eventBytes es).length = 4 * es.length := by
  induction es with
  | nil => rfl
  | cons e es ih => simp [ih, Nat.mul_succ]

/-- Bytes read as events, up to the first one that reads as an end. -/
def unread : List Byte → List EventPacket
  | a :: b :: c :: d :: rest => if a = 0 ∧ b = 0 then [] else ⟨a, b, c, d⟩ :: unread rest
  | _ => []

/-- A fresh buffer read as events: the first event is taken unless it is
blank, even where it reads as an end. -/
def arriving : List Byte → List EventPacket
  | a :: b :: c :: d :: rest =>
    if [a, b, c, d] = [0, 0, 0, 0] then [] else ⟨a, b, c, d⟩ :: unread rest
  | _ => []

/-- The queue in `recvBuf`. -/
def Midi.pending (m : Midi) : List EventPacket :=
  if m.readPtr = 0 then [] else unread (m.recvBuf.toList.drop m.readPtr.toNat)

/-- What the next transfer puts into the queue. -/
def Midi.arrivals (m : Midi) (bus : Bus) : List EventPacket :=
  match Midi.recvTransfer { m with readPtr := 0 } bus with
  | some (rcode, m') => if rcode = 0 then arriving m'.recvBuf.toList else []
  | none => []

/-- A transfer is asked for only when the queue is empty. -/
def Midi.requested (m : Midi) (bus : Bus) : List EventPacket :=
  if m.pending = [] then m.arrivals bus else []

/-! ## §2 The buffer after a transfer -/

/-- The read pointer is a whole number of events, and the endpoint's packets
fit the buffer. -/
structure Midi.Sound (m : Midi) : Prop where
  aligned : 4 ∣ m.readPtr.toNat
  within : m.readPtr.toNat ≤ eventPacketSize
  maxPktSize_le : (m.epInfo epDataInIndex).maxPktSize.toNat ≤ eventPacketSize

/-- A transfer changes an endpoint's toggles only. -/
theorem inLoop_ep (nbytes : BitVec 16) (ep : EpInfo) (got : BitVec 16) (stored : List Byte)
    (answers : List InAnswer) :
    let t := inLoop nbytes ep got stored answers
    t.ep.epAddr = ep.epAddr ∧ t.ep.maxPktSize = ep.maxPktSize := by
  induction answers generalizing ep got stored with
  | nil => exact ⟨rfl, rfl⟩
  | cons a as ih =>
    unfold inLoop
    split
    · exact ih _ _ _
    split
    · exact ⟨rfl, rfl⟩
    split
    · exact ⟨rfl, rfl⟩
    dsimp only
    split
    · exact ⟨rfl, rfl⟩
    · exact ih _ _ _

/-- What receiving leaves alone. -/
structure SameSetup (m m' : Midi) : Prop where
  bAddress : m'.bAddress = m.bAddress
  bPollEnable : m'.bPollEnable = m.bPollEnable
  epAddr : ∀ i, (m'.epInfo i).epAddr = (m.epInfo i).epAddr
  maxPktSize : ∀ i, (m'.epInfo i).maxPktSize = (m.epInfo i).maxPktSize

theorem SameSetup.trans {m₁ m₂ m₃ : Midi} (h : SameSetup m₁ m₂) (h' : SameSetup m₂ m₃) :
    SameSetup m₁ m₃ where
  bAddress := h'.bAddress.trans h.bAddress
  bPollEnable := h'.bPollEnable.trans h.bPollEnable
  epAddr := fun i => (h'.epAddr i).trans (h.epAddr i)
  maxPktSize := fun i => (h'.maxPktSize i).trans (h.maxPktSize i)

theorem inTransfer_sameSetup (m : Midi) (bus : Bus) : SameSetup m (m.inTransfer bus).2 := by
  unfold Midi.inTransfer
  dsimp only
  split
  · exact ⟨rfl, rfl, fun _ => rfl, fun _ => rfl⟩
  · generalize (m.entry (m.epInfo epDataInIndex).epAddr).getD epDataInIndex = i
    obtain ⟨haddr, hmax⟩ := inLoop_ep ((m.epInfo epDataInIndex).maxPktSize.setWidth 16)
      (m.epInfo i) 0 [] bus.answers
    refine ⟨rfl, rfl, fun j => ?_, fun j => ?_⟩
    · by_cases hj : j = i
      · subst hj
        simpa [Usb.inTransfer] using haddr
      · simp [hj]
    · by_cases hj : j = i
      · subst hj
        simpa [Usb.inTransfer] using hmax
      · simp [hj]

theorem inTransfer_buffer (m : Midi) (bus : Bus) :
    (m.inTransfer bus).2.recvBuf = m.recvBuf ∧ (m.inTransfer bus).2.readPtr = m.readPtr := by
  unfold Midi.inTransfer
  dsimp only
  split <;> exact ⟨rfl, rfl⟩

theorem toNat_nbytes (ep : EpInfo) : (ep.maxPktSize.setWidth 16).toNat = ep.maxPktSize.toNat := by
  have hlt := ep.maxPktSize.isLt
  rw [BitVec.toNat_setWidth]
  omega

theorem inTransfer_fits {m : Midi} (h : m.Sound) (bus : Bus) :
    (m.inTransfer bus).1.stored.length ≤ eventPacketSize := by
  have hmax := h.maxPktSize_le
  have hn := toNat_nbytes (m.epInfo epDataInIndex)
  unfold Midi.inTransfer
  dsimp only
  split
  · exact Nat.zero_le _
  · exact (inTransfer_stored_le (by omega) _ _).trans (hn.trans_le hmax)

/-- The old contents with the received bytes and, where the driver sees room
for them, two zeros written over it. -/
def terminated (n : ℕ) (buf : List Byte) : List Byte :=
  if n < eventPacketSize - 4 then buf.take n ++ [0, 0] ++ buf.drop (n + 2) else buf

/-- The transfer and its two zeros stay inside `recvBuf`. -/
theorem recvTransfer_spec {m : Midi} (h : m.Sound) (bus : Bus) :
    let t := (m.inTransfer bus).1
    ∃ m', m.recvTransfer bus = some (t.rcode, m') ∧ SameSetup m m' ∧ m'.readPtr = m.readPtr ∧
      m'.recvBuf.toList
        = terminated t.nbytes.toNat (t.stored ++ m.recvBuf.toList.drop t.stored.length) := by
  intro t
  obtain ⟨buf, hfill, hbuf⟩ := fill_of_le (inTransfer_fits h bus) (m.inTransfer bus).2.recvBuf
  have hsame := inTransfer_sameSetup m bus
  obtain ⟨hrecv, hptr⟩ := inTransfer_buffer m bus
  rw [hrecv] at hbuf
  by_cases hn : t.nbytes.toNat < eventPacketSize - 4
  · have hroom : t.nbytes.toNat + ([0, 0] : List Byte).length ≤ eventPacketSize := by
      simp only [List.length_cons, List.length_nil]
      omega
    obtain ⟨buf', hstores, hbuf'⟩ := stores_of_le buf hroom
    refine ⟨{ (m.inTransfer bus).2 with recvBuf := buf' }, ?_, ⟨hsame.1, hsame.2, hsame.3, hsame.4⟩,
      hptr, ?_⟩
    · simp only [Midi.recvTransfer, hfill, Option.bind_eq_bind, Option.bind_some]
      rw [if_pos hn, hstores]
      rfl
    · rw [hbuf', hbuf, terminated, if_pos hn]
      rfl
  · refine ⟨{ (m.inTransfer bus).2 with recvBuf := buf }, ?_, ⟨hsame.1, hsame.2, hsame.3, hsame.4⟩,
      hptr, ?_⟩
    · simp only [Midi.recvTransfer, hfill, Option.bind_eq_bind, Option.bind_some]
      rw [if_neg hn]
      rfl
    · rw [hbuf, terminated, if_neg hn]

/-! ## §3 One call -/

theorem pending_of_zero {m : Midi} (h : m.readPtr = 0) : m.pending = [] := if_pos h

/-- The event at the read pointer is handed over and the pointer moves to the
next one. -/
theorem returnFromBuffer_spec {m : Midi} (isRaw : Bool) {e : EventPacket} {rest : List Byte}
    (hdrop : m.recvBuf.toList.drop m.readPtr.toNat
      = e.header :: e.midi0 :: e.midi1 :: e.midi2 :: rest) :
    m.returnFromBuffer isRaw
        = some ⟨e.size, e.outBuf isRaw, { m with readPtr := m.readPtr + 4 }⟩ ∧
      m.recvBuf.toList.drop (m.readPtr + 4).toNat = rest ∧
      (m.readPtr + 4).toNat = m.readPtr.toNat + 4 := by
  have hroom : m.readPtr.toNat + 4 ≤ eventPacketSize := by
    have hlen := congrArg List.length hdrop
    rw [List.length_drop, List.Vector.toList_length] at hlen
    simp only [List.length_cons] at hlen
    omega
  have hptr : m.readPtr.toNat + 4 ≤ 64 := hroom
  have h1 : (m.readPtr + 1).toNat = m.readPtr.toNat + 1 := by
    rw [BitVec.toNat_add, show (1 : Byte).toNat = 1 from rfl]
    omega
  have h4 : (m.readPtr + 4).toNat = m.readPtr.toNat + 4 := by
    rw [BitVec.toNat_add, show (4 : Byte).toNat = 4 from rfl]
    omega
  have hloads : loads m.recvBuf (m.readPtr + 1).toNat 3 = some [e.midi0, e.midi1, e.midi2] := by
    rw [loads_of_le _ (by omega), h1, drop_succ_of_drop hdrop]
    rfl
  refine ⟨?_, ?_, h4⟩
  · simp only [Midi.returnFromBuffer, load_of_drop hdrop, hloads, Option.bind_eq_bind,
      Option.bind_some]
    rfl
  · rw [h4, ← List.drop_drop, hdrop]
    rfl

theorem exists_event {l : List Byte} (h : 4 ≤ l.length) :
    ∃ (e : EventPacket) (rest : List Byte),
      l = e.header :: e.midi0 :: e.midi1 :: e.midi2 :: rest := by
  match l, h with
  | a :: b :: c :: d :: rest, _ => exact ⟨⟨a, b, c, d⟩, rest, rfl⟩

theorem unread_cons (e : EventPacket) (rest : List Byte) :
    unread (e.header :: e.midi0 :: e.midi1 :: e.midi2 :: rest)
      = if e.Ends then [] else e :: unread rest := rfl

theorem arriving_cons (e : EventPacket) (rest : List Byte) :
    arriving (e.header :: e.midi0 :: e.midi1 :: e.midi2 :: rest)
      = if e = EventPacket.blank then [] else e :: unread rest := by
  have hiff : e.bytes = [0, 0, 0, 0] ↔ e = EventPacket.blank := by
    rw [EventPacket.bytes, EventPacket.ext_iff]
    simp [EventPacket.blank]
  exact if_congr hiff rfl rfl

theorem zeroPair_spec {buf : List.Vector Byte eventPacketSize} {i : ℕ} {e : EventPacket}
    {rest : List Byte}
    (hdrop : buf.toList.drop i = e.header :: e.midi0 :: e.midi1 :: e.midi2 :: rest) :
    zeroPair buf i = some (decide e.Ends) := by
  have h1 := load_of_drop (drop_succ_of_drop hdrop)
  simp only [zeroPair, load_of_drop hdrop, h1, Option.bind_eq_bind, Option.bind_some]
  by_cases hz : e.header = 0
  · rw [if_pos hz]
    exact congrArg some (decide_eq_decide.mpr ⟨fun h => ⟨hz, h⟩, And.right⟩)
  · rw [if_neg hz]
    exact congrArg some (decide_eq_false fun h => hz h.1).symm

/-- What a call returns for the event it takes, or for none. -/
def Received.Gives (r : Received) (isRaw : Bool) : Option EventPacket → Prop
  | none => r.size = 0 ∧ r.outBuf = []
  | some e => r.size = e.size ∧ r.outBuf = e.outBuf isRaw

theorem SameSetup.sound {m m' : Midi} (h : SameSetup m m') (hm : m.Sound)
    (halign : 4 ∣ m'.readPtr.toNat) (hle : m'.readPtr.toNat ≤ eventPacketSize) : m'.Sound where
  aligned := halign
  within := hle
  maxPktSize_le := (congrArg BitVec.toNat (h.maxPktSize epDataInIndex)).trans_le hm.maxPktSize_le

/-- Taking the event at the read pointer. -/
theorem takeEvent {m : Midi} (h : m.Sound) (isRaw : Bool) {e : EventPacket} {rest : List Byte}
    (hdrop : m.recvBuf.toList.drop m.readPtr.toNat
      = e.header :: e.midi0 :: e.midi1 :: e.midi2 :: rest) :
    ∃ r, m.returnFromBuffer isRaw = some r ∧ SameSetup m r.midi ∧ r.midi.Sound ∧
      r.midi.pending = unread rest ∧ r.Gives isRaw (some e) := by
  obtain ⟨hret, hnext, hptr⟩ := returnFromBuffer_spec isRaw hdrop
  have hroom : m.readPtr.toNat + 4 ≤ 64 := by
    have hlen := congrArg List.length hdrop
    rw [List.length_drop, List.Vector.toList_length] at hlen
    simp only [List.length_cons] at hlen
    have h64 : eventPacketSize = 64 := rfl
    omega
  have hsame : SameSetup m { m with readPtr := m.readPtr + 4 } :=
    ⟨rfl, rfl, fun _ => rfl, fun _ => rfl⟩
  have hne : m.readPtr + 4 ≠ 0 := by
    intro h0
    have := congrArg BitVec.toNat h0
    rw [hptr] at this
    simp at this
  refine ⟨_, hret, hsame, hsame.sound h ?_ (hptr.trans_le hroom), ?_, rfl, rfl⟩
  · rw [hptr]
    exact Nat.dvd_add h.aligned (Nat.dvd_refl 4)
  · rw [Midi.pending, if_neg hne]
    exact congrArg unread hnext

theorem Midi.Sound.rewound {m : Midi} (h : m.Sound) : ({ m with readPtr := 0 } : Midi).Sound :=
  ⟨Nat.dvd_zero 4, Nat.zero_le _, h.maxPktSize_le⟩

/-- Asking for a transfer: the first event that arrives is handed over, the
others wait. -/
theorem recvFresh_spec {m : Midi} (h : m.Sound) (isRaw : Bool) (bus : Bus) :
    ∃ r, m.recvFresh isRaw bus = some r ∧ SameSetup m r.midi ∧ r.midi.Sound ∧
      r.midi.pending = (m.arrivals bus).tail ∧ r.Gives isRaw (m.arrivals bus).head? := by
  obtain ⟨m', hrecv, hsame, hptr, -⟩ := recvTransfer_spec h.rewound bus
  have hsame' : SameSetup m m' := ⟨hsame.1, hsame.2, hsame.3, hsame.4⟩
  have hsound : m'.Sound := by
    refine hsame'.sound h ?_ ?_
    · rw [hptr]
      exact Nat.dvd_zero 4
    · rw [hptr]
      exact Nat.zero_le _
  have harr : m.arrivals bus
      = if (({ m with readPtr := 0 } : Midi).inTransfer bus).1.rcode = 0
        then arriving m'.recvBuf.toList else [] := by
    rw [Midi.arrivals, hrecv]
  have hlen : 4 ≤ m'.recvBuf.toList.length := by
    rw [List.Vector.toList_length]
    decide
  obtain ⟨e, rest, hbuf⟩ := exists_event hlen
  have hdrop : m'.recvBuf.toList.drop m'.readPtr.toNat
      = e.header :: e.midi0 :: e.midi1 :: e.midi2 :: rest := by
    rw [hptr]
    exact hbuf
  have hloads : loads m'.recvBuf 0 4 = some e.bytes := by
    rw [loads_of_le _ (by decide), List.drop_zero, hbuf]
    rfl
  rw [harr, hbuf, arriving_cons]
  simp only [Midi.recvFresh, hrecv, Option.bind_eq_bind, Option.bind_some]
  by_cases hcode : (({ m with readPtr := 0 } : Midi).inTransfer bus).1.rcode = 0
  · rw [if_neg (not_not.mpr hcode), if_pos hcode, hloads]
    by_cases hblank : e = EventPacket.blank
    · rw [if_pos hblank]
      refine ⟨⟨0, [], m'⟩, ?_, hsame', hsound, pending_of_zero hptr, rfl, rfl⟩
      rw [hblank]
      rfl
    · rw [if_neg hblank]
      obtain ⟨r, hret, hsame'', hsound', hpend, hgives⟩ := takeEvent hsound isRaw hdrop
      refine ⟨r, ?_, hsame'.trans hsame'', hsound', hpend, hgives⟩
      have hne : e.bytes ≠ [0, 0, 0, 0] := fun hb => hblank (by
        rw [EventPacket.bytes] at hb
        simp only [List.cons.injEq, and_true] at hb
        exact EventPacket.ext hb.1 hb.2.1 hb.2.2.1 hb.2.2.2)
      rw [Option.bind_some, if_neg hne]
      exact hret
  · rw [if_pos hcode, if_neg hcode]
    exact ⟨⟨0, [], m'⟩, rfl, hsame', hsound, pending_of_zero hptr, rfl, rfl⟩

/-- **One call of `RecvData`** takes the head of the queue, and refills the
queue first when it is empty. No access leaves `recvBuf`. -/
theorem recvData_spec {m : Midi} (h : m.Sound) (hpoll : m.bPollEnable = true) (isRaw : Bool)
    (bus : Bus) :
    let queue := m.pending ++ m.requested bus
    ∃ r, m.recvData isRaw bus = some r ∧ SameSetup m r.midi ∧ r.midi.Sound ∧
      r.midi.pending = queue.tail ∧ r.Gives isRaw queue.head? := by
  intro queue
  have hfresh : m.pending = [] → m.recvFresh isRaw bus = m.recvData isRaw bus →
      ∃ r, m.recvData isRaw bus = some r ∧ SameSetup m r.midi ∧ r.midi.Sound ∧
        r.midi.pending = queue.tail ∧ r.Gives isRaw queue.head? := by
    intro hp hcall
    have hq : queue = m.arrivals bus := by
      rw [show queue = m.pending ++ m.requested bus from rfl, Midi.requested, if_pos hp, hp,
        List.nil_append]
    rw [← hcall, hq]
    exact recvFresh_spec h isRaw bus
  have hon : ¬ m.bPollEnable = false := by rw [hpoll]; decide
  by_cases hptr : m.readPtr ≠ 0 ∧ m.readPtr.toNat < eventPacketSize
  · have hlen : 4 ≤ (m.recvBuf.toList.drop m.readPtr.toNat).length := by
      rw [List.length_drop, List.Vector.toList_length]
      have halign := h.aligned
      have hlt : m.readPtr.toNat < 64 := hptr.2
      have h64 : eventPacketSize = 64 := rfl
      omega
    obtain ⟨e, rest, hdrop⟩ := exists_event hlen
    have hpend : m.pending = if e.Ends then [] else e :: unread rest := by
      rw [Midi.pending, if_neg hptr.1, hdrop, unread_cons]
    have hcall : m.recvData isRaw bus
        = if e.Ends then m.recvFresh isRaw bus else m.returnFromBuffer isRaw := by
      simp only [Midi.recvData, if_neg hon, if_pos hptr, zeroPair_spec hdrop, Option.bind_eq_bind,
        Option.bind_some, decide_eq_true_eq]
    by_cases hend : e.Ends
    · rw [if_pos hend] at hpend hcall
      exact hfresh hpend hcall.symm
    · rw [if_neg hend] at hpend hcall
      have hq : queue = e :: unread rest := by
        rw [show queue = m.pending ++ m.requested bus from rfl, Midi.requested, hpend,
          if_neg (List.cons_ne_nil _ _), List.append_nil]
      rw [hcall, hq]
      exact takeEvent h isRaw hdrop
  · have hpend : m.pending = [] := by
      rw [Midi.pending]
      split
      · rfl
      · rename_i hne
        have hend : 64 ≤ m.readPtr.toNat := Nat.not_lt.mp fun hlt => hptr ⟨hne, hlt⟩
        rw [List.drop_eq_nil_of_le (by rw [List.Vector.toList_length]; exact hend)]
        rfl
    refine hfresh hpend ?_
    rw [Midi.recvData, if_neg hon, if_neg hptr]

/-! ## §4 When a transfer arrives as sent -/

/-- What follows the received bytes in the buffer. -/
def closing (n : ℕ) (old : List Byte) : List Byte :=
  if n < eventPacketSize - 4 then [0, 0] ++ old.drop (n + 2) else old.drop n

theorem terminated_append (bs old : List Byte) :
    terminated bs.length (bs ++ old.drop bs.length) = bs ++ closing bs.length old := by
  rw [terminated, closing]
  split
  · rw [List.take_left, List.append_assoc, List.drop_append, List.drop_drop,
      List.drop_eq_nil_of_le (Nat.le_add_right _ 2), List.nil_append, Nat.add_sub_cancel_left]
  · rfl

/-- Events before the end come out as they went in, if none of them reads as
an end and the bytes after them do. -/
theorem unread_append_eq_iff (es : List EventPacket) (rest : List Byte) :
    unread (eventBytes es ++ rest) = es ↔ (∀ e ∈ es, ¬ e.Ends) ∧ unread rest = [] := by
  induction es with
  | nil => simp
  | cons e es ih =>
    rw [eventBytes_cons]
    simp only [List.cons_append]
    rw [unread_cons]
    by_cases hend : e.Ends
    · simp [hend]
    · simp [hend, ih]

/-- The old contents of `recvBuf` and the events sent leave no trace of each
other: no event reads as the end of the buffer, and what is left over after
an empty transfer, or after one of fifteen events, reads as its end. -/
structure Deliverable (old : List.Vector Byte eventPacketSize) (es : List EventPacket) : Prop where
  first_ne_blank : es.head? ≠ some EventPacket.blank
  later_not_ends : ∀ e ∈ es.tail, ¬ e.Ends
  empty : es.length = 0 → zeroPair old 2 = some true
  fifteen : es.length = 15 → zeroPair old 60 = some true

theorem unread_closing_eq_nil_iff (old : List.Vector Byte eventPacketSize) {k : ℕ} (hk : k ≤ 16) :
    unread (closing (4 * k) old.toList) = [] ↔ (k = 15 → zeroPair old 60 = some true) := by
  have hlen : old.toList.length = 64 := old.toList_length
  have h64 : eventPacketSize = 64 := rfl
  rcases Nat.lt_trichotomy k 15 with hlt | rfl | hgt
  · -- the two zeros are written
    have hroom : 2 ≤ (old.toList.drop (4 * k + 2)).length := by
      rw [List.length_drop]
      omega
    rw [closing, if_pos (by omega)]
    match old.toList.drop (4 * k + 2), hroom with
    | c :: d :: rest, _ => exact iff_of_true rfl (fun h => absurd h (by omega))
  · -- sixty bytes: the old sixteenth event is still there
    have h4 : 4 ≤ (old.toList.drop 60).length := by
      rw [List.length_drop]
      omega
    obtain ⟨e, rest, hdrop⟩ := exists_event h4
    rw [closing, if_neg (by decide), hdrop, unread_cons, zeroPair_spec hdrop]
    by_cases hend : e.Ends
    · simp [hend]
    · simp [hend]
  · -- sixty-four bytes: nothing of the old buffer is left
    obtain rfl : k = 16 := by omega
    rw [closing, if_neg (by decide), List.drop_eq_nil_of_le (by omega)]
    exact iff_of_true rfl (fun h => absurd h (by decide))

/-- **What the driver queues is what the device sent** if, and only if, the
events and the old contents of the buffer are `Deliverable`. -/
theorem arriving_eq_iff (old : List.Vector Byte eventPacketSize) {es : List EventPacket}
    (hes : es.length ≤ 16) :
    let bs := eventBytes es
    arriving (terminated bs.length (bs ++ old.toList.drop bs.length)) = es ↔
      Deliverable old es := by
  intro bs
  rw [terminated_append]
  cases es with
  | nil =>
    have hlen : 4 ≤ (old.toList.drop 2).length := by
      rw [List.length_drop, List.Vector.toList_length]
      decide
    obtain ⟨e, rest, hdrop⟩ := exists_event hlen
    have hzero : bs ++ closing bs.length old.toList = 0 :: 0 :: old.toList.drop 2 := rfl
    have hpair : zeroPair old 2 = some (decide e.Ends) := zeroPair_spec hdrop
    rw [hzero, hdrop, arriving]
    by_cases hend : e.Ends
    · rw [hend.1, hend.2, if_pos rfl]
      exact iff_of_true rfl ⟨nofun, nofun, fun _ => hpair.trans (by rw [decide_eq_true hend]), nofun⟩
    · have hne : [0, 0, e.header, e.midi0] ≠ ([0, 0, 0, 0] : List Byte) := fun h => by
        simp only [List.cons.injEq, and_true, true_and] at h
        exact hend h
      rw [if_neg hne]
      refine iff_of_false (List.cons_ne_nil _ _) (fun h => ?_)
      have hz := h.empty rfl
      rw [hpair, decide_eq_false hend] at hz
      cases hz
  | cons e es =>
    have hbs : bs.length = 4 * (es.length + 1) := eventBytes_length (e :: es)
    have hsplit : bs ++ closing bs.length old.toList
        = e.header :: e.midi0 :: e.midi1 :: e.midi2 ::
          (eventBytes es ++ closing bs.length old.toList) := rfl
    rw [hsplit, arriving_cons, hbs]
    have htail := unread_append_eq_iff es (closing (4 * (es.length + 1)) old.toList)
    have hk : es.length + 1 ≤ 16 := hes
    rw [unread_closing_eq_nil_iff old hk] at htail
    by_cases hblank : e = EventPacket.blank
    · rw [if_pos hblank]
      exact iff_of_false (List.cons_ne_nil _ _).symm
        (fun h => h.first_ne_blank (congrArg some hblank))
    · rw [if_neg hblank, List.cons.injEq, htail]
      constructor
      · rintro ⟨-, hlater, hfifteen⟩
        exact ⟨fun h => hblank (Option.some.inj h), hlater, fun h => absurd h (Nat.succ_ne_zero _),
          hfifteen⟩
      · intro h
        exact ⟨rfl, h.later_not_ends, h.fifteen⟩

/-- The record that a transfer on the data IN endpoint uses. -/
def Midi.inEntry (m : Midi) : EpInfo :=
  m.epInfo ((m.entry (m.epInfo epDataInIndex).epAddr).getD epDataInIndex)

section Arrives

variable {m : Midi} (h : m.Sound) {bus : Bus} (haddr : bus.setAddress = 0) {es : List EventPacket}
  (hsends : Sends m.inEntry.maxPktSize.toNat (m.epInfo epDataInIndex).maxPktSize.toNat
    (eventBytes es) bus.answers)

include h hsends

theorem length_of_sends : es.length ≤ 16 := by
  have hmax := h.maxPktSize_le
  have hlen := hsends.length_le
  rw [eventBytes_length] at hlen
  have h64 : eventPacketSize = 64 := rfl
  omega

include haddr

/-- What a transfer leaves in the buffer: the bytes that are sent, two zeros,
and the rest of what it held. -/
theorem arrivals_of_sends :
    m.arrivals bus = arriving (terminated (eventBytes es).length
      (eventBytes es ++ m.recvBuf.toList.drop (eventBytes es).length)) := by
  have hmax := h.maxPktSize_le
  have hnbytes := toNat_nbytes (m.epInfo epDataInIndex)
  have hsmall : ((m.epInfo epDataInIndex).maxPktSize.setWidth 16).toNat < 2 ^ 15 := by
    have h64 : eventPacketSize = 64 := rfl
    omega
  rw [← hnbytes] at hsends
  obtain ⟨hcode, hcount, hstored⟩ := inTransfer_sends hsmall hsends (Or.inl rfl)
  have htransfer : (({ m with readPtr := 0 } : Midi).inTransfer bus).1
      = Usb.inTransfer m.inEntry ((m.epInfo epDataInIndex).maxPktSize.setWidth 16) bus.answers := by
    unfold Midi.inTransfer
    simp only [haddr, ne_eq, not_true_eq_false, if_false]
    rfl
  obtain ⟨m', hrecv, -, -, hbuf⟩ := recvTransfer_spec h.rewound bus
  rw [htransfer] at hrecv hbuf
  rw [hcount, hstored] at hbuf
  rw [Midi.arrivals, hrecv, ← hbuf]
  exact if_pos hcode

/-- **A transfer arrives as sent** if, and only if, it is `Deliverable` over
what the buffer held. -/
theorem arrivals_eq_iff : m.arrivals bus = es ↔ Deliverable m.recvBuf es := by
  rw [arrivals_of_sends h haddr hsends]
  exact arriving_eq_iff m.recvBuf (length_of_sends h hsends)

end Arrives

/-- One event, in a packet of an endpoint of 64 bytes. -/
theorem arrivals_eq_iff_one :
    let m : Midi := { (default : Midi) with epInfo := fun i => ⟨i.val, 64, false, false, 1⟩ }
    let e : EventPacket := ⟨0x09, 0x90, 60, 100⟩
    m.arrivals ⟨0, [⟨0, false, true, 4, fun k => e.bytes.getD k 0⟩]⟩ = [e]
      ↔ Deliverable m.recvBuf [e] := by
  intro m e
  refine arrivals_eq_iff ⟨by decide, by decide, by decide⟩ rfl ?_
  exact .last ⟨rfl, rfl, rfl, rfl⟩ (by decide) (by decide) (Or.inl (by decide))

/-- Nothing arrives with a transfer that fails. -/
theorem arrivals_of_failed {m : Midi} (h : m.Sound) {bus : Bus}
    (hcode : (({ m with readPtr := 0 } : Midi).inTransfer bus).1.rcode ≠ 0) :
    m.arrivals bus = [] := by
  obtain ⟨m', hrecv, -⟩ := recvTransfer_spec h.rewound bus
  rw [Midi.arrivals, hrecv]
  exact if_neg hcode

end MidiSynth.Usb
