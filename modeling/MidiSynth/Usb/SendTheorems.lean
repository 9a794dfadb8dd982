/-
MidiSynth.Usb.SendTheorems — what is sent is what comes back.

`extractSysExData` and `RecvData` take apart what `SendSysEx` and `SendData`
put together. For System Exclusive messages the specification is
`sysExEvents`, the events of a message without a buffer and without
transfers: `SendSysEx` puts exactly these on the bus, whatever the sizes of
the endpoints' packets are, and their contents are the message
(`sendSysEx_round_trip`). `SendData` finds the end of such a message by
itself, and drops one that is too long without saying so
(`sendData_sysEx`). Any other message comes back from its one event with its
size (`sendData_round_trip`).

All this is for transfers that the clock does not cut short (`InTime`): one
that it does loses a packet and still gives 0. With a device that takes every
packet (`Takes`) the code is 0 and all of the message is there.

  §1 Events of a System Exclusive message.
  §2 The loop of `SendSysEx`.
  §3 `SendData`.
-/
import MidiSynth.Usb.MidiSender
import MidiSynth.Usb.RecvTheorems

namespace MidiSynth.Usb

open MidiSynth.Machine
open MidiSynth.Software (Byte)

/-! ## §1 Events of a System Exclusive message -/

/-- A message cut into threes. -/
def sysExEvents (nCable : Byte) : List Byte → List EventPacket
  | a :: b :: c :: d :: data =>
    ⟨eventHeader nCable 4, a, b, c⟩ :: sysExEvents nCable (d :: data)
  | [a, b, c] => [⟨eventHeader nCable 7, a, b, c⟩]
  | [a, b] => [⟨eventHeader nCable 6, a, b, 0⟩]
  | [a] => [⟨eventHeader nCable 5, a, 0, 0⟩]
  | [] => []

/-- The contents of an event. -/
def EventPacket.sysEx (e : EventPacket) : List Byte := (extractSysExData e.bytes).getD []

/-- The low half of the header is the code. -/
theorem eventHeader_code (nCable : Byte) {cin : Byte} (hcin : cin &&& 0x0F = cin) :
    eventHeader nCable cin &&& 0x0F = cin := by
  have hcable : ∀ n : Byte, n <<< 4 &&& 0x0F = 0 := by decide +kernel
  rw [eventHeader, BitVec.and_or_distrib_right, hcable, hcin]
  exact BitVec.zero_or

/-- `extractSysExData` goes by the code. -/
theorem extractSysExData_of_code {header cin : Byte} (h : header &&& 0x0F = cin) (a b c : Byte) :
    extractSysExData [header, a, b, c] =
      if cin &&& 0xC ≠ 4 then some []
      else
        match cin.toNat with
        | 4 | 7 => some [a, b, c]
        | 6 => some [a, b]
        | 5 => some [a]
        | _ => some [] := by
  rw [← h]
  rfl

/-- The contents of an event of each code. -/
theorem sysEx_of_code (nCable a b c : Byte) :
    EventPacket.sysEx ⟨eventHeader nCable 4, a, b, c⟩ = [a, b, c] ∧
      EventPacket.sysEx ⟨eventHeader nCable 5, a, b, c⟩ = [a] ∧
      EventPacket.sysEx ⟨eventHeader nCable 6, a, b, c⟩ = [a, b] ∧
      EventPacket.sysEx ⟨eventHeader nCable 7, a, b, c⟩ = [a, b, c] := by
  have hcode : ∀ cin : Byte, cin &&& 0x0F = cin →
      EventPacket.sysEx ⟨eventHeader nCable cin, a, b, c⟩ = _ := fun cin hcin =>
    congrArg (Option.getD · []) (extractSysExData_of_code (eventHeader_code nCable hcin) a b c)
  exact ⟨hcode 4 rfl, hcode 5 rfl, hcode 6 rfl, hcode 7 rfl⟩

/-- **The contents of the events are the message.** -/
theorem sysExEvents_sysEx (nCable : Byte) (data : List Byte) :
    (sysExEvents nCable data).flatMap EventPacket.sysEx = data := by
  induction data using sysExEvents.induct with
  | case1 a b c d data ih =>
    rw [sysExEvents, List.flatMap_cons, ih, (sysEx_of_code nCable a b c).1]
    rfl
  | case2 a b c =>
    rw [sysExEvents, List.flatMap_singleton]
    exact (sysEx_of_code nCable a b c).2.2.2
  | case3 a b =>
    rw [sysExEvents, List.flatMap_singleton]
    exact (sysEx_of_code nCable a b 0).2.2.1
  | case4 a =>
    rw [sysExEvents, List.flatMap_singleton]
    exact (sysEx_of_code nCable a 0 0).2.1
  | case5 => rfl

/-- No event of a message reads as the end of a buffer. -/
theorem sysExEvents_not_ends (nCable : Byte) (data : List Byte) :
    ∀ e ∈ sysExEvents nCable data, ¬ e.Ends := by
  have hcode : ∀ cin : Byte, cin &&& 0x0F = cin → cin ≠ 0 → eventHeader nCable cin ≠ 0 := by
    intro cin hcin hne hzero
    have hlow := eventHeader_code nCable hcin
    rw [hzero] at hlow
    exact hne hlow.symm
  induction data using sysExEvents.induct with
  | case1 a b c d data ih =>
    rw [sysExEvents]
    exact List.forall_mem_cons.mpr ⟨fun h => hcode 4 rfl (by decide) h.1, ih⟩
  | case2 a b c =>
    rw [sysExEvents, List.forall_mem_singleton]
    exact fun h => hcode 7 rfl (by decide) h.1
  | case3 a b =>
    rw [sysExEvents, List.forall_mem_singleton]
    exact fun h => hcode 6 rfl (by decide) h.1
  | case4 a =>
    rw [sysExEvents, List.forall_mem_singleton]
    exact fun h => hcode 5 rfl (by decide) h.1
  | case5 => exact List.forall_mem_nil _

/-! ## §2 The loop of `SendSysEx` -/

/-- Data that was sent in any number of transfers, after the device took
`before`: all of it, or a part from its start and an error. -/
structure Sent (rcode : Byte) (taken before data : List Byte) : Prop where
  complete : rcode = 0 → taken = before ++ data
  partly : rcode ≠ 0 → ∃ k, k < data.length ∧ taken = before ++ data.take k

section Sent

variable {rcode : Byte} {taken before xs ys : List Byte}

/-- What was sent first is taken, and the rest follows. -/
theorem Sent.append (h : Sent rcode taken (before ++ xs) ys) : Sent rcode taken before (xs ++ ys) where
  complete := fun hzero => by rw [h.complete hzero, List.append_assoc]
  partly := fun hne => by
    obtain ⟨k, hk, htaken⟩ := h.partly hne
    refine ⟨xs.length + k, by rw [List.length_append]; omega, ?_⟩
    rw [htaken, List.take_length_add_append, List.append_assoc]

/-- What was sent first is not all taken. -/
theorem Sent.of_error (hne : rcode ≠ 0) (h : Sent rcode taken before xs) (ys : List Byte) :
    Sent rcode taken before (xs ++ ys) where
  complete := fun hzero => absurd hzero hne
  partly := fun _ => by
    obtain ⟨k, hk, htaken⟩ := h.partly hne
    refine ⟨k, by rw [List.length_append]; omega, ?_⟩
    rw [htaken, List.take_append_of_le_length hk.le]

end Sent

/-- The transfer is not cut short by the clock. -/
def OutBus.InTime (bus : OutBus) : Prop := ∀ a ∈ bus.answers, a.inTime = true

theorem Sent.prepend {rcode : Byte} {taken data : List Byte} (h : Sent rcode taken [] data)
    (before : List Byte) : Sent rcode (before ++ taken) before data where
  complete := fun hzero => by rw [h.complete hzero, List.nil_append]
  partly := fun hne => by
    obtain ⟨k, hk, htaken⟩ := h.partly hne
    exact ⟨k, hk, by rw [htaken, List.nil_append]⟩

theorem outTransfer_sent {bus : OutBus} (htime : bus.InTime) (m : Midi) {data : List Byte}
    (hdata : data ≠ []) :
    let t := (m.outTransfer bus data).1
    Sent t.rcode t.taken [] data := by
  unfold Midi.outTransfer
  dsimp only
  split
  · rename_i haddr
    exact ⟨fun hzero => absurd hzero haddr, fun _ => ⟨0, List.length_pos_of_ne_nil hdata, rfl⟩⟩
  · generalize m.epInfo _ = ep
    have hsends := outTransfer_sends ep htime hdata bus.hrsl
    refine ⟨hsends.complete, fun hne => ?_⟩
    obtain ⟨k, hk, htaken⟩ := hsends.partly hne
    exact ⟨_, hk, htaken⟩

/-- The record that a transfer on the data OUT endpoint uses. -/
def Midi.outEntry (m : Midi) : EpInfo :=
  m.epInfo ((m.entry (m.epInfo epDataOutIndex).epAddr).getD epDataOutIndex)

/-- The device takes every packet of a transfer of up to 64 bytes in time. -/
structure Midi.Takes (m : Midi) (bus : OutBus) : Prop where
  setAddress : bus.setAddress = 0
  size_pos : 1 ≤ m.outEntry.maxPktSize.toNat
  size_le : m.outEntry.maxPktSize.toNat ≤ 64
  answers : Accepts m.outEntry.maxPktSize.toNat m.outEntry.nakLimit.toNat eventPacketSize 0 0
    bus.answers

theorem outTransfer_takes {m : Midi} {bus : OutBus} (h : m.Takes bus) {data : List Byte}
    (hlen : data.length ≤ eventPacketSize) : (m.outTransfer bus data).1.rcode = 0 := by
  rw [Midi.outTransfer, if_neg (not_not.mpr h.setAddress)]
  exact outTransfer_accepts h.size_pos h.size_le (h.answers.of_le hlen) bus.hrsl

/-- The endpoints of a driver, but for their toggles. -/
def SameEndpoints (m m' : Midi) : Prop := ∀ i, SameEndpoint (m.epInfo i) (m'.epInfo i)

theorem outTransfer_sameEndpoints (m : Midi) (bus : OutBus) (data : List Byte) :
    SameEndpoints m (m.outTransfer bus data).2 := by
  intro i
  unfold Midi.outTransfer
  dsimp only
  split
  · rfl
  · generalize (m.entry (m.epInfo epDataOutIndex).epAddr).getD epDataOutIndex = j
    show SameEndpoint _ (Function.update m.epInfo j _ i)
    by_cases hij : i = j
    · subst hij
      rw [Function.update_self]
      exact outTransfer_ep _ _ _ _
    · rw [Function.update_of_ne hij]

theorem SameEndpoints.trans {m₁ m₂ m₃ : Midi} (h : SameEndpoints m₁ m₂) (h' : SameEndpoints m₂ m₃) :
    SameEndpoints m₁ m₃ := fun i =>
  ⟨(h' i).epAddr.trans (h i).epAddr, (h' i).maxPktSize.trans (h i).maxPktSize,
    (h' i).bmNakPower.trans (h i).bmNakPower⟩

theorem SameEndpoints.outEntry {m m' : Midi} (h : SameEndpoints m m') :
    SameEndpoint m.outEntry m'.outEntry := by
  have hentry : ∀ ep, m'.entry ep = m.entry ep := fun ep => by
    rw [Midi.entry, Midi.entry]
    exact first_congr fun i => by rw [(h i).epAddr]
  rw [Midi.outEntry, Midi.outEntry, hentry, (h epDataOutIndex).epAddr]
  exact h _

/-- It takes them whatever the toggles are. -/
theorem SameEndpoints.takes {m m' : Midi} (h : SameEndpoints m m') {bus : OutBus}
    (ht : m.Takes bus) : m'.Takes bus := by
  have hentry := h.outEntry
  have hlimit : m'.outEntry.nakLimit = m.outEntry.nakLimit := by
    rw [EpInfo.nakLimit, EpInfo.nakLimit, hentry.bmNakPower]
  obtain ⟨haddr, hpos, hle, hanswers⟩ := ht
  refine ⟨haddr, ?_, ?_, ?_⟩
  · rwa [hentry.maxPktSize]
  · rwa [hentry.maxPktSize]
  · rwa [hentry.maxPktSize, hlimit]

/-- One round makes the next event of what is left. -/
theorem sysExRound_spec (nCable : Byte) {n : BitVec 16} {data : List Byte} (hne : n ≠ 0)
    (hn : n.toNat ≤ data.length) :
    ∃ (e : EventPacket) (n' : BitVec 16) (data' : List Byte),
      sysExRound nCable n data = some (e.bytes, n', data') ∧ n'.toNat < n.toNat ∧
        n'.toNat ≤ data'.length ∧
        sysExEvents nCable (data.take n.toNat) = e :: sysExEvents nCable (data'.take n'.toNat) := by
  have hliteral : ∀ k : BitVec 16, n ≠ k → n.toNat ≠ k.toNat := fun k h hk =>
    h (BitVec.eq_of_toNat_eq hk)
  have hpos : n.toNat ≠ 0 := hliteral 0 hne
  unfold sysExRound
  by_cases h1 : n = 1
  · subst h1
    match data, hn with
    | a :: data, _ =>
      exact ⟨⟨eventHeader nCable 5, a, 0, 0⟩, 0, data, rfl, by decide, Nat.zero_le _, rfl⟩
  by_cases h2 : n = 2
  · subst h2
    match data, hn with
    | a :: b :: data, _ =>
      exact ⟨⟨eventHeader nCable 6, a, b, 0⟩, 0, data, rfl, by decide, Nat.zero_le _, rfl⟩
  have hone : n.toNat ≠ 1 := hliteral 1 h1
  have htwo : n.toNat ≠ 2 := hliteral 2 h2
  have hthree : (3 : BitVec 16).toNat = 3 := rfl
  have hsub : (n - 3).toNat = n.toNat - 3 :=
    BitVec.toNat_sub_of_le (BitVec.le_def.mpr (by omega))
  rw [if_neg h1, if_neg h2]
  match data, hn with
  | a :: b :: c :: data, hn =>
    simp only [List.length_cons] at hn
    refine ⟨⟨eventHeader nCable (if n = 3 then 7 else 4), a, b, c⟩, n - 3, data, rfl, by omega,
      by omega, ?_⟩
    by_cases h3 : n = 3
    · subst h3
      rfl
    · -- there is a fourth byte, so the message goes on
      have hmore : n.toNat ≠ 3 := hliteral 3 h3
      obtain ⟨k, hk⟩ : ∃ k, n.toNat = k + 4 := ⟨n.toNat - 4, by omega⟩
      rw [if_neg h3, hsub, hk]
      match data, hn with
      | d :: data, _ => rfl
      | [], hn => exact absurd hn (by simp only [List.length_nil]; omega)
  | [a, b], hn => exact absurd hn (by simp only [List.length_cons, List.length_nil]; omega)
  | [a], hn => exact absurd hn (by simp only [List.length_cons, List.length_nil]; omega)
  | [], hn => exact absurd hn (by simp only [List.length_nil]; omega)

/-- `buf` holds these events, up to `wptr`. -/
structure SysEx.Holds (s : SysEx) (q : List EventPacket) : Prop where
  wptr : s.wptr.toNat = 4 * q.length
  buf : s.buf.toList.take (4 * q.length) = eventBytes q

/-- An event is stored after the others. -/
theorem SysEx.Holds.store {s : SysEx} {q : List EventPacket} (h : s.Holds q)
    (hroom : 4 * q.length + 4 ≤ eventPacketSize) (e : EventPacket) (n : BitVec 16)
    (data : List Byte) :
    ∃ buf, stores s.buf s.wptr.toNat e.bytes = some buf ∧
      SysEx.Holds { s with buf := buf, wptr := s.wptr + 4, n := n, data := data } (q ++ [e]) := by
  have hfits : s.wptr.toNat + e.bytes.length ≤ eventPacketSize := by
    rw [h.wptr]
    exact hroom
  obtain ⟨buf, hstores, hbuf⟩ := stores_of_le s.buf hfits
  have h64 : eventPacketSize = 64 := rfl
  have hfour : (4 : Byte).toNat = 4 := rfl
  have hlen : (q ++ [e]).length = q.length + 1 := List.length_append
  refine ⟨buf, hstores, ?_, ?_⟩
  · have hwptr := h.wptr
    rw [hlen, BitVec.toNat_add, hfour]
    omega
  · have hbytes : (eventBytes q ++ e.bytes).length = 4 * (q.length + 1) := by
      rw [List.length_append, eventBytes_length]
      rfl
    rw [hbuf, h.wptr, h.buf, hlen, List.take_left' hbytes, eventBytes_append]
    rfl

/-- What is loaded to be sent. -/
theorem SysEx.Holds.out {s : SysEx} {q : List EventPacket} (h : s.Holds q)
    (hroom : 4 * q.length ≤ eventPacketSize) : loads s.buf 0 s.wptr.toNat = some (eventBytes q) := by
  have hend : 0 + 4 * q.length ≤ eventPacketSize := by rwa [Nat.zero_add]
  rw [h.wptr, loads_of_le s.buf hend, List.drop_zero, h.buf]

/-- Nothing is left to send. -/
theorem sent_of_zero (nCable : Byte) {s : SysEx} {q : List EventPacket} (hzero : s.n = 0)
    (hempty : q = []) :
    Sent 0 s.taken s.taken (eventBytes (q ++ sysExEvents nCable (s.data.take s.n.toNat))) := by
  rw [hempty, hzero]
  exact ⟨fun _ => (List.append_nil _).symm, fun h => absurd rfl h⟩

theorem sysExLoop_sent (nCable : Byte) {maxpkt : Byte} (hmax : maxpkt.toNat ≤ eventPacketSize)
    {rounds : ℕ} {bus : ℕ → OutBus} (htime : ∀ k, (bus k).InTime) {s : SysEx}
    {q : List EventPacket} (hs : s.Holds q) (hroom : q = [] ∨ s.wptr < maxpkt)
    (hempty : s.n = 0 → q = []) (hn : s.n.toNat ≤ s.data.length) (hrounds : s.n.toNat ≤ rounds) :
    ∃ rcode s', sysExLoop nCable maxpkt rounds bus s = some (rcode, s') ∧
      Sent rcode s'.taken s.taken
        (eventBytes (q ++ sysExEvents nCable (s.data.take s.n.toNat))) ∧
      ((∀ k, s.midi.Takes (bus k)) → rcode = 0) := by
  induction rounds generalizing bus s q with
  | zero =>
    have hzero : s.n = 0 := BitVec.eq_of_toNat_eq (Nat.le_zero.mp hrounds)
    exact ⟨0, s, rfl, sent_of_zero nCable hzero (hempty hzero), fun _ => rfl⟩
  | succ rounds ih =>
    by_cases hzero : s.n = 0
    · exact ⟨0, s, if_pos hzero, sent_of_zero nCable hzero (hempty hzero), fun _ => rfl⟩
    obtain ⟨e, n', data', hround, hless, hn', hevents⟩ := sysExRound_spec nCable hzero hn
    have hrounds' : n'.toNat ≤ rounds := by omega
    have h64 : eventPacketSize = 64 := rfl
    have hfits : 4 * q.length + 4 ≤ eventPacketSize := by
      rcases hroom with rfl | hlt
      · decide
      · rw [BitVec.lt_def, hs.wptr] at hlt
        omega
    obtain ⟨buf, hstores, hholds⟩ := hs.store hfits e n' data'
    have hsplit : q ++ e :: sysExEvents nCable (data'.take n'.toNat)
        = (q ++ [e]) ++ sysExEvents nCable (data'.take n'.toNat) := by simp
    rw [hevents, hsplit]
    unfold sysExLoop
    rw [if_neg hzero]
    simp only [hround, hstores, Option.bind_eq_bind, Option.bind_some]
    split
    · -- the buffer is sent
      have hroom' : 4 * (q ++ [e]).length ≤ eventPacketSize := by
        rw [List.length_append]
        exact hfits
      have hloads : loads buf 0 (s.wptr + 4).toNat = some (eventBytes (q ++ [e])) :=
        hholds.out hroom'
      have hne : eventBytes (q ++ [e]) ≠ [] := by
        rw [eventBytes_append]
        exact List.append_ne_nil_of_right_ne_nil _ (List.cons_ne_nil _ _)
      have hsent := (outTransfer_sent (htime 0) s.midi hne).prepend s.taken
      have htakes : s.midi.Takes (bus 0) →
          (s.midi.outTransfer (bus 0) (eventBytes (q ++ [e]))).1.rcode = 0 :=
        fun ht => outTransfer_takes ht (by rw [eventBytes_length]; exact hroom')
      have hsame := outTransfer_sameEndpoints s.midi (bus 0) (eventBytes (q ++ [e]))
      rw [hloads, Option.bind_some]
      generalize s.midi.outTransfer (bus 0) (eventBytes (q ++ [e])) = r at hsent htakes hsame ⊢
      split
      · rename_i herror
        refine ⟨_, _, rfl, ?_, fun ht => htakes (ht 0)⟩
        rw [eventBytes_append]
        exact hsent.of_error herror _
      · rename_i hok
        have htaken := hsent.complete (not_not.mp hok)
        obtain ⟨rcode, s', hloop, hrest, hcode⟩ := ih (fun k => htime (k + 1)) (q := [])
          (s := ⟨r.2, buf, 0, n', data', s.taken ++ r.1.taken⟩) ⟨rfl, rfl⟩ (Or.inl rfl)
          (fun _ => rfl) hn' hrounds'
        refine ⟨rcode, s', hloop, ?_, fun ht => hcode fun k => hsame.takes (ht (k + 1))⟩
        rw [eventBytes_append]
        refine Sent.append ?_
        rw [← htaken]
        exact hrest
    · -- there is room for more
      rename_i hmore
      rw [not_or] at hmore
      obtain ⟨rcode, s', hloop, hrest, hcode⟩ := ih htime hholds
        (Or.inr (BitVec.not_le.mp hmore.1)) (fun hz => absurd hz hmore.2) hn' hrounds'
      exact ⟨rcode, s', hloop, hrest, hcode⟩

theorem sendSysEx_sent {m : Midi} (hm : (m.epInfo epDataInIndex).maxPktSize.toNat ≤ eventPacketSize)
    (buf : List.Vector Byte eventPacketSize) {data : List Byte} {datasize : BitVec 16}
    (hsize : datasize.toNat ≤ data.length) (nCable : Byte) {bus : ℕ → OutBus}
    (htime : ∀ k, (bus k).InTime) :
    ∃ rcode s, m.sendSysEx buf data datasize nCable bus = some (rcode, s) ∧
      Sent rcode s.taken [] (eventBytes (sysExEvents nCable (data.take datasize.toNat))) ∧
      ((∀ k, m.Takes (bus k)) → rcode = 0) :=
  sysExLoop_sent nCable hm htime (q := []) (s := ⟨m, buf, 0, datasize, data, []⟩) ⟨rfl, rfl⟩
    (Or.inl rfl) (fun _ => rfl) hsize (Nat.le_refl _)

/-- **A System Exclusive message comes back as it was**: in every exchange
that ends in time, `SendSysEx` returns, no access of it leaves its buffers,
and what the device takes is, all of it if the code is 0 and else a part from
the start, a list of events whose contents are the message. None of them
reads as the end of a buffer. With a device that takes every packet the code
is 0. -/
theorem sendSysEx_round_trip {m : Midi}
    (hm : (m.epInfo epDataInIndex).maxPktSize.toNat ≤ eventPacketSize)
    (buf : List.Vector Byte eventPacketSize) {data : List Byte} {datasize : BitVec 16}
    (hsize : datasize.toNat ≤ data.length) (nCable : Byte) {bus : ℕ → OutBus}
    (htime : ∀ k, (bus k).InTime) :
    ∃ rcode s es, m.sendSysEx buf data datasize nCable bus = some (rcode, s) ∧
      Sent rcode s.taken [] (eventBytes es) ∧
      es.flatMap EventPacket.sysEx = data.take datasize.toNat ∧ (∀ e ∈ es, ¬ e.Ends) ∧
      ((∀ k, m.Takes (bus k)) → rcode = 0 ∧ s.taken = eventBytes es) := by
  obtain ⟨rcode, s, hsend, hsent, hcode⟩ := sendSysEx_sent hm buf hsize nCable htime
  exact ⟨rcode, s, _, hsend, hsent, sysExEvents_sysEx nCable _, sysExEvents_not_ends nCable _,
    fun ht => ⟨hcode ht, hsent.complete (hcode ht)⟩⟩

/-- A driver of a keyboard with packets of 64 bytes each way. -/
def keyboardMidi : Midi :=
  { (default : Midi) with
    bAddress := 1
    bPollEnable := true
    epInfo := fun i => ⟨BitVec.ofNat 8 i, 64, false, false, 1⟩ }

/-- A device that takes every packet at once. -/
def takesAll (_ : ℕ) : OutBus := ⟨0, 0, [⟨0, true⟩]⟩

theorem takesAll_inTime (k : ℕ) : (takesAll k).InTime := by
  intro a ha
  rw [List.mem_singleton.mp ha]

theorem keyboardMidi_takes (k : ℕ) : keyboardMidi.Takes (takesAll k) :=
  ⟨rfl, by decide, by decide, .last rfl (by decide)⟩

/-- A message of five bytes is taken, as the contents of two events. -/
theorem sendSysEx_round_trip_five :
    ∃ s es, keyboardMidi.sendSysEx (List.Vector.replicate _ 0) [0xF0, 1, 2, 3, 0xF7] 5 0 takesAll
        = some (0, s) ∧
      s.taken = eventBytes es ∧ es.flatMap EventPacket.sysEx = [0xF0, 1, 2, 3, 0xF7] := by
  have hsize : (5 : BitVec 16).toNat ≤ ([0xF0, 1, 2, 3, 0xF7] : List Byte).length := by decide
  obtain ⟨rcode, s, es, hsend, -, hes, -, htakes⟩ := sendSysEx_round_trip (m := keyboardMidi)
    (by decide) (List.Vector.replicate _ 0) hsize 0 takesAll_inTime
  obtain ⟨hzero, htaken⟩ := htakes keyboardMidi_takes
  rw [hzero] at hsend
  exact ⟨s, es, hsend, htaken, hes⟩

/-! ## §3 `SendData` -/

/-- The search stops at the terminator, unless the limit comes first. -/
theorem countLoop_spec {data : List Byte} {k : ℕ} (hk : data[k]? = some 0xF7)
    (hbefore : ∀ j < k, data[j]? ≠ some 0xF7) (left : ℕ) {c : ℕ} (hc : 0 < c) (hck : c ≤ k + 1) :
    countLoop data c left = some (if k + 1 ≤ c + left then k + 1 else 0) := by
  have hlen : k < data.length := (List.getElem?_eq_some_iff.mp hk).1
  have hother : ∀ j < k, ∃ b, data[j]? = some b ∧ b ≠ 0xF7 := by
    intro j hj
    have hlt : j < data.length := by omega
    refine ⟨data[j], List.getElem?_eq_getElem hlt, fun hb => hbefore j hj ?_⟩
    rw [List.getElem?_eq_getElem hlt, hb]
  induction left generalizing c with
  | zero =>
    rw [countLoop]
    by_cases hend : c - 1 = k
    · rw [hend, hk, if_pos (by omega)]
      exact congrArg some ((if_pos rfl).trans (by omega))
    · obtain ⟨b, hb, hne⟩ := hother (c - 1) (by omega)
      rw [hb, if_neg (by omega)]
      exact congrArg some (if_neg hne)
  | succ left ih =>
    rw [countLoop]
    by_cases hend : c - 1 = k
    · rw [hend, hk, Option.bind_eq_bind, Option.bind_some, if_pos rfl, if_pos (by omega)]
      exact congrArg some (by omega)
    · obtain ⟨b, hb, hne⟩ := hother (c - 1) (by omega)
      rw [hb, Option.bind_eq_bind, Option.bind_some, if_neg hne, ih (by omega) (by omega)]
      congr 2
      rw [Nat.add_assoc, Nat.add_comm 1]

/-- A System Exclusive message of up to 256 bytes, both ends counted, is
measured right; a longer one counts as none. -/
theorem countSysExDataSize_spec {body : List Byte} (hbody : 0xF7 ∉ body) (rest : List Byte) :
    countSysExDataSize (0xF0 :: (body ++ 0xF7 :: rest))
      = some (if body.length + 2 ≤ maxSysExSize then body.length + 2 else 0) := by
  have hk : (0xF0 :: (body ++ 0xF7 :: rest))[body.length + 1]? = some 0xF7 := by simp
  have hbefore : ∀ j < body.length + 1, (0xF0 :: (body ++ 0xF7 :: rest))[j]? ≠ some 0xF7 := by
    intro j hj
    cases j with
    | zero =>
      intro h
      cases h
    | succ j =>
      have hlt : j < body.length := by omega
      rw [List.getElem?_cons_succ, List.getElem?_append_left hlt, List.getElem?_eq_getElem hlt]
      intro h
      exact hbody (Option.some.inj h ▸ List.getElem_mem hlt)
  have hcount := countLoop_spec hk hbefore (maxSysExSize - 1) (c := 1) (by omega) (by omega)
  have hlimit : 1 + (maxSysExSize - 1) = maxSysExSize := rfl
  have hsysEx : ¬ (0xF0 : Byte) ≠ 0xF0 := not_not.mpr rfl
  rw [hlimit] at hcount
  rw [countSysExDataSize, List.getElem?_cons_zero, Option.bind_eq_bind, Option.bind_some,
    if_neg hsysEx, hcount]

/-- **`SendData` finds the end of a System Exclusive message**, and sends it
as `sendSysEx_round_trip` says if it has at most 256 bytes: whole, to a device
that takes every packet. A longer one it does not send, and returns 0 all the
same. -/
theorem sendData_sysEx {m : Midi}
    (hm : (m.epInfo epDataInIndex).maxPktSize.toNat ≤ eventPacketSize)
    (buf : List.Vector Byte 4) (sysExBuf : List.Vector Byte eventPacketSize) {body : List Byte}
    (hbody : 0xF7 ∉ body) (rest : List Byte) (nCable : Byte) {bus : ℕ → OutBus}
    (htime : ∀ k, (bus k).InTime) :
    let sent := m.sendData buf sysExBuf (0xF0 :: (body ++ 0xF7 :: rest)) nCable bus
    (body.length + 2 ≤ maxSysExSize → ∃ r es, sent = some r ∧
      Sent r.rcode r.taken [] (eventBytes es) ∧
      es.flatMap EventPacket.sysEx = 0xF0 :: (body ++ [0xF7]) ∧
      ((∀ k, m.Takes (bus k)) → r.rcode = 0 ∧ r.taken = eventBytes es)) ∧
      (maxSysExSize < body.length + 2 → sent = some ⟨0, m, []⟩) := by
  intro sent
  have hcall : sent = (m.sendSysEx sysExBuf (0xF0 :: (body ++ 0xF7 :: rest))
      (BitVec.ofNat 16 (if body.length + 2 ≤ maxSysExSize then body.length + 2 else 0)) nCable
      bus).bind (fun r => some ⟨r.1, r.2.midi, r.2.taken⟩) := by
    show Midi.sendData m buf sysExBuf (0xF0 :: (body ++ 0xF7 :: rest)) nCable bus = _
    rw [Midi.sendData, List.getElem?_cons_zero, Option.bind_eq_bind, Option.bind_some, if_pos rfl,
      countSysExDataSize_spec hbody rest]
    rfl
  constructor
  · intro hle
    have h256 : maxSysExSize = 256 := rfl
    have hsize : (BitVec.ofNat 16 (body.length + 2)).toNat = body.length + 2 := by
      rw [BitVec.toNat_ofNat]
      omega
    have hfits : (BitVec.ofNat 16 (body.length + 2)).toNat
        ≤ (0xF0 :: (body ++ 0xF7 :: rest)).length := by
      rw [hsize]
      simp
    obtain ⟨rcode, s, hsend, hsent, hcode⟩ := sendSysEx_sent hm sysExBuf hfits nCable htime
    refine ⟨⟨rcode, s.midi, s.taken⟩, _, ?_, hsent, ?_,
      fun ht => ⟨hcode ht, hsent.complete (hcode ht)⟩⟩
    · rw [hcall, if_pos hle, hsend]
      rfl
    · rw [sysExEvents_sysEx, hsize]
      simp [List.take_append]
  · intro hlt
    rw [hcall, if_neg (Nat.not_le.mpr hlt)]
    rfl

/-- The same message, and nothing behind it in memory. -/
theorem sendData_sysEx_five :
    ∃ r es, keyboardMidi.sendData (List.Vector.replicate _ 0) (List.Vector.replicate _ 0)
        (0xF0 :: ([1, 2, 3] ++ 0xF7 :: [])) 0 takesAll = some r ∧
      r.rcode = 0 ∧ r.taken = eventBytes es ∧
      es.flatMap EventPacket.sysEx = 0xF0 :: ([1, 2, 3] ++ [0xF7]) := by
  have hbody : (0xF7 : Byte) ∉ [1, 2, 3] := by decide
  obtain ⟨r, es, hsend, -, hes, htakes⟩ := (sendData_sysEx (m := keyboardMidi) (by decide)
    (List.Vector.replicate _ 0) (List.Vector.replicate _ 0) hbody [] 0 takesAll_inTime).1 (by decide)
  obtain ⟨hzero, htaken⟩ := htakes keyboardMidi_takes
  exact ⟨r, es, hsend, hzero, htaken, hes⟩

/-- The codes of the table are those of messages. -/
theorem convertStatus2Cin_code : ∀ status : Byte,
    convertStatus2Cin status &&& 0x0F = convertStatus2Cin status ∧
      (getMsgSizeFromCin (convertStatus2Cin status)).toNat ≤ 3 := by
  decide +kernel

/-- The event of a message carries its size and its bytes. -/
theorem messageEvent_spec (buf : List.Vector Byte 4) {data : List Byte} {status : Byte}
    (hstatus : data[0]? = some status) (hlen : (lookupMsgSize status 0).toNat ≤ data.length)
    (nCable : Byte) :
    ∃ e : EventPacket, messageEvent buf data nCable = some e.bytes ∧ e.midi0 = status ∧
      e.size = lookupMsgSize status 0 ∧
      (e.outBuf false).take e.size.toNat = data.take e.size.toNat := by
  obtain ⟨hcode, hsize⟩ := convertStatus2Cin_code status
  let cin := convertStatus2Cin status
  have hlookup : lookupMsgSize status 0 = getMsgSizeFromCin cin := rfl
  have hheader : ∀ a b c : Byte,
      EventPacket.size ⟨eventHeader nCable cin, a, b, c⟩ = getMsgSizeFromCin cin := fun a b c =>
    congrArg getMsgSizeFromCin (eventHeader_code nCable hcode)
  obtain ⟨data, rfl⟩ : ∃ rest, data = status :: rest := by
    cases data with
    | nil => cases hstatus
    | cons b rest => exact ⟨rest, by rw [Option.some.inj hstatus]⟩
  rw [hlookup] at hlen ⊢
  unfold messageEvent
  simp only [List.getElem?_cons_zero, Option.bind_eq_bind, Option.bind_some]
  by_cases h3 : getMsgSizeFromCin cin = 3
  · rw [if_pos h3]
    rw [h3] at hlen
    match data, hlen with
    | a :: b :: data, _ =>
      refine ⟨⟨eventHeader nCable cin, status, a, b⟩, rfl, rfl, hheader _ _ _, ?_⟩
      rw [hheader, h3]
      rfl
  by_cases h2 : getMsgSizeFromCin cin = 2
  · rw [if_neg h3, if_pos h2]
    rw [h2] at hlen
    match data, hlen with
    | a :: data, _ =>
      refine ⟨⟨eventHeader nCable cin, status, a, 0⟩, rfl, rfl, hheader _ _ _, ?_⟩
      rw [hheader, h2]
      rfl
  by_cases h1 : getMsgSizeFromCin cin = 1
  · rw [if_neg h3, if_neg h2, if_pos h1]
    refine ⟨⟨eventHeader nCable cin, status, 0, 0⟩, rfl, rfl, hheader _ _ _, ?_⟩
    rw [hheader, h1]
    rfl
  · -- no message begins with this byte: the event has the size 0
    have hzero : (getMsgSizeFromCin cin).toNat = 0 := by
      have hne : ∀ k : Byte, getMsgSizeFromCin cin ≠ k → (getMsgSizeFromCin cin).toNat ≠ k.toNat :=
        fun k h hk => h (BitVec.eq_of_toNat_eq hk)
      have hthree : (getMsgSizeFromCin cin).toNat ≠ 3 := hne 3 h3
      have htwo : (getMsgSizeFromCin cin).toNat ≠ 2 := hne 2 h2
      have hone : (getMsgSizeFromCin cin).toNat ≠ 1 := hne 1 h1
      have hle : (getMsgSizeFromCin cin).toNat ≤ 3 := hsize
      omega
    have hload : ∀ i < 4, ∃ b, load buf i = some b := fun i hi =>
      ⟨_, List.getElem?_eq_getElem (hi.trans_eq buf.toList_length.symm)⟩
    obtain ⟨a, ha⟩ := hload 2 (by decide)
    obtain ⟨b, hb⟩ := hload 3 (by decide)
    rw [if_neg h3, if_neg h2, if_neg h1, ha, hb]
    refine ⟨⟨eventHeader nCable cin, status, a, b⟩, rfl, rfl, hheader _ _ _, ?_⟩
    rw [hheader, hzero, List.take_zero, List.take_zero]

/-- **A message comes back as it was sent**, driver to driver: in every
exchange that ends in time `SendData` sends one event or reports an error,
and it sends the event to a device that takes every packet; when the event is
sent to any driver that has nothing queued, the next call of `RecvData`
returns the size of the message and stores its bytes. -/
theorem sendData_round_trip {m : Midi} (buf : List.Vector Byte 4)
    (sysExBuf : List.Vector Byte eventPacketSize) {data : List Byte} {status : Byte}
    (hstatus : data[0]? = some status) (hmessage : 0x80 ≤ status) (hsysEx : status ≠ 0xF0)
    (hlen : (lookupMsgSize status 0).toNat ≤ data.length) (nCable : Byte) {bus : ℕ → OutBus}
    (htime : (bus 0).InTime) :
    ∃ r event, m.sendData buf sysExBuf data nCable bus = some r ∧
      Sent r.rcode r.taken [] event ∧
      (m.Takes (bus 0) → r.rcode = 0 ∧ r.taken = event) ∧
      ∀ (m' : Midi) (bus' : Bus), m'.Sound → m'.bPollEnable = true → m'.pending = [] →
        bus'.setAddress = 0 →
        Sends m'.inEntry.maxPktSize.toNat (m'.epInfo epDataInIndex).maxPktSize.toNat event
          bus'.answers →
        ∃ received, m'.recvData false bus' = some received ∧
          received.size = lookupMsgSize status 0 ∧
          received.outBuf.take received.size.toNat = data.take received.size.toNat := by
  obtain ⟨e, hevent, hmidi, hsize, hbytes⟩ := messageEvent_spec buf hstatus hlen nCable
  have hsent := outTransfer_sent htime m (List.cons_ne_nil _ _ : e.bytes ≠ [])
  have hfour : e.bytes.length ≤ eventPacketSize := (by decide : 4 ≤ eventPacketSize)
  refine ⟨⟨(m.outTransfer (bus 0) e.bytes).1.rcode, (m.outTransfer (bus 0) e.bytes).2,
    (m.outTransfer (bus 0) e.bytes).1.taken⟩, e.bytes, ?_, hsent,
    fun ht => ⟨outTransfer_takes ht hfour, hsent.complete (outTransfer_takes ht hfour)⟩, ?_⟩
  · unfold Midi.sendData
    rw [hstatus, Option.bind_eq_bind, Option.bind_some, if_neg hsysEx, hevent]
    rfl
  intro m' bus' hsound hon hqueue haddr hsends
  have hblank : e ≠ EventPacket.blank := by
    intro h
    rw [h] at hmidi
    rw [← hmidi] at hmessage
    revert hmessage
    decide
  have hone : eventBytes [e] = e.bytes := List.flatMap_singleton _ _
  have harrives : m'.arrivals bus' = [e] := by
    rw [← hone] at hsends
    rw [arrivals_of_sends hsound haddr hsends]
    have hle : [e].length ≤ 16 := by simp
    exact (arriving_eq_iff _ hle).mpr ⟨fun h => hblank (Option.some.inj h), nofun, nofun, nofun⟩
  obtain ⟨received, hrecv, -, -, -, hgives⟩ := recvData_spec hsound hon false bus'
  rw [Midi.requested, if_pos hqueue, hqueue, harrives] at hgives
  refine ⟨received, hrecv, hgives.1.trans hsize, ?_⟩
  rw [hgives.1, hgives.2]
  exact hbytes

/-- A transfer of four bytes, in one packet. -/
def noteOnBus : Bus := ⟨0, [⟨0, false, true, 4, fun i => [0x09, 0x90, 60, 100].getD i 0⟩]⟩

/-- A Note On, from a keyboard's driver to another one. -/
theorem sendData_round_trip_noteOn :
    ∃ r, keyboardMidi.sendData (List.Vector.replicate _ 0) (List.Vector.replicate _ 0)
        [0x90, 60, 100] 0 takesAll = some r ∧
      r.rcode = 0 ∧ r.taken = [0x09, 0x90, 60, 100] ∧
      ∃ received, keyboardMidi.recvData false noteOnBus = some received ∧ received.size = 3 ∧
        received.outBuf.take 3 = [0x90, 60, 100] := by
  have hstatus : ([0x90, 60, 100] : List Byte)[0]? = some 0x90 := rfl
  obtain ⟨r, event, hsend, -, htakes, hrecv⟩ := sendData_round_trip (m := keyboardMidi)
    (List.Vector.replicate _ 0) (List.Vector.replicate _ 0) hstatus (by decide) (by decide)
    (by decide) 0 (takesAll_inTime 0)
  obtain ⟨hzero, htaken⟩ := htakes (keyboardMidi_takes 0)
  have hevent : r.taken = [0x09, 0x90, 60, 100] := by
    have hmap := congrArg (Option.map SentData.taken) hsend
    exact (Option.some.inj hmap).symm
  have hsends : Sends 64 64 event noteOnBus.answers := by
    rw [← htaken, hevent]
    exact .last ⟨rfl, rfl, rfl, rfl⟩ (by decide) (by decide) (Or.inl (by decide))
  obtain ⟨received, hcall, hsize, hbytes⟩ := hrecv keyboardMidi noteOnBus
    ⟨by decide, by decide, by decide⟩ rfl rfl rfl hsends
  have hthree : received.size = 3 := hsize
  rw [hthree] at hbytes
  exact ⟨r, hsend, hzero, hevent, received, hcall, hthree, hbytes⟩

end MidiSynth.Usb
