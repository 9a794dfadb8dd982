/-
MidiSynth.Usb.OutTransfer — bulk OUT transfers: `USB::OutTransfer` of
`include/Usb.cpp`.

The data goes out in packets of the endpoint's size. A packet that is not
taken is sent again: after a NAK up to the endpoint's limit, after a bus
timeout up to `USB_RETRY_LIMIT`, after a toggle error with the other toggle.
The clock is looked at before each repetition; once `USB_XFER_TIMEOUT` is
over the packet is left and the next one is sent, as if it had been taken.

The input is one `OutAnswer` for each packet dispatched, `taken` the bytes of
the packets the device took. A controller that has given all its answers
NAKs.

  §1 The transfer.
  §2 In time: what is taken is the data, or whole packets from its start.
  §3 A device that takes every packet in time: the return code is 0.
-/
import MidiSynth.Usb.Dispatch

namespace MidiSynth.Usb

open MidiSynth.Software (Byte)

/-! ## §1 The transfer -/

/-- `USB_ERROR_INVALID_MAX_PKT_SIZE`. -/
def errInvalidMaxPktSize : Byte := 0xDA

/-- What the controller answers to one OUT packet: HRSL, and whether the
clock, should it be looked at, is before the timeout. -/
structure OutAnswer where
  hrsl : Byte
  inTime : Bool

/-- `bmSNDTOGRD`. -/
def sndTogRd (hrsl : Byte) : Bool := hrsl &&& 0x20 ≠ 0

/-- What a transfer gives back, and the bytes that the device took. -/
structure OutTransfer where
  rcode : Byte
  ep : EpInfo
  taken : List Byte

/-- The end of a transfer: the toggle is read back. -/
def OutTransfer.stop (rcode hrsl : Byte) (ep : EpInfo) (taken : List Byte) : OutTransfer :=
  ⟨rcode, { ep with bmSndToggle := sndTogRd hrsl }, taken⟩

/-- The loop of `USB::OutTransfer`. `data` is what `data_p` points to, so its
packet is the one that is being sent; `hrsl` is what HRSL holds. -/
def outLoop (nakLimit : BitVec 16) (hrsl : Byte) (ep : EpInfo) (retryCount : Byte)
    (nakCount : BitVec 16) (data taken : List Byte) : List OutAnswer → OutTransfer
  | [] => .stop hrNAK hrsl ep taken
  | a :: as =>
    let rcode := hrslt a.hrsl
    if rcode = 0 ∨ a.inTime = false then
      let packet := data.take ep.maxPktSize.toNat
      let data := data.drop ep.maxPktSize.toNat
      let taken := if rcode = 0 then taken ++ packet else taken
      if data = [] then .stop rcode a.hrsl ep taken
      else outLoop nakLimit a.hrsl ep 0 0 data taken as
    else if rcode = hrNAK then
      if nakLimit ≠ 0 ∧ nakCount + 1 = nakLimit then .stop rcode a.hrsl ep taken
      else outLoop nakLimit a.hrsl ep retryCount (nakCount + 1) data taken as
    else if rcode = hrTIMEOUT then
      if retryCount + 1 = retryLimit then .stop rcode a.hrsl ep taken
      else outLoop nakLimit a.hrsl ep (retryCount + 1) nakCount data taken as
    else if rcode = hrTOGERR then
      -- the toggle is flipped wrong here so that the next packet has it right
      outLoop nakLimit a.hrsl { ep with bmSndToggle := !sndTogRd a.hrsl } retryCount nakCount data
        taken as
    else .stop rcode a.hrsl ep taken

/-- `USB::OutTransfer`. `hrsl` is what HRSL holds before. -/
def outTransfer (ep : EpInfo) (data : List Byte) (hrsl : Byte) (answers : List OutAnswer) :
    OutTransfer :=
  if ep.maxPktSize < 1 ∨ 64 < ep.maxPktSize then ⟨errInvalidMaxPktSize, ep, []⟩
  else if data = [] then .stop 0 hrsl ep []
  else outLoop ep.nakLimit hrsl ep 0 0 data [] answers

/-! ## §2 In time -/

/-- A transfer of `data` that went as it should, after the device took
`before`: all of it is taken, or the code is an error and whole packets from
the start are. -/
structure OutTransfer.Sends (t : OutTransfer) (maxPkt : ℕ) (before data : List Byte) : Prop where
  complete : t.rcode = 0 → t.taken = before ++ data
  partly : t.rcode ≠ 0 →
    ∃ k, k * maxPkt < data.length ∧ t.taken = before ++ data.take (k * maxPkt)

section Sends

variable {t : OutTransfer} {m : ℕ} {before data : List Byte}

/-- A packet that was taken, and then the rest. -/
theorem OutTransfer.Sends.of_rest (hm : m ≤ data.length)
    (h : t.Sends m (before ++ data.take m) (data.drop m)) : t.Sends m before data where
  complete := fun hzero => by
    rw [h.complete hzero, List.append_assoc, List.take_append_drop]
  partly := fun hne => by
    obtain ⟨k, hk, htaken⟩ := h.partly hne
    rw [List.length_drop] at hk
    have hsplit : (k + 1) * m = m + k * m := by rw [Nat.succ_mul, Nat.add_comm]
    refine ⟨k + 1, by omega, ?_⟩
    rw [htaken, hsplit, List.take_add, List.append_assoc]

/-- Nothing more was taken. -/
theorem OutTransfer.Sends.of_error (hne : t.rcode ≠ 0) (hdata : data ≠ []) (ht : t.taken = before) :
    t.Sends m before data where
  complete := fun hzero => absurd hzero hne
  partly := fun _ => by
    refine ⟨0, ?_, ?_⟩
    · rw [Nat.zero_mul]
      exact List.length_pos_of_ne_nil hdata
    · rw [Nat.zero_mul, List.take_zero, List.append_nil, ht]

end Sends

theorem outLoop_sends {nakLimit : BitVec 16} {m : ℕ} {answers : List OutAnswer}
    (htime : ∀ a ∈ answers, a.inTime = true) (hrsl : Byte) {ep : EpInfo}
    (hm : ep.maxPktSize.toNat = m) (retryCount : Byte) (nakCount : BitVec 16) {data : List Byte}
    (hdata : data ≠ []) (before : List Byte) :
    (outLoop nakLimit hrsl ep retryCount nakCount data before answers).Sends m before data := by
  induction answers generalizing hrsl ep retryCount nakCount data before with
  | nil =>
    have hnak : hrNAK ≠ 0 := by decide
    exact .of_error hnak hdata rfl
  | cons a as ih =>
    obtain ⟨ha, has⟩ := List.forall_mem_cons.mp htime
    unfold outLoop
    simp only [ha, Bool.true_eq_false, or_false]
    split
    · rename_i hzero
      rw [hm]
      by_cases hleft : data.drop m = []
      · -- the last packet
        have hall : data.take m = data := by
          have hsplit := List.take_append_drop m data
          rwa [hleft, List.append_nil] at hsplit
        rw [if_pos hleft, hall]
        exact ⟨fun _ => rfl, fun hne => absurd hzero hne⟩
      · have hle : m ≤ data.length := Nat.le_of_lt (by simpa using hleft)
        rw [if_neg hleft]
        exact OutTransfer.Sends.of_rest hle (ih has _ hm _ _ hleft _)
    · rename_i hne
      split
      · split
        · exact .of_error hne hdata rfl
        · exact ih has _ hm _ _ hdata _
      split
      · split
        · exact .of_error hne hdata rfl
        · exact ih has _ hm _ _ hdata _
      split
      · refine ih has _ ?_ _ _ hdata _
        exact hm
      · exact .of_error hne hdata rfl

/-- **A transfer that ends in time sends its data**: a return code of 0 means
that the device took all of it, every byte once and in order, and an error
that it took a number of whole packets. -/
theorem outTransfer_sends (ep : EpInfo) {data : List Byte} {answers : List OutAnswer}
    (htime : ∀ a ∈ answers, a.inTime = true) (hdata : data ≠ []) (hrsl : Byte) :
    (outTransfer ep data hrsl answers).Sends ep.maxPktSize.toNat [] data := by
  unfold outTransfer
  rw [if_neg hdata]
  split
  · have hinvalid : errInvalidMaxPktSize ≠ 0 := by decide
    exact .of_error hinvalid hdata rfl
  · exact outLoop_sends htime hrsl rfl 0 0 hdata []

/-- Out of time, a packet is lost and the code is still 0. -/
example :
    let t := outTransfer ⟨2, 2, false, false, 1⟩ [1, 2, 3, 4] 0 [⟨hrTIMEOUT, false⟩, ⟨0, true⟩]
    t.rcode = 0 ∧ t.taken = [3, 4] := by decide

/-! ## §3 A device that takes every packet -/

/-- The device takes the packets of the `left` bytes to come, of `m` bytes
each, before the limits are reached and the time is over: fewer than `limit`
NAKs a packet (any number if that is 0), and fewer than `USB_RETRY_LIMIT`
timeouts. `naks` and `retries` are those the packet at hand has had. -/
inductive Accepts (m limit : ℕ) : ℕ → ℕ → ℕ → List OutAnswer → Prop where
  | last {left naks retries : ℕ} {a : OutAnswer} {as : List OutAnswer} (ha : hrslt a.hrsl = 0)
      (hleft : left ≤ m) : Accepts m limit left naks retries (a :: as)
  | more {left naks retries : ℕ} {a : OutAnswer} {as : List OutAnswer} (ha : hrslt a.hrsl = 0)
      (hleft : m < left) (has : Accepts m limit (left - m) 0 0 as) :
      Accepts m limit left naks retries (a :: as)
  | nak {left naks retries : ℕ} {a : OutAnswer} {as : List OutAnswer} (ha : hrslt a.hrsl = hrNAK)
      (htime : a.inTime = true) (hlimit : limit = 0 ∨ naks + 1 < limit)
      (has : Accepts m limit left (naks + 1) retries as) :
      Accepts m limit left naks retries (a :: as)
  | timeout {left naks retries : ℕ} {a : OutAnswer} {as : List OutAnswer}
      (ha : hrslt a.hrsl = hrTIMEOUT) (htime : a.inTime = true)
      (hlimit : retries + 1 < retryLimit.toNat)
      (has : Accepts m limit left naks (retries + 1) as) :
      Accepts m limit left naks retries (a :: as)
  | toggle {left naks retries : ℕ} {a : OutAnswer} {as : List OutAnswer}
      (ha : hrslt a.hrsl = hrTOGERR) (htime : a.inTime = true)
      (has : Accepts m limit left naks retries as) : Accepts m limit left naks retries (a :: as)

/-- It takes fewer bytes as well. -/
theorem Accepts.of_le {m limit left left' naks retries : ℕ} {answers : List OutAnswer}
    (h : Accepts m limit left naks retries answers) (hle : left' ≤ left) :
    Accepts m limit left' naks retries answers := by
  induction h generalizing left' with
  | last ha hleft => exact .last ha (hle.trans hleft)
  | more ha hleft _ ih =>
    by_cases hshort : left' ≤ m
    · exact .last ha hshort
    · exact .more ha (Nat.not_le.mp hshort) (ih (Nat.sub_le_sub_right hle m))
  | nak ha htime hlimit _ ih => exact .nak ha htime hlimit (ih hle)
  | timeout ha htime hlimit _ ih => exact .timeout ha htime hlimit (ih hle)
  | toggle ha htime _ ih => exact .toggle ha htime (ih hle)

/-- The counters of the packet at hand, as the code keeps them. -/
structure Counts (nakLimit : BitVec 16) (naks retries : ℕ) (nakCount : BitVec 16)
    (retryCount : Byte) : Prop where
  naks : nakLimit.toNat ≠ 0 → nakCount.toNat = naks
  retries : retryCount.toNat = retries

theorem counts_zero (nakLimit : BitVec 16) : Counts nakLimit 0 0 0 0 := ⟨fun _ => rfl, rfl⟩

theorem Counts.nak {nakLimit nakCount : BitVec 16} {naks retries : ℕ} {retryCount : Byte}
    (h : Counts nakLimit naks retries nakCount retryCount)
    (hlimit : nakLimit.toNat = 0 ∨ naks + 1 < nakLimit.toNat) :
    ¬ (nakLimit ≠ 0 ∧ nakCount + 1 = nakLimit) ∧
      Counts nakLimit (naks + 1) retries (nakCount + 1) retryCount := by
  rcases hlimit with hzero | hlt
  · exact ⟨fun hne => hne.1 (BitVec.eq_of_toNat_eq hzero), fun hne => absurd hzero hne, h.retries⟩
  · have hcount : nakCount.toNat = naks := h.naks (by omega)
    have hnext : (nakCount + 1).toNat = naks + 1 := by
      rw [toNat_succ_of_lt (show nakCount.toNat < nakLimit.toNat by omega), hcount]
    refine ⟨fun hend => ?_, fun _ => hnext, h.retries⟩
    rw [hend.2] at hnext
    omega

theorem Counts.timeout {nakLimit nakCount : BitVec 16} {naks retries : ℕ} {retryCount : Byte}
    (h : Counts nakLimit naks retries nakCount retryCount)
    (hlimit : retries + 1 < retryLimit.toNat) :
    ¬ retryCount + 1 = retryLimit ∧
      Counts nakLimit naks (retries + 1) nakCount (retryCount + 1) := by
  have hcount := h.retries
  have hnext : (retryCount + 1).toNat = retries + 1 := by
    rw [toNat_succ_of_lt (show retryCount.toNat < retryLimit.toNat by omega), hcount]
  refine ⟨fun hend => ?_, h.naks, hnext⟩
  rw [hend] at hnext
  omega

theorem outLoop_accepts {nakLimit : BitVec 16} {m left naks retries : ℕ} {answers : List OutAnswer}
    (h : Accepts m nakLimit.toNat left naks retries answers) (hrsl : Byte) {ep : EpInfo}
    (hm : ep.maxPktSize.toNat = m) {nakCount : BitVec 16} {retryCount : Byte}
    (hcounts : Counts nakLimit naks retries nakCount retryCount) {data : List Byte}
    (hdata : data.length = left) (before : List Byte) :
    (outLoop nakLimit hrsl ep retryCount nakCount data before answers).rcode = 0 := by
  have hcodes : hrNAK ≠ 0 ∧ hrTIMEOUT ≠ 0 ∧ hrTOGERR ≠ 0 ∧ hrTIMEOUT ≠ hrNAK ∧ hrTOGERR ≠ hrNAK ∧
      hrTOGERR ≠ hrTIMEOUT := by decide
  obtain ⟨hnak, htimeout, htoggle, hne₁, hne₂, hne₃⟩ := hcodes
  induction h generalizing hrsl ep nakCount retryCount data before with
  | last ha hleft =>
    have hend : data.drop ep.maxPktSize.toNat = [] := List.drop_eq_nil_of_le (by omega)
    unfold outLoop
    simp only [ha, true_or, if_true, hend]
    rfl
  | more ha hleft _ ih =>
    have hgo : ¬ data.drop ep.maxPktSize.toNat = [] := by
      rw [List.drop_eq_nil_iff]
      omega
    unfold outLoop
    simp only [ha, true_or, if_true, if_neg hgo]
    exact ih _ hm (counts_zero nakLimit) (by rw [List.length_drop]; omega) _
  | nak ha htime hlimit _ ih =>
    obtain ⟨hgo, hcounts'⟩ := hcounts.nak hlimit
    unfold outLoop
    simp only [ha, htime, hnak, Bool.true_eq_false, or_self, if_false, if_true, if_neg hgo]
    exact ih _ hm hcounts' hdata _
  | timeout ha htime hlimit _ ih =>
    obtain ⟨hgo, hcounts'⟩ := hcounts.timeout hlimit
    unfold outLoop
    simp only [ha, htime, htimeout, hne₁, Bool.true_eq_false, or_self, if_false, if_true,
      if_neg hgo]
    exact ih _ hm hcounts' hdata _
  | toggle ha htime _ ih =>
    unfold outLoop
    simp only [ha, htime, htoggle, hne₂, hne₃, Bool.true_eq_false, or_self, if_false, if_true]
    refine ih _ ?_ hcounts hdata _
    exact hm

/-- **A device that takes every packet in time** gets the whole transfer, and
the return code is 0. -/
theorem outTransfer_accepts {ep : EpInfo} (hpos : 1 ≤ ep.maxPktSize.toNat)
    (hle : ep.maxPktSize.toNat ≤ 64) {data : List Byte} {answers : List OutAnswer}
    (h : Accepts ep.maxPktSize.toNat ep.nakLimit.toNat data.length 0 0 answers) (hrsl : Byte) :
    (outTransfer ep data hrsl answers).rcode = 0 := by
  have hsize : ¬ (ep.maxPktSize < 1 ∨ 64 < ep.maxPktSize) := by
    rw [not_or, BitVec.lt_def, BitVec.lt_def]
    exact ⟨Nat.not_lt.mpr hpos, Nat.not_lt.mpr hle⟩
  rw [outTransfer, if_neg hsize]
  split
  · rfl
  · exact outLoop_accepts h hrsl rfl (counts_zero _) rfl []

/-- What a transfer keeps of an endpoint's record: all but the toggle. -/
structure SameEndpoint (ep ep' : EpInfo) : Prop where
  epAddr : ep'.epAddr = ep.epAddr
  maxPktSize : ep'.maxPktSize = ep.maxPktSize
  bmNakPower : ep'.bmNakPower = ep.bmNakPower

@[refl] theorem SameEndpoint.refl (ep : EpInfo) : SameEndpoint ep ep := ⟨rfl, rfl, rfl⟩

theorem outLoop_ep (nakLimit : BitVec 16) (hrsl : Byte) (ep : EpInfo) (retryCount : Byte)
    (nakCount : BitVec 16) (data taken : List Byte) (answers : List OutAnswer) :
    SameEndpoint ep (outLoop nakLimit hrsl ep retryCount nakCount data taken answers).ep := by
  induction answers generalizing hrsl ep retryCount nakCount data taken with
  | nil => exact ⟨rfl, rfl, rfl⟩
  | cons a as ih =>
    unfold outLoop
    dsimp only
    split
    · split
      · exact ⟨rfl, rfl, rfl⟩
      · exact ih _ _ _ _ _ _
    split
    · split
      · exact ⟨rfl, rfl, rfl⟩
      · exact ih _ _ _ _ _ _
    split
    · split
      · exact ⟨rfl, rfl, rfl⟩
      · exact ih _ _ _ _ _ _
    split
    · obtain ⟨haddr, hsize, hpower⟩ := ih a.hrsl { ep with bmSndToggle := !sndTogRd a.hrsl }
        retryCount nakCount data taken
      exact ⟨haddr, hsize, hpower⟩
    · exact ⟨rfl, rfl, rfl⟩

theorem outTransfer_ep (ep : EpInfo) (data : List Byte) (hrsl : Byte) (answers : List OutAnswer) :
    SameEndpoint ep (outTransfer ep data hrsl answers).ep := by
  rw [outTransfer]
  split
  · rfl
  split
  · exact ⟨rfl, rfl, rfl⟩
  · exact outLoop_ep _ _ _ _ _ _ _ _

end MidiSynth.Usb
