/-
MidiSynth.Usb.TaskTheorems — what enumeration and `Task` keep.

Between two calls the driver either has no device (`Host.Idle`) or has one
that is configured (`Host.Ready`): `Init` is all or nothing (`init_spec`),
whatever the device answers. In both cases the tables stay in bounds. The
index of these predicates is the number of entries of the address pool that
are taken, less one if the driver has a device; which of them is the
driver's is not said, since an address may have been freed under it.

  §1 The predicates.
  §2 `Init`, stage by stage.
  §3 `Configuring`.
  §4 `Task`.
-/
import MidiSynth.Usb.ConfigTheorems
import MidiSynth.Usb.ControlTheorems
import MidiSynth.Usb.HostTask
import MidiSynth.Usb.RecvTheorems

namespace MidiSynth.Usb

open MidiSynth.Machine
open MidiSynth.Software (Byte Word)

namespace Host

/-! ## §1 What holds between two calls -/

/-- The tables: the pool is one without hubs, the control endpoint keeps its
number, and no data endpoint has packets larger than `recvBuf`. -/
structure Tidy (h : Host) : Prop where
  pool : h.pool.RootOnly
  control : (h.midi.epInfo 0).epAddr = 0
  maxPktSize_le : ∀ i, i ≠ 0 → (h.midi.epInfo i).maxPktSize.toNat ≤ eventPacketSize

/-- The driver has no device, and `n` entries of the pool are taken. -/
structure Idle (n : ℕ) (h : Host) : Prop extends Tidy h where
  bAddress : h.midi.bAddress = 0
  bPollEnable : h.midi.bPollEnable = false
  readPtr : h.midi.readPtr = 0
  taken : h.pool.taken = n

/-- In the middle of `Init`: the driver has an address. -/
structure Assigned (n : ℕ) (h : Host) : Prop extends Tidy h where
  bAddress : h.midi.bAddress = 1
  bPollEnable : h.midi.bPollEnable = false
  readPtr : h.midi.readPtr = 0
  first : (h.pool 1).devAddress = 1
  taken : h.pool.taken = n + 1

/-- The driver has a device, and `n + 1` entries of the pool are taken. -/
structure Ready (n : ℕ) (h : Host) : Prop extends Tidy h where
  bAddress : h.midi.bAddress = 1
  bPollEnable : h.midi.bPollEnable = true
  sound : h.midi.Sound
  taken : h.pool.taken = n + 1

/-- Entry 1 of the pool is the driver's, with its whole table. -/
def Linked (h : Host) : Prop :=
  (h.pool firstIndex).epinfo = .midi ∧ (h.pool firstIndex).devAddress = 1 ∧
    (h.pool firstIndex).epcount = 3

/-- At first there is no device and the pool is empty. -/
theorem fresh_idle (midi : Midi) : (Host.fresh midi).Idle 0 := by
  refine ⟨⟨AddressPool.fresh_rootOnly, rfl, fun i hi => ?_⟩, rfl, rfl, rfl, AddressPool.fresh_taken⟩
  show (if i = 0 then (8 : Byte) else 0).toNat ≤ eventPacketSize
  rw [if_neg hi]
  decide

theorem sound_of_readPtr {h : Host} (hh : h.Tidy) (hptr : h.midi.readPtr = 0) : h.midi.Sound where
  aligned := by
    rw [hptr]
    exact Nat.dvd_zero 4
  within := by
    rw [hptr]
    exact Nat.zero_le _
  maxPktSize_le := hh.maxPktSize_le _ (by decide)

/-- `Release` gives the address back. -/
theorem release_of_held {n : ℕ} {h : Host} (hh : h.Tidy) (haddr : h.midi.bAddress = 1)
    (htaken : h.pool.taken = n + 1) : h.release.Idle n := by
  obtain ⟨hpool, hcount⟩ := hh.pool.free_one (by rw [htaken]; exact Nat.succ_ne_zero n)
  have hrelease : h.release.pool = h.pool.freeAddress 1 := by
    rw [release, haddr]
  refine ⟨⟨?_, hh.control, hh.maxPktSize_le⟩, rfl, rfl, rfl, ?_⟩
  · rw [hrelease]
    exact hpool
  · rw [hrelease]
    omega

theorem Assigned.release {n : ℕ} {h : Host} (hh : h.Assigned n) : h.release.Idle n :=
  release_of_held hh.toTidy hh.bAddress hh.taken

theorem Ready.release {n : ℕ} {h : Host} (hh : h.Ready n) : h.release.Idle n :=
  release_of_held hh.toTidy hh.bAddress hh.taken

theorem Idle.release {n : ℕ} {h : Host} (hh : h.Idle n) : h.release.Idle n := by
  obtain ⟨hpool, hcount⟩ := hh.pool.free_zero
  have hrelease : h.release.pool = h.pool.freeAddress 0 := by
    rw [Host.release, hh.bAddress]
  refine ⟨⟨?_, hh.control, hh.maxPktSize_le⟩, rfl, rfl, rfl, ?_⟩
  · rw [hrelease]
    exact hpool
  · rw [hrelease, hcount]
    exact hh.taken

@[simp] theorem setEntry_pool (h : Host) (i : Fin (numAddresses + 1)) (d : UsbDevice) :
    (h.setEntry i d).pool = Function.update h.pool i d := rfl

/-- Rewriting entry 0, but for its speed. -/
theorem Idle.setRoot {n : ℕ} {h : Host} (hh : h.Idle n) {d : UsbDevice}
    (hd : d.epinfo = .dev0ep ∧ d.devAddress = 0 ∧ d.epcount = 1) : (h.setEntry 0 d).Idle n := by
  obtain ⟨hpool, hcount⟩ := hh.pool.update_root hd
  exact ⟨⟨hpool, hh.control, hh.maxPktSize_le⟩, hh.bAddress, hh.bPollEnable, hh.readPtr,
    hcount.trans hh.taken⟩

theorem Assigned.setRoot {n : ℕ} {h : Host} (hh : h.Assigned n) {d : UsbDevice}
    (hd : d.epinfo = .dev0ep ∧ d.devAddress = 0 ∧ d.epcount = 1) : (h.setEntry 0 d).Assigned n := by
  obtain ⟨hpool, hcount⟩ := hh.pool.update_root hd
  refine ⟨⟨hpool, hh.control, hh.maxPktSize_le⟩, hh.bAddress, hh.bPollEnable, hh.readPtr, ?_,
    hcount.trans hh.taken⟩
  rw [setEntry_pool, Function.update_of_ne (by decide)]
  exact hh.first

/-- Rewriting entry 1, with the address it has. -/
theorem Assigned.setFirst {n : ℕ} {h : Host} (hh : h.Assigned n) {d : UsbDevice}
    (hd : d.devAddress = 1) : (h.setEntry 1 d).Assigned n := by
  refine ⟨⟨hh.pool.update 0 (Or.inr hd), hh.control, hh.maxPktSize_le⟩, hh.bAddress,
    hh.bPollEnable, hh.readPtr, ?_, ?_⟩
  · rw [setEntry_pool, Function.update_self]
    exact hd
  · exact (h.pool.taken_update_same 0 (hd.trans hh.first.symm)).trans hh.taken

/-! ## §2 `Init` -/

theorem Idle.resetToggles {n : ℕ} {h : Host} (hh : h.Idle n) : h.resetToggles.Idle n := by
  refine ⟨⟨hh.pool, ?_, fun i hi => ?_⟩, hh.bAddress, hh.bPollEnable, hh.readPtr, hh.taken⟩
  · exact hh.control
  · show (if i = 0 then _ else _ : EpInfo).maxPktSize.toNat ≤ _
    rw [if_neg hi]
    exact hh.maxPktSize_le i hi

theorem devDescrAt_isSome (h : Host) (addr : Byte) {nbytes : BitVec 16}
    (hn : nbytes.toNat ≤ devDescrSize) (buf : List.Vector Byte devDescrSize) (a : CtrlAnswers) :
    ∃ r, h.devDescrAt addr nbytes buf a = some r := by
  unfold devDescrAt
  split
  · exact ⟨_, rfl⟩
  · exact getDevDescr_isSome hn _ buf a

/-- The first request goes to the driver's record of the control endpoint, and
the tables are put back. -/
theorem firstDescr_eq (h : Host) (lowspeed : Bool) (a : InitAnswers) :
    h.firstDescr lowspeed a
      = (devDescrAt (h.setEntry 0 { h.pool 0 with epinfo := .midi, lowspeed := lowspeed }) 0 8 a.buf
          a.firstDescr).map
        fun r => (r.1, r.2, h.setEntry 0 { h.pool 0 with lowspeed := lowspeed }) := by
  have hback : ∀ d d' : UsbDevice, (h.setEntry 0 d).setEntry 0 d' = h.setEntry 0 d' := by
    intro d d'
    simp [setEntry]
  have hpool : ∀ d : UsbDevice, (h.setEntry 0 d).pool 0 = d := by
    intro d
    rw [setEntry_pool, Function.update_self]
  rw [firstDescr]
  simp only [Option.bind_eq_bind, hback, hpool]
  cases devDescrAt (h.setEntry 0 { h.pool 0 with epinfo := .midi, lowspeed := lowspeed }) 0 8 a.buf
      a.firstDescr <;> rfl

/-- The first request leaves the tables as they were. -/
theorem firstDescr_spec {n : ℕ} {h : Host} (hh : h.Idle n) (lowspeed : Bool) (a : InitAnswers) :
    ∃ rcode buf h', h.firstDescr lowspeed a = some (rcode, buf, h') ∧ h'.Idle n ∧
      h'.state = h.state := by
  obtain ⟨⟨rcode, buf⟩, hdescr⟩ :=
    (h.setEntry 0 { h.pool 0 with epinfo := .midi, lowspeed := lowspeed }).devDescrAt_isSome 0
      (show (8 : BitVec 16).toNat ≤ devDescrSize by decide) a.buf a.firstDescr
  refine ⟨rcode, buf, h.setEntry 0 { h.pool 0 with lowspeed := lowspeed }, ?_, ?_, rfl⟩
  · rw [firstDescr_eq, hdescr]
    rfl
  · exact hh.setRoot hh.pool.root

/-- The driver with its address and the size of the control endpoint. -/
def withAddress (h : Host) (pool : AddressPool) (buf : List.Vector Byte devDescrSize) : Host :=
  { h with
    pool := pool
    midi := { h.midi with
      bAddress := 1
      epInfo := Function.update h.midi.epInfo epControlIndex
        { h.midi.epInfo epControlIndex with maxPktSize := (Usb.devDescr buf).bMaxPacketSize0 } } }

theorem Idle.withAddress {n : ℕ} {h : Host} (hh : h.Idle n) {pool : AddressPool}
    (hpool : pool.RootOnly) (hfirst : (pool 1).devAddress = 1) (hcount : pool.taken = h.pool.taken + 1)
    (buf : List.Vector Byte devDescrSize) : (h.withAddress pool buf).Assigned n := by
  refine ⟨⟨hpool, ?_, fun i hi => ?_⟩, rfl, hh.bPollEnable, hh.readPtr, hfirst,
    hcount.trans (congrArg (· + 1) hh.taken)⟩
  · show (Function.update h.midi.epInfo 0 _ 0).epAddr = 0
    rw [Function.update_self]
    exact hh.control
  · show (Function.update h.midi.epInfo 0 _ i).maxPktSize.toNat ≤ _
    rw [Function.update_of_ne hi]
    exact hh.maxPktSize_le i hi

/-- With an entry of the pool, the answer to `setAddr` decides. -/
theorem assignAddress_of_alloc {n : ℕ} {h : Host} {pool : AddressPool}
    (halloc : h.pool.allocAddress 0 0 = (1, pool)) {buf : List.Vector Byte devDescrSize}
    (hassigned : (h.withAddress pool buf).Assigned n) (lowspeed : Bool) (a : InitAnswers) :
    let h₁ := h.withAddress pool buf
    h.assignAddress lowspeed buf a =
      if h₁.writeAt 0 a.setAddr ≠ 0 then
        (h₁.writeAt 0 a.setAddr, { h₁.setLowspeed 0 false with
          pool := (h₁.setLowspeed 0 false).pool.freeAddress 1
          midi := { h₁.midi with bAddress := 0 } })
      else (0, (h₁.setLowspeed 0 false).setLowspeed 1 lowspeed) := by
  intro h₁
  have hlow : (h₁.setLowspeed 0 false).Assigned n := hassigned.setRoot hassigned.pool.root
  have hptr := AddressPool.getUsbDevicePtr_one hlow.first
  have hone : ¬ (1 : Byte) = 0 := by decide
  simp only [assignAddress, halloc, if_neg hone]
  split
  · rename_i hcode
    exact (if_pos hcode).symm
  · rename_i hcode
    split
    · rename_i hnone
      cases hnone.symm.trans hptr
    · rename_i i hsome
      cases hsome.symm.trans hptr
      exact (if_neg hcode).symm

/-- The device has an address of its own, or the driver has none. -/
theorem assignAddress_spec {n : ℕ} {h : Host} (hh : h.Idle n) (lowspeed : Bool)
    (buf : List.Vector Byte devDescrSize) (a : InitAnswers) :
    let r := h.assignAddress lowspeed buf a
    (if r.1 = 0 then r.2.Assigned n else r.2.Idle n) ∧ r.2.state = h.state := by
  intro r
  rcases hh.pool.alloc with ⟨halloc, -⟩ | ⟨pool, halloc, hpool, hfirst, hcount, -⟩
  · have hr : r = (errOutOfAddressSpace, { h with midi := { h.midi with bAddress := 0 } }) := by
      simp only [r, assignAddress, halloc, if_true]
    have hne : ¬ errOutOfAddressSpace = 0 := by decide
    rw [hr]
    simp only [if_neg hne]
    exact ⟨⟨⟨hh.pool, hh.control, hh.maxPktSize_le⟩, rfl, hh.bPollEnable, hh.readPtr, hh.taken⟩,
      trivial⟩
  · have hassigned := hh.withAddress hpool hfirst hcount buf
    have hlow : ((h.withAddress pool buf).setLowspeed 0 false).Assigned n :=
      hassigned.setRoot hassigned.pool.root
    rw [show r = _ from assignAddress_of_alloc halloc hassigned lowspeed a]
    by_cases hcode : (h.withAddress pool buf).writeAt 0 a.setAddr = 0
    · simp only [hcode, ne_eq, not_true_eq_false, if_false, if_true]
      exact ⟨hlow.setFirst hlow.first, rfl⟩
    · simp only [ne_eq, hcode, not_false_eq_true, if_true, if_false]
      have hidle := hlow.release
      exact ⟨⟨⟨hidle.pool, hidle.control, hidle.maxPktSize_le⟩, rfl, hh.bPollEnable, hh.readPtr,
        hidle.taken⟩, rfl⟩

/-- The driver's table at its address. -/
theorem setEpInfoEntry_of_first {h : Host} (hfirst : (h.pool 1).devAddress = 1) (epcount : Byte) :
    h.setEpInfoEntry 1 epcount
      = (0, h.setEntry 1 { h.pool 1 with devAddress := 1, epinfo := .midi, epcount := epcount }) := by
  rw [setEpInfoEntry, AddressPool.getUsbDevicePtr_one hfirst]

theorem setAddress_error_ne {h : Host} {addr ep e : Byte} (he : h.setAddress addr ep = .error e) :
    e ≠ 0 := by
  rw [setAddress] at he
  split at he
  · cases he
    decide
  · split at he
    · cases he
      decide
    · cases he

/-- The driver with what the device descriptor says, and its table entered. -/
def withDevice (h : Host) (udd : DevDescr) : Host :=
  { h.setEntry firstIndex { h.pool firstIndex with devAddress := 1, epinfo := .midi, epcount := 1 } with
    midi := { h.midi with
      vid := udd.idVendor
      pid := udd.idProduct
      bTransferTypeMask := setupDeviceSpecific udd.idVendor udd.idProduct bmTransferType } }

theorem Assigned.withDevice {n : ℕ} {h : Host} (hh : h.Assigned n) (udd : DevDescr) :
    (h.withDevice udd).Assigned n := by
  have hentry : (h.setEntry 1
      { h.pool 1 with devAddress := 1, epinfo := .midi, epcount := 1 }).Assigned n := hh.setFirst rfl
  exact ⟨⟨hentry.pool, hh.control, hh.maxPktSize_le⟩, hh.bAddress, hh.bPollEnable, hh.readPtr,
    hentry.first, hentry.taken⟩

theorem readDevice_of_descr {n : ℕ} {h : Host} (hh : h.Assigned n)
    {buf buf' : List.Vector Byte devDescrSize} {a : InitAnswers}
    (hdescr : h.devDescrAt h.midi.bAddress (BitVec.ofNat 16 devDescrSize) buf a.devDescr
      = some (0, buf')) :
    h.readDevice buf a
      = some (0, (Usb.devDescr buf').bNumConfigurations, h.withDevice (Usb.devDescr buf')) := by
  let udd := Usb.devDescr buf'
  let h₁ : Host := { h with midi := { h.midi with vid := udd.idVendor, pid := udd.idProduct } }
  let setMask (h : Host) : Host := { h with midi := { h.midi with
    bTransferTypeMask := setupDeviceSpecific h.midi.vid h.midi.pid bmTransferType } }
  have hentry : h₁.setEpInfoEntry h₁.midi.bAddress 1
      = (0, h₁.setEntry 1 { h.pool 1 with devAddress := 1, epinfo := .midi, epcount := 1 }) := by
    rw [show h₁.midi.bAddress = 1 from hh.bAddress]
    exact setEpInfoEntry_of_first (h := h₁) hh.first 1
  rw [readDevice, hdescr]
  simp only [Option.bind_eq_bind, Option.bind_some, ne_eq, not_true_eq_false, if_false]
  refine (if_neg (not_not.mpr (congrArg Prod.fst hentry))).trans ?_
  exact congrArg (fun r : Byte × Host => some ((0 : Byte), udd.bNumConfigurations, setMask r.2))
    hentry

/-- The second request, with the driver's table entered. -/
theorem readDevice_spec {n : ℕ} {h : Host} (hh : h.Assigned n)
    (buf : List.Vector Byte devDescrSize) (a : InitAnswers) :
    ∃ rcode numOfConf h', h.readDevice buf a = some (rcode, numOfConf, h') ∧
      (if rcode = 0 then h'.Assigned n else h'.Idle n) ∧ h'.state = h.state := by
  obtain ⟨⟨rcode, buf'⟩, hdescr⟩ := h.devDescrAt_isSome h.midi.bAddress
    (show (BitVec.ofNat 16 devDescrSize).toNat ≤ devDescrSize by decide) buf a.devDescr
  by_cases hcode : rcode = 0
  · rw [hcode] at hdescr
    exact ⟨0, _, _, readDevice_of_descr hh hdescr, hh.withDevice _, rfl⟩
  · refine ⟨rcode, 0, h.release, ?_, ?_, rfl⟩
    · rw [readDevice, hdescr]
      simp only [Option.bind_eq_bind, Option.bind_some, ne_eq, hcode, not_false_eq_true, if_true]
      rfl
    · rw [if_neg hcode]
      exact hh.release

/-- A pass over the configurations: an error releases the driver. -/
theorem findEndpoints_spec {n : ℕ} {modeMidi : Bool} {a : InitAnswers} {i left : ℕ} {h h' : Host}
    {bNumEP bConfNum rcode bNumEP' bConfNum' : Byte} (hh : h.Assigned n)
    (hstep : findEndpoints modeMidi a bNumEP bConfNum i left h
      = some (rcode, bNumEP', bConfNum', h')) :
    (if rcode = 0 then h'.Assigned n else h'.Idle n) ∧ h'.state = h.state := by
  induction left generalizing i h bNumEP with
  | zero =>
    cases hstep
    exact ⟨hh, rfl⟩
  | succ left ih =>
    rw [findEndpoints] at hstep
    split at hstep
    · rename_i e he
      cases hstep
      rw [if_neg (setAddress_error_ne he)]
      exact ⟨hh.release, rfl⟩
    · rename_i ep hep
      obtain ⟨⟨rc, p⟩, hconf, hstep⟩ := Option.bind_eq_some_iff.mp hstep
      have hbounded := getConfDescr_bounded ⟨DescParser.sound_of_start rfl rfl,
        ⟨(by decide : (0 : Byte) ≤ 2), hh.control, hh.maxPktSize_le⟩⟩ hconf
      have hassigned : Assigned n { h with midi := { h.midi with epInfo := p.epInfo } } :=
        ⟨⟨hh.pool, hbounded.2.control, hbounded.2.maxPktSize_le⟩, hh.bAddress, hh.bPollEnable,
          hh.readPtr, hh.first, hh.taken⟩
      dsimp only at hstep
      split at hstep
      · rename_i hne
        cases hstep
        rw [if_neg hne]
        exact ⟨hassigned.release, rfl⟩
      · split at hstep
        · cases hstep
          exact ⟨hassigned, rfl⟩
        · obtain ⟨hspec, hstate⟩ := ih hassigned hstep
          exact ⟨hspec, hstate⟩

/-- The two passes and the configuration value: the device is ready or
released. -/
theorem configure_spec {n : ℕ} {h h' : Host} {numOfConf rcode : Byte} {a : InitAnswers}
    (hh : h.Assigned n) (hstep : h.configure numOfConf a = some (rcode, h')) :
    (if rcode = 0 then h'.Ready n ∧ h'.Linked ∧ h'.midi.readPtr = 0 else h'.Idle n) ∧
      h'.state = h.state := by
  obtain ⟨⟨rc₁, bNumEP₁, bConfNum₁, h₁⟩, hfirst, hstep⟩ := Option.bind_eq_some_iff.mp hstep
  obtain ⟨hspec₁, hstate₁⟩ := findEndpoints_spec hh hfirst
  dsimp only at hstep
  split at hstep
  · rename_i hne
    cases hstep
    rw [if_neg hne] at hspec₁ ⊢
    exact ⟨hspec₁, hstate₁⟩
  rename_i hzero
  rw [if_pos (not_not.mp hzero)] at hspec₁
  obtain ⟨⟨rc₂, bNumEP₂, bConfNum₂, h₂⟩, hsecond, hstep⟩ := Option.bind_eq_some_iff.mp hstep
  have hspec₂ : (if rc₂ = 0 then h₂.Assigned n else h₂.Idle n) ∧ h₂.state = h₁.state := by
    rw [findVendor] at hsecond
    split at hsecond
    · exact findEndpoints_spec hspec₁ hsecond
    · cases hsecond
      exact ⟨hspec₁, rfl⟩
  obtain ⟨hspec₂, hstate₂⟩ := hspec₂
  have hstate := hstate₂.trans hstate₁
  dsimp only at hstep
  split at hstep
  · rename_i hne
    cases hstep
    rw [if_neg hne] at hspec₂ ⊢
    exact ⟨hspec₂, hstate⟩
  rename_i hzero
  rw [if_pos (not_not.mp hzero)] at hspec₂
  split at hstep
  · cases hstep
    exact ⟨hspec₂.release, hstate⟩
  -- the driver's table is entered whole
  rw [hspec₂.bAddress, setEpInfoEntry_of_first hspec₂.first] at hstep
  let d : UsbDevice := { h₂.pool 1 with devAddress := 1, epinfo := .midi, epcount := 3 }
  have hassigned : (h₂.setEntry 1 d).Assigned n := hspec₂.setFirst rfl
  dsimp only at hstep
  split at hstep
  · rename_i hne
    cases hstep
    rw [if_neg hne]
    exact ⟨hassigned.release, hstate⟩
  · cases hstep
    have hsound : h₂.midi.Sound := sound_of_readPtr hspec₂.toTidy hspec₂.readPtr
    refine ⟨⟨⟨⟨hassigned.pool, hassigned.control, hassigned.maxPktSize_le⟩, hassigned.bAddress, rfl,
      ⟨hsound.1, hsound.2, hsound.3⟩, hassigned.taken⟩, ?_, hassigned.readPtr⟩, hstate⟩
    have hentry : (h₂.setEntry 1 d).pool 1 = d := by
      rw [setEntry_pool, Function.update_self]
    exact ⟨congrArg UsbDevice.epinfo hentry, congrArg UsbDevice.devAddress hentry,
      congrArg UsbDevice.epcount hentry⟩

/-- **`Init` is all or nothing**, whatever the device answers: the driver has a
configured device and one more entry of the pool is taken, or it has none and
the pool is as full as it was. -/
theorem init_spec {n : ℕ} {h h' : Host} {lowspeed : Bool} {a : InitAnswers} {rcode : Byte}
    (hh : h.Idle n) (hstep : h.init lowspeed a = some (rcode, h')) :
    (if rcode = 0 then h'.Ready n ∧ h'.Linked ∧ h'.midi.readPtr = 0 else h'.Idle n) ∧
      h'.state = h.state := by
  have htog := hh.resetToggles
  have hfree : ¬ h.resetToggles.midi.bAddress ≠ 0 := not_not.mpr htog.bAddress
  obtain ⟨rc₁, buf, h₁, hdescr, hidle, hstate₁⟩ := firstDescr_spec htog lowspeed a
  rw [init] at hstep
  simp only [if_neg hfree, hdescr, Option.bind_eq_bind, Option.bind_some] at hstep
  split at hstep
  · rename_i hne
    cases hstep
    rw [if_neg hne]
    exact ⟨hidle.release, hstate₁⟩
  obtain ⟨hassign, hstate₂⟩ := assignAddress_spec hidle lowspeed buf a
  rcases h₁.assignAddress lowspeed buf a with ⟨rc₂, h₂⟩
  split at hstep
  · rename_i hne
    cases hstep
    rw [if_neg hne] at hassign ⊢
    exact ⟨hassign, hstate₂.trans hstate₁⟩
  rename_i hzero
  rw [if_pos (not_not.mp hzero)] at hassign
  obtain ⟨rc₃, numOfConf, h₃, hread, hspec, hstate₃⟩ := readDevice_spec hassign buf a
  rw [hread, Option.bind_some] at hstep
  have hstate := hstate₃.trans (hstate₂.trans hstate₁)
  split at hstep
  · rename_i hne
    cases hstep
    rw [if_neg hne] at hspec ⊢
    exact ⟨hspec, hstate⟩
  · rename_i hzero
    rw [if_pos (not_not.mp hzero)] at hspec
    obtain ⟨hconf, hstate'⟩ := configure_spec hspec hstep
    exact ⟨hconf, hstate'.trans hstate⟩

/-! ## §3 `Configuring` -/

/-- Trying again after a bus error changes nothing: every attempt is all or
nothing. -/
theorem attemptConfig_spec {n : ℕ} {h h' : Host} {lowspeed : Bool} {a : ℕ → InitAnswers}
    {left : ℕ} {rcode : Byte} (hh : h.Idle n)
    (hstep : attemptConfig lowspeed a left h = some (rcode, h')) :
    (if rcode = 0 then h'.Ready n ∧ h'.Linked ∧ h'.midi.readPtr = 0 else h'.Idle n) ∧
      h'.state = h.state := by
  induction left generalizing h with
  | zero => exact init_spec hh hstep
  | succ left ih =>
    obtain ⟨⟨rc, h₁⟩, hinit, hstep⟩ := Option.bind_eq_some_iff.mp hstep
    obtain ⟨hspec, hstate⟩ := init_spec hh hinit
    dsimp only at hstep
    split at hstep
    · rename_i hjerr
      have hne : ¬ rc = 0 := by
        rw [hjerr]
        decide
      rw [if_neg hne] at hspec
      obtain ⟨hgo, hstate'⟩ := ih hspec hstep
      exact ⟨hgo, hstate'.trans hstate⟩
    · cases hstep
      exact ⟨hspec, hstate⟩

/-- With an entry of the pool, the answer to `setAddr` decides. -/
theorem defaultAddressing_of_alloc {h : Host} {lowspeed : Bool} {pool : AddressPool}
    (halloc : (h.setLowspeed 0 lowspeed).pool.allocAddress 0 0 = (1, pool))
    (hfirst : (pool 1).devAddress = 1) (a : CtrlAnswers) :
    let h₁ := ({ h.setLowspeed 0 lowspeed with pool := pool } : Host).setLowspeed 1 lowspeed
    h.defaultAddressing lowspeed a = if h₁.writeAt 0 a ≠ 0
      then (h₁.writeAt 0 a, { h₁ with pool := h₁.pool.freeAddress 1 }) else (0, h₁) := by
  have hone : ¬ (1 : Byte) = 0 := by decide
  have hptr := AddressPool.getUsbDevicePtr_one hfirst
  simp only [defaultAddressing, halloc, if_neg hone, hptr]

/-- An address for a device without a driver: one more entry is taken if that
works. The driver, with a device or without, is left alone. -/
theorem defaultAddressing_spec {h : Host} (hh : h.Tidy) (lowspeed : Bool) (a : CtrlAnswers) :
    let r := h.defaultAddressing lowspeed a
    r.2.Tidy ∧ r.2.midi = h.midi ∧ r.2.state = h.state ∧
      r.2.pool.taken = if r.1 = 0 then h.pool.taken + 1 else h.pool.taken := by
  intro r
  obtain ⟨hpool₀, hcount₀⟩ := hh.pool.update_root (d := { h.pool 0 with lowspeed := lowspeed })
    hh.pool.root
  rcases hpool₀.alloc with ⟨halloc, -⟩ | ⟨pool, halloc, hpool, hfirst, hcount, -⟩
  · have hne : ¬ errOutOfAddressSpace = 0 := by decide
    have hr : r = (errOutOfAddressSpace, h.setLowspeed 0 lowspeed) := by
      simp only [r, defaultAddressing, setLowspeed, setEntry_pool, halloc, if_true]
      rfl
    rw [hr]
    simp only [if_neg hne]
    exact ⟨⟨hpool₀, hh.control, hh.maxPktSize_le⟩, rfl, rfl, hcount₀⟩
  · let h₁ : Host := ({ h.setLowspeed 0 lowspeed with pool := pool } : Host).setLowspeed 1 lowspeed
    have hsame : h₁.pool.taken = pool.taken := pool.taken_update_same 0 rfl
    have hpool₁ : h₁.pool.RootOnly := hpool.update 0 (Or.inr hfirst)
    have hr : r = if h₁.writeAt 0 a ≠ 0
        then (h₁.writeAt 0 a, { h₁ with pool := h₁.pool.freeAddress 1 }) else (0, h₁) :=
      defaultAddressing_of_alloc halloc hfirst a
    rw [hr]
    by_cases hcode : h₁.writeAt 0 a = 0
    · simp only [hcode, ne_eq, not_true_eq_false, if_false, if_true]
      exact ⟨⟨hpool₁, hh.control, hh.maxPktSize_le⟩, rfl, rfl, by omega⟩
    · obtain ⟨hfreed, hcount₁⟩ := hpool₁.free_one (by omega)
      simp only [ne_eq, hcode, not_false_eq_true, if_true, if_false]
      exact ⟨⟨hfreed, hh.control, hh.maxPktSize_le⟩, rfl, rfl, by omega⟩

/-- The driver has no device, or has one that is configured. -/
def Consistent (n : ℕ) (h : Host) : Prop := h.Idle n ∨ h.Ready n

theorem Consistent.tidy {n : ℕ} {h : Host} (hh : h.Consistent n) : h.Tidy :=
  hh.elim (fun hi => hi.toTidy) (fun hr => hr.toTidy)

theorem Idle.addressed {n n' : ℕ} {h h' : Host} (hh : h.Idle n) (htidy : h'.Tidy)
    (hmidi : h'.midi = h.midi) (htaken : h'.pool.taken = n') : h'.Idle n' := by
  refine ⟨htidy, ?_, ?_, ?_, htaken⟩
  · rw [hmidi]
    exact hh.bAddress
  · rw [hmidi]
    exact hh.bPollEnable
  · rw [hmidi]
    exact hh.readPtr

theorem Ready.addressed {n n' : ℕ} {h h' : Host} (hh : h.Ready n) (htidy : h'.Tidy)
    (hmidi : h'.midi = h.midi) (htaken : h'.pool.taken = n' + 1) : h'.Ready n' := by
  refine ⟨htidy, ?_, ?_, ?_, htaken⟩
  · rw [hmidi]
    exact hh.bAddress
  · rw [hmidi]
    exact hh.bPollEnable
  · rw [hmidi]
    exact hh.sound

/-- What `DefaultAddressing` adds to the entries that are taken. -/
theorem Consistent.defaultAddressing {n : ℕ} {h : Host} (hh : h.Consistent n) (lowspeed : Bool)
    (a : CtrlAnswers) :
    let r := h.defaultAddressing lowspeed a
    r.2.Consistent (if r.1 = 0 then n + 1 else n) ∧ r.2.midi = h.midi ∧ r.2.state = h.state := by
  intro r
  obtain ⟨htidy', hmidi, hstate, htaken⟩ := defaultAddressing_spec hh.tidy lowspeed a
  refine ⟨?_, hmidi, hstate⟩
  rcases hh with hidle | hready
  · refine Or.inl (hidle.addressed htidy' hmidi ?_)
    rw [htaken, hidle.taken]
  · refine Or.inr (hready.addressed htidy' hmidi ?_)
    rw [htaken, hready.taken]
    split <;> rfl

theorem Ready.setLowspeed {n : ℕ} {h : Host} (hh : h.Ready n) (lowspeed : Bool) :
    (h.setLowspeed 0 lowspeed).Ready n := by
  obtain ⟨hpool, hcount⟩ := hh.pool.update_root (d := { h.pool 0 with lowspeed := lowspeed })
    hh.pool.root
  exact hh.addressed ⟨hpool, hh.control, hh.maxPktSize_le⟩ rfl (hcount.trans hh.taken)

theorem Consistent.setLowspeed {n : ℕ} {h : Host} (hh : h.Consistent n) (lowspeed : Bool) :
    (h.setLowspeed 0 lowspeed).Consistent n :=
  hh.elim (fun hidle => Or.inl (hidle.setRoot hidle.pool.root))
    (fun hready => Or.inr (hready.setLowspeed lowspeed))

/-- A driver that is enabled has a device. -/
theorem Consistent.ready {n : ℕ} {h : Host} (hh : h.Consistent n) (hon : h.midi.bPollEnable = true) :
    h.Ready n := by
  refine hh.resolve_left fun hidle => ?_
  rw [hidle.bPollEnable] at hon
  cases hon

theorem Idle.pending {n : ℕ} {h : Host} (hh : h.Idle n) : h.midi.pending = [] :=
  pending_of_zero hh.readPtr

/-- What `Configuring` may come to: an error, a device of the driver's, or one
more address for a device. Only the last takes an entry that the driver does
not give back. -/
inductive Outcome (n : ℕ) (h : Host) (rcode : Byte) (h' : Host) : Prop where
  | failed (hcode : rcode ≠ 0) (hcons : h'.Consistent n)
      (hsame : h'.midi.bPollEnable = h.midi.bPollEnable)
  | configured (hcode : rcode = 0) (hready : h'.Ready n) (hlinked : h'.Linked)
  | addressed (hcode : rcode = 0) (hcons : h'.Consistent (n + 1))
      (hsame : h'.midi.bPollEnable = h.midi.bPollEnable)

/-- What `DefaultAddressing` comes to, seen from a state with the driver in the
same state. -/
theorem Consistent.defaultAddressing_outcome {n : ℕ} {h h₁ h' : Host} (hh : h₁.Consistent n)
    (hsame : h₁.midi.bPollEnable = h.midi.bPollEnable) {lowspeed : Bool} {a : CtrlAnswers}
    {rcode : Byte} (hstep : h₁.defaultAddressing lowspeed a = (rcode, h')) :
    h'.state = h₁.state ∧ h'.midi.pending = h₁.midi.pending ∧ Outcome n h rcode h' := by
  obtain ⟨hcons, hmidi, hstate⟩ := hh.defaultAddressing lowspeed a
  rw [hstep] at hcons hmidi hstate
  have hsame' : h'.midi.bPollEnable = h.midi.bPollEnable :=
    (congrArg Midi.bPollEnable hmidi).trans hsame
  refine ⟨hstate, congrArg Midi.pending hmidi, ?_⟩
  split at hcons
  · rename_i hzero
    exact .addressed hzero hcons hsame'
  · rename_i hne
    exact .failed hne hcons hsame'

/-- **`Configuring`**, from either state, ends in one of the two, with the
queue of the driver as it was. -/
theorem configuring_spec {n : ℕ} {h h' : Host} {lowspeed : Bool} {a : ConfiguringAnswers}
    {rcode : Byte} (hh : h.Consistent n) (hstep : h.configuring lowspeed a = some (rcode, h')) :
    h'.state = h.state ∧ h'.midi.pending = h.midi.pending ∧ Outcome n h rcode h' := by
  obtain ⟨⟨rc, buf⟩, -, hstep⟩ := Option.bind_eq_some_iff.mp hstep
  have hlow := hh.setLowspeed lowspeed
  dsimp only at hstep
  split at hstep
  · rename_i hne
    cases hstep
    exact ⟨rfl, rfl, .failed hne hlow rfl⟩
  split at hstep
  · -- the driver has a device already
    exact hlow.defaultAddressing_outcome (h := h) rfl (Option.some.inj hstep)
  rename_i hfree
  have hidle : (h.setLowspeed 0 lowspeed).Idle n := by
    refine hlow.resolve_right fun hready => hfree ?_
    rw [hready.bAddress]
    decide
  obtain ⟨⟨rc', h₁⟩, hattempt, hstep⟩ := Option.bind_eq_some_iff.mp hstep
  obtain ⟨hspec, hstate⟩ := attemptConfig_spec hidle hattempt
  have hempty : h.midi.pending = [] := hidle.pending
  have hoff : h.midi.bPollEnable = false := hidle.bPollEnable
  dsimp only at hstep
  split at hstep
  · cases hstep
    rw [hempty]
    split at hspec
    · rename_i hzero
      obtain ⟨hready, hlinked, hptr⟩ := hspec
      exact ⟨hstate, pending_of_zero hptr, .configured hzero hready hlinked⟩
    · rename_i hne
      exact ⟨hstate, hspec.pending,
        .failed hne (Or.inl hspec) (hspec.bPollEnable.trans hoff.symm)⟩
  · -- the driver refuses the device
    rename_i hrefused
    have hne : ¬ rc' = 0 := by
      intro hzero
      rw [hzero] at hrefused
      exact hrefused (by decide)
    rw [if_neg hne] at hspec
    have hidle' : h₁.Consistent n := Or.inl hspec
    obtain ⟨hstate', hpending, houtcome⟩ := hidle'.defaultAddressing_outcome
      (hspec.bPollEnable.trans hoff.symm) (Option.some.inj hstep)
    refine ⟨hstate'.trans hstate, ?_, houtcome⟩
    rw [hpending, hspec.pending, hempty]

/-! ## §4 `Task` -/

/-- What holds of the host at the end of every call of `Task`. -/
structure Inv (n : ℕ) (h : Host) : Prop where
  consistent : h.Consistent n
  detached : h.state = .detachedInitialize ∨ h.state = .waitForDevice → h.Idle n

theorem Consistent.setState {n : ℕ} {h : Host} (hh : h.Consistent n) (s : TaskState) (d : Word)
    (e : Byte) : Consistent n { h with state := s, delay := d, usbError := e } :=
  hh.elim
    (fun hi => Or.inl ⟨⟨hi.pool, hi.control, hi.maxPktSize_le⟩, hi.bAddress, hi.bPollEnable,
      hi.readPtr, hi.taken⟩)
    (fun hr => Or.inr ⟨⟨hr.pool, hr.control, hr.maxPktSize_le⟩, hr.bAddress, hr.bPollEnable,
      hr.sound, hr.taken⟩)

/-- Only the pool and the driver matter. -/
theorem Consistent.same {n : ℕ} {h h' : Host} (hh : h.Consistent n) (hpool : h'.pool = h.pool)
    (hmidi : h'.midi = h.midi) : h'.Consistent n := by
  have hset := hh.setState h'.state h'.delay h'.usbError
  rw [← hpool, ← hmidi] at hset
  exact hset

/-- The lines decide where the state machine goes on. -/
theorem lineChange_spec {n : ℕ} {h : Host} (hh : h.Inv n) (t : TaskInput) :
    (h.lineChange t).Consistent n ∧ (h.lineChange t).midi = h.midi ∧
      ((h.lineChange t).state = .waitForDevice → (h.lineChange t).Idle n) := by
  have hset := hh.consistent.setState
  unfold lineChange
  split
  · exact ⟨hset .illegal h.delay h.usbError, rfl, nofun⟩
  · split
    · exact ⟨hh.consistent, rfl, fun hwait => hh.detached (Or.inr hwait)⟩
    · exact ⟨hset .detachedInitialize h.delay h.usbError, rfl, nofun⟩
  all_goals
    split
    · exact ⟨hset .settle (t.attachMillis + settleDelay) h.usbError, rfl, nofun⟩
    · exact ⟨hh.consistent, rfl, fun hwait => hh.detached (Or.inr hwait)⟩

/-- `USB_STATE_CONFIGURING` ends running, in error, or where it is. A driver
that it enables is running, with its own entry. -/
theorem configureStep_spec {n : ℕ} {h h' : Host} {t : TaskInput} (hh : h.Consistent n)
    (hstate : h.state = .configuring) (hstep : h.configureStep t = some h') :
    (∃ n', (n' = n ∨ n' = n + 1) ∧ h'.Inv n') ∧ h'.midi.pending = h.midi.pending ∧
      (h.midi.bPollEnable = false → h'.midi.bPollEnable = true →
        h'.state = .running ∧ h'.Linked) := by
  obtain ⟨⟨rcode, h₁⟩, hconf, hstep⟩ := Option.bind_eq_some_iff.mp hstep
  obtain ⟨hstate₁, hpending, houtcome⟩ := configuring_spec hh hconf
  dsimp only at hstep
  cases houtcome with
  | failed hcode hcons hsame =>
    rw [if_pos hcode] at hstep
    have hoff : h.midi.bPollEnable = false → ¬ h₁.midi.bPollEnable = true := by
      intro hoff
      rw [hsame, hoff]
      decide
    split at hstep
    · cases hstep
      exact ⟨⟨n, Or.inl rfl, hcons.setState .error h₁.delay rcode, nofun⟩, hpending,
        fun hf hon => absurd hon (hoff hf)⟩
    · cases hstep
      refine ⟨⟨n, Or.inl rfl, hcons, fun hdet => ?_⟩, hpending, fun hf hon => absurd hon (hoff hf)⟩
      rw [hstate₁, hstate] at hdet
      rcases hdet with hdet | hdet <;> cases hdet
  | configured hcode hready hlinked =>
    rw [if_neg (not_not.mpr hcode)] at hstep
    cases hstep
    have hcons : h₁.Consistent n := Or.inr hready
    exact ⟨⟨n, Or.inl rfl, hcons.setState .running h₁.delay h₁.usbError, nofun⟩, hpending,
      fun _ _ => ⟨rfl, hlinked⟩⟩
  | addressed hcode hcons hsame =>
    rw [if_neg (not_not.mpr hcode)] at hstep
    cases hstep
    refine ⟨⟨n + 1, Or.inr rfl, hcons.setState .running h₁.delay h₁.usbError, nofun⟩, hpending,
      fun hoff hon => ?_⟩
    have hon' : h₁.midi.bPollEnable = true := hon
    rw [hsame, hoff] at hon'
    cases hon'

/-- A move that touches neither the driver nor the pool. -/
structure Moved (h h' : Host) : Prop where
  pool : h'.pool = h.pool
  midi : h'.midi = h.midi
  state_ne : h'.state ≠ .detachedInitialize
  waiting : h'.state = .waitForDevice → h.state = .waitForDevice

theorem Moved.stay {h h' : Host} (hne : h.state ≠ .detachedInitialize) (heq : some h = some h') :
    Moved h h' := by
  cases heq
  exact ⟨rfl, rfl, hne, id⟩

/-- The second `switch`: a release, a configuration, or a move. -/
theorem stateStep_cases {h h' : Host} {t : TaskInput} (hstep : h.stateStep t = some h') :
    h' = { h.release with state := .waitForDevice } ∨
      ({ h with state := .configuring } : Host).configureStep t = some h' ∨ Moved h h' := by
  obtain ⟨s, hs⟩ : ∃ s, h.state = s := ⟨_, rfl⟩
  have hstay : s ≠ .detachedInitialize → some h = some h' → Moved h h' := by
    intro hne heq
    rw [← hs] at hne
    exact .stay hne heq
  rw [stateStep, hs] at hstep
  cases s with
  | detachedInitialize => exact Or.inl (Option.some.inj hstep).symm
  | waitForDevice | illegal | running | error => exact Or.inr (Or.inr (hstay nofun hstep))
  | resetDevice =>
    cases hstep
    exact Or.inr (Or.inr ⟨rfl, rfl, nofun, nofun⟩)
  | settle | waitSof =>
    dsimp only at hstep
    split at hstep
    · cases hstep
      exact Or.inr (Or.inr ⟨rfl, rfl, nofun, nofun⟩)
    · exact Or.inr (Or.inr (hstay nofun hstep))
  | waitResetComplete =>
    dsimp only at hstep
    split at hstep
    · exact Or.inr (Or.inr (hstay nofun hstep))
    · cases hstep
      exact Or.inr (Or.inr ⟨rfl, rfl, nofun, nofun⟩)
  | waitReset =>
    dsimp only at hstep
    split at hstep
    · exact Or.inr (Or.inl hstep)
    · exact Or.inr (Or.inr (hstay nofun hstep))
  | configuring =>
    refine Or.inr (Or.inl ?_)
    rw [← hs]
    exact hstep

/-- **`Task` keeps the host consistent**, whatever the lines, the clock and
the device do. What the driver has queued is kept as long as the driver is
enabled, and is gone when it is not. -/
theorem task_spec {n : ℕ} {h h' : Host} {t : TaskInput} (hh : h.Inv n)
    (hstep : h.task t = some h') :
    (∃ n', (n' = n ∨ n' = n + 1) ∧ h'.Inv n') ∧
      (if h'.midi.bPollEnable then [] else h.midi.pending) ++ h'.midi.pending = h.midi.pending := by
  obtain ⟨hcons, hmidi, hwait⟩ := lineChange_spec hh t
  have hkept : (∃ n', (n' = n ∨ n' = n + 1) ∧ h'.Inv n') → h'.midi.pending = h.midi.pending →
      (if h'.midi.bPollEnable then [] else h.midi.pending) ++ h'.midi.pending = h.midi.pending := by
    intro hinv hsame
    obtain ⟨n', -, hinv⟩ := hinv
    rcases hinv.consistent with hidle | hready
    · rw [hidle.bPollEnable, ← hsame, hidle.pending]
      rfl
    · rw [hready.bPollEnable, hsame]
      rfl
  rcases stateStep_cases hstep with hrelease | hconf | hmoved
  · have hidle : (h.lineChange t).release.Idle n :=
      hcons.elim (fun hi => hi.release) (fun hr => hr.release)
    have hidle' : h'.Idle n := by
      rw [hrelease]
      exact ⟨⟨hidle.pool, hidle.control, hidle.maxPktSize_le⟩, hidle.bAddress, hidle.bPollEnable,
        hidle.readPtr, hidle.taken⟩
    refine ⟨⟨n, Or.inl rfl, Or.inl hidle', fun _ => hidle'⟩, ?_⟩
    rw [hidle'.pending, hidle'.bPollEnable, List.append_nil]
    rfl
  · obtain ⟨hinv, hpending, -⟩ := configureStep_spec
      (hcons.setState .configuring (h.lineChange t).delay (h.lineChange t).usbError) rfl hconf
    exact ⟨hinv, hkept hinv (hpending.trans (congrArg Midi.pending hmidi))⟩
  · have hinv : h'.Inv n := by
      have hcons' := hcons.same hmoved.pool hmoved.midi
      refine ⟨hcons', fun hdet => ?_⟩
      have hidle := hwait (hmoved.waiting (hdet.resolve_left hmoved.state_ne))
      exact hidle.addressed hcons'.tidy hmoved.midi
        ((congrArg AddressPool.taken hmoved.pool).trans hidle.taken)
    exact ⟨⟨n, Or.inl rfl, hinv⟩, hkept ⟨n, Or.inl rfl, hinv⟩
      (congrArg Midi.pending (hmoved.midi.trans hmidi))⟩

/-- A device that runs stays as it is until the lines change. -/
theorem task_of_running {h : Host} {t : TaskInput} (hrun : h.state = .running)
    (hlines : t.vbus ≠ .se1) :
    h.task t = some (if t.vbus = .se0 then { h.release with state := .waitForDevice } else h) := by
  have hdet : h.state.detached = false := by
    rw [hrun]
    rfl
  have hstay : h.stateStep t = some h := by
    rw [stateStep, hrun]
  rw [task]
  cases hv : t.vbus with
  | se0 =>
    have hline : h.lineChange t = { h with state := .detachedInitialize } := by
      rw [lineChange, hv]
      simp only [hdet, Bool.false_eq_true, if_false]
    rw [hline, if_pos rfl]
    rfl
  | se1 => exact absurd hv hlines
  | fshost | lshost =>
    have hline : h.lineChange t = h := by
      rw [lineChange, hv]
      simp only [hdet, Bool.false_eq_true, if_false]
    rw [hline, hstay]
    rfl

/-- **While the lines are never in the illegal state**, an enabled driver is
running, and entry 1 of the pool is its own. -/
theorem task_linked {n : ℕ} {h h' : Host} {t : TaskInput} (hh : h.Inv n)
    (hlines : t.vbus ≠ .se1)
    (hlinked : h.midi.bPollEnable = true → h.state = .running ∧ h.Linked)
    (hstep : h.task t = some h') (hon : h'.midi.bPollEnable = true) :
    h'.state = .running ∧ h'.Linked := by
  cases hen : h.midi.bPollEnable with
  | true =>
    obtain ⟨hrun, hlink⟩ := hlinked hen
    rw [task_of_running hrun hlines] at hstep
    cases hstep
    split at hon
    · cases hon
    · rename_i hv
      rw [if_neg hv]
      exact ⟨hrun, hlink⟩
  | false =>
    -- only `Init` can have enabled the driver
    obtain ⟨hcons, hmidi, -⟩ := lineChange_spec hh t
    have hoff : (h.lineChange t).midi.bPollEnable = false :=
      (congrArg Midi.bPollEnable hmidi).trans hen
    rcases stateStep_cases hstep with hrelease | hconf | hmoved
    · rw [hrelease] at hon
      cases hon
    · obtain ⟨-, -, hnew⟩ := configureStep_spec
        (hcons.setState .configuring (h.lineChange t).delay (h.lineChange t).usbError) rfl hconf
      exact hnew hoff hon
    · rw [hmoved.midi, hoff] at hon
      cases hon

/-- A transfer of a driver with its own entry finds its record. -/
theorem setAddress_of_linked {h : Host} (hlinked : h.Linked) (i : Fin maxEndpoints) :
    ∃ ep, h.setAddress 1 (h.midi.epInfo i).epAddr = .ok ep := by
  obtain ⟨htable, haddr, hcount⟩ := hlinked
  rw [setAddress, AddressPool.getUsbDevicePtr_one haddr]
  simp only [htable, hcount]
  have htake : (h.table .midi).take (3 : Byte).toNat = h.table .midi := List.take_of_length_le (by
    simp [table])
  rw [htake]
  have hmem : h.midi.epInfo i ∈ h.table .midi := List.mem_map_of_mem (List.mem_finRange i)
  rcases hfind : (h.table .midi).find? (·.epAddr == (h.midi.epInfo i).epAddr) with _ | ep
  · have hnone := List.find?_eq_none.mp hfind _ hmem
    exact absurd (beq_self_eq_true _) hnone
  · exact ⟨ep, by rw [hfind]⟩

end Host

end MidiSynth.Usb
