/-
MidiSynth.Usb.EnumerationTheorems — a MIDI device that is plugged in gets
configured.

`TaskTheorems` says what holds whatever the device answers. Here the device
answers as the standard asks: it sends its descriptors, and its first
configuration has an interface with one bulk endpoint each way. Then `Init`
succeeds and has found these two endpoints (`init_configures`), and `Task`
gets to it from the detached state, provided the clock, the bus reset and the
frames go on (`attach_runs`).

  §1 The device.
  §2 The requests of `Init`, one after the other.
  §3 `Init` and `Configuring`.
  §4 `Task`, under a fair environment.
-/
import MidiSynth.Machine.Progress
import MidiSynth.Usb.TaskTheorems

namespace MidiSynth.Usb

open MidiSynth.Machine
open MidiSynth.Software (Byte Word)

/-! ## §1 The device -/

/-- A device descriptor of a device whose control endpoint has packets of
`m`. -/
structure DeviceDescriptor (m : ℕ) (dd : List Byte) : Prop where
  length : dd.length = devDescrSize
  size : (dd.getD 7 0).toNat = m
  size_ge : 8 ≤ m
  size_dvd : m ∣ 64
  confs : dd.getD 17 0 ≠ 0

/-- A configuration with a MIDI interface that has one bulk endpoint each way;
no two endpoints are found before it. -/
structure MidiConf (mask : Byte) (ds : List Descriptor) (a b : Descriptor) : Prop where
  proper : ∀ d ∈ ds, d.Proper
  split : ∃ pre intf eps post, ds = pre ++ intf :: (eps ++ post) ∧
    (∀ f : Found, f.nEPs = 0 → (pre.foldl (Descriptor.apply true mask) f).nEPs < 2) ∧
    intf.dscrType = descriptorInterface ∧ intf.IsMidiInterface ∧
    (∀ d ∈ eps, d.dscrType ≠ descriptorInterface) ∧ Descriptor.bulkEndpoints mask eps = [a, b]
  ways : a.index ≠ b.index

/-- The device answers every request of `Init`. -/
structure SendsDevice (m : ℕ) (dd conf : List Byte) (a : Host.InitAnswers) : Prop where
  firstDescr : SendsOne m 8 (dd.take 8) a.firstDescr
  setAddr : ctrlWrite a.setAddr = 0
  devDescr : SendsOne m devDescrSize dd a.devDescr
  conf : SendsConf m conf (a.conf true 0)
  setConf : ctrlWrite a.setConf = 0

/-- The mask that `setupDeviceSpecific` gives for a device. -/
def maskOf (dd : List Byte) : Byte :=
  Host.setupDeviceSpecific (dd.getD 9 0 ++ dd.getD 8 0) (dd.getD 11 0 ++ dd.getD 10 0) bmTransferType

theorem getDevDescr_delivers {m : ℕ} {dd : List Byte} (hlen : dd.length = devDescrSize)
    {nbytes : BitVec 16} (hn : nbytes.toNat ≤ devDescrSize) (hpos : nbytes ≠ 0) {a : CtrlAnswers}
    (h : SendsOne m nbytes.toNat (dd.take nbytes.toNat) a) (ep : EpInfo)
    (hep : ep.maxPktSize.toNat ≤ m ∨ nbytes.toNat ≤ m) (buf : List.Vector Byte devDescrSize) :
    ∃ buf', getDevDescr ep nbytes buf a = some (0, buf') ∧
      ∀ i : Fin devDescrSize, i.val < nbytes.toNat → buf'.get i = dd.getD i.val 0 := by
  have h18 : devDescrSize = 18 := rfl
  have htake : (dd.take nbytes.toNat).length = nbytes.toNat := by
    rw [List.length_take, hlen]
    omega
  obtain ⟨buf', hread, hbuf'⟩ := ctrlRead_sendsOne hn (by omega) hpos h htake (Or.inr ⟨htake, hep⟩) buf
  refine ⟨buf', ?_, fun i hi => ?_⟩
  · rw [getDevDescr, hread]
    rfl
  · apply get_of_getElem?
    rw [hbuf', List.getElem?_append_left (by omega), List.getElem?_take_of_lt hi,
      List.getD_eq_getElem?_getD, List.getElem?_eq_getElem (i.isLt.trans_eq hlen.symm)]
    rfl

/-- All of it, with the first record of the control endpoint. -/
theorem getDevDescr_whole {m : ℕ} {dd : List Byte} (hdd : DeviceDescriptor m dd) {a : CtrlAnswers}
    (h : SendsOne m devDescrSize dd a) (buf : List.Vector Byte devDescrSize) :
    ∃ buf', getDevDescr dev0ep (BitVec.ofNat 16 devDescrSize) buf a = some (0, buf') ∧
      ∀ i : Fin devDescrSize, buf'.get i = dd.getD i.val 0 := by
  have hn : (BitVec.ofNat 16 devDescrSize).toNat = devDescrSize := rfl
  have hall : dd.take (BitVec.ofNat 16 devDescrSize).toNat = dd :=
    List.take_of_length_le (hdd.length.trans hn.symm).le
  obtain ⟨buf', hdescr, hget⟩ := getDevDescr_delivers hdd.length hn.le (by decide)
    (by rw [hall]; exact h) dev0ep (Or.inl hdd.size_ge) buf
  exact ⟨buf', hdescr, fun i => hget i i.isLt⟩

namespace Host

/-! ## §2 The requests of `Init` -/

/-- The record of the control endpoint in a table. -/
def controlRecord (h : Host) : EpTable → EpInfo
  | .dev0ep => dev0ep
  | .midi => h.midi.epInfo epControlIndex

/-- A request on the control endpoint finds its record. -/
theorem setAddress_control {h : Host} {addr : Byte} {i : Fin (numAddresses + 1)}
    (hptr : h.pool.getUsbDevicePtr addr = some i) (hcount : (h.pool i).epcount ≠ 0)
    (hcontrol : (h.midi.epInfo 0).epAddr = 0) :
    h.setAddress addr 0 = .ok (h.controlRecord (h.pool i).epinfo) := by
  obtain ⟨k, hk⟩ : ∃ k, (h.pool i).epcount.toNat = k + 1 :=
    Nat.exists_eq_succ_of_ne_zero fun hzero => hcount (BitVec.eq_of_toNat_eq hzero)
  rw [setAddress, hptr]
  simp only [hk]
  cases (h.pool i).epinfo with
  | dev0ep => rfl
  | midi =>
    have htable : h.table .midi = h.midi.epInfo 0 :: [h.midi.epInfo 1, h.midi.epInfo 2] := rfl
    rw [htable, List.take_succ_cons, List.find?_cons_of_pos (by rw [hcontrol]; rfl)]
    rfl

theorem getUsbDevicePtr_zero (pool : AddressPool) : pool.getUsbDevicePtr 0 = some 0 := rfl

section Stages

variable {n m : ℕ} {h : Host} {dd conf : List Byte} {a : InitAnswers}

theorem firstDescr_delivers (hh : h.Idle n) (hdd : DeviceDescriptor m dd)
    (ha : SendsDevice m dd conf a) (lowspeed : Bool) :
    ∃ buf h', h.firstDescr lowspeed a = some (0, buf, h') ∧ h'.Idle n ∧
      buf.get 7 = dd.getD 7 0 ∧ h'.pool 1 = h.pool 1 := by
  obtain ⟨buf, hdescr, hget⟩ := getDevDescr_delivers hdd.length
    (show (8 : BitVec 16).toNat ≤ devDescrSize by decide) (by decide) ha.firstDescr
    (h.midi.epInfo epControlIndex) (Or.inr hdd.size_ge) a.buf
  refine ⟨buf, h.setEntry 0 { h.pool 0 with lowspeed := lowspeed }, ?_, hh.setRoot hh.pool.root,
    hget 7 (by decide), ?_⟩
  · let d : UsbDevice := { h.pool 0 with epinfo := .midi, lowspeed := lowspeed }
    have hroot : (h.setEntry 0 d).pool 0 = d := by rw [setEntry_pool, Function.update_self]
    have haddr := setAddress_control (h := h.setEntry 0 d) (getUsbDevicePtr_zero _)
      (by rw [hroot, show d.epcount = 1 from hh.pool.root.2.2]; decide) hh.control
    rw [firstDescr_eq, devDescrAt, haddr, hroot]
    show (getDevDescr (h.midi.epInfo epControlIndex) 8 a.buf a.firstDescr).map _ = _
    rw [hdescr]
    rfl
  · rw [setEntry_pool, Function.update_of_ne (by decide)]

/-- An accepted request at address 0. -/
theorem writeAt_zero (hroot : (h.pool 0).epcount = 1) (hcontrol : (h.midi.epInfo 0).epAddr = 0)
    {c : CtrlAnswers} (hc : ctrlWrite c = 0) : h.writeAt 0 c = 0 := by
  rw [writeAt, setAddress_control (getUsbDevicePtr_zero h.pool) (by rw [hroot]; decide) hcontrol]
  exact hc

/-- The device accepts its address. -/
theorem assignAddress_accepted (hh : h.Idle n) (hfree : h.pool 1 = AddressPool.initEntry)
    (buf : List.Vector Byte devDescrSize) (hc : ctrlWrite a.setAddr = 0) (lowspeed : Bool) :
    ∃ h', h.assignAddress lowspeed buf a = (0, h') ∧ h'.Assigned n ∧ (h'.pool 1).epinfo = .dev0ep ∧
      (h'.pool 1).epcount = 1 ∧
      (h'.midi.epInfo 0).maxPktSize = (Usb.devDescr buf).bMaxPacketSize0 := by
  have halloc := AddressPool.allocAddress_of_first_free (show (h.pool 1).devAddress = 0 by rw [hfree]; rfl)
  rcases hh.pool.alloc with ⟨hfull, -⟩ | ⟨pool, halloc', hpool, hfirst, hcount, -⟩
  · cases congrArg Prod.fst (halloc.symm.trans hfull)
  have hupdate : pool = Function.update h.pool 1 { h.pool 1 with devAddress := 1 } :=
    congrArg Prod.snd (halloc'.symm.trans halloc)
  have hentry : pool 1 = { AddressPool.initEntry with devAddress := 1 } := by
    rw [hupdate, Function.update_self, hfree]
  have hassigned := hh.withAddress hpool hfirst hcount buf
  have hwrite := writeAt_zero hassigned.pool.root.2.2 hassigned.control hc
  have hlow : ((h.withAddress pool buf).setLowspeed 0 false).Assigned n :=
    hassigned.setRoot hassigned.pool.root
  refine ⟨((h.withAddress pool buf).setLowspeed 0 false).setLowspeed 1 lowspeed, ?_,
    hlow.setFirst hlow.first, ?_, ?_, ?_⟩
  · rw [assignAddress_of_alloc halloc' hassigned]
    exact if_neg (not_not.mpr hwrite)
  · simp [setLowspeed, setEntry, withAddress, hentry, AddressPool.initEntry]
  · simp [setLowspeed, setEntry, withAddress, hentry, AddressPool.initEntry]
  · simp [setLowspeed, setEntry, withAddress]

/-- The whole device descriptor, at the new address. -/
theorem readDevice_delivers (hh : h.Assigned n) (htable : (h.pool 1).epinfo = .dev0ep)
    (hcount : (h.pool 1).epcount = 1) (hdd : DeviceDescriptor m dd) (ha : SendsDevice m dd conf a)
    (buf : List.Vector Byte devDescrSize) :
    ∃ h', h.readDevice buf a = some (0, dd.getD 17 0, h') ∧ h'.Assigned n ∧
      (h'.pool 1).epinfo = .midi ∧ (h'.pool 1).epcount = 1 ∧ h'.midi.epInfo = h.midi.epInfo ∧
      h'.midi.bTransferTypeMask = maskOf dd := by
  have haddr := setAddress_control (AddressPool.getUsbDevicePtr_one hh.first)
    (by rw [hcount]; decide) hh.control
  obtain ⟨buf', hdescr, hbyte⟩ := getDevDescr_whole hdd ha.devDescr buf
  have hat : h.devDescrAt h.midi.bAddress (BitVec.ofNat 16 devDescrSize) buf a.devDescr
      = some (0, buf') := by
    rw [devDescrAt, hh.bAddress, haddr, htable]
    exact hdescr
  refine ⟨h.withDevice (Usb.devDescr buf'), ?_, hh.withDevice _, ?_, ?_, rfl, ?_⟩
  · rw [readDevice_of_descr hh hat]
    simp only [Usb.devDescr, hbyte]
    rfl
  · simp [withDevice, setEntry]
  · simp [withDevice, setEntry]
  · simp only [withDevice, Usb.devDescr, hbyte]
    rfl

/-- The first configuration has what is looked for. -/
theorem findEndpoints_delivers (hh : h.Assigned n) (htable : (h.pool 1).epinfo = .midi)
    (hcount : (h.pool 1).epcount = 1) (hsize : (h.midi.epInfo 0).maxPktSize.toNat = m) (hm : m ∣ 64)
    {ds : List Descriptor} {x y : Descriptor} (hds : MidiConf h.midi.bTransferTypeMask ds x y)
    (ha : SendsConf m (ds.flatMap Descriptor.bytes) (a.conf true 0)) (left : ℕ) :
    ∃ bConfNum epInfo, findEndpoints true a 1 0 0 (left + 1) h
        = some (0, 3, bConfNum, { h with midi := { h.midi with epInfo := epInfo } }) ∧
      (∃ old, epInfo x.index = x.epInfo old) ∧ ∃ old, epInfo y.index = y.epInfo old := by
  have haddr := setAddress_control (AddressPool.getUsbDevicePtr_one hh.first)
    (by rw [hcount]; decide) hh.control
  obtain ⟨pre, intf, eps, post, hsplit, hpre, hintf, hmidi, heps, hpair⟩ := hds.split
  let c := a.conf true 0
  let p := DescParser.fresh true c.isGoodInterface c.confValue c.varBuffer h.midi.bTransferTypeMask
    h.midi.epInfo
  have hstart : p.AtStart := DescParser.fresh_atStart _ _ _ _ _ _
  have hbytes : [ds.flatMap Descriptor.bytes].flatten
      = (pre ++ intf :: (eps ++ post)).flatMap Descriptor.bytes := by
    rw [← hsplit]
    simp
  obtain ⟨p', hparse, hn, hx, hy⟩ := finds_endpoints hstart hbytes
    (by rw [← hsplit]; exact hds.proper) (hpre p.found rfl) hintf (fun _ => hmidi) heps hpair hds.ways
  rw [parsePieces_eq DescParser.parseDescriptor_resumable hstart.sound, List.flatten_singleton] at hparse
  have hconf : getConfDescr (h.controlRecord .midi) p c = some (0, p') := by
    have hrecord : (h.controlRecord .midi).maxPktSize.toNat = m := hsize
    rw [getConfDescr_delivers (by rw [hrecord]; exact hm) (by rw [hrecord]; exact ha) hstart.sound,
      hparse]
    rfl
  refine ⟨p'.confValue, p'.epInfo, ?_, hx, hy⟩
  rw [findEndpoints, hh.bAddress, haddr, htable]
  simp only [show getConfDescr (h.controlRecord .midi) (DescParser.fresh true (a.conf true 0).isGoodInterface
    (a.conf true 0).confValue (a.conf true 0).varBuffer h.midi.bTransferTypeMask h.midi.epInfo)
    (a.conf true 0) = some (0, p') from hconf, Option.bind_eq_bind, Option.bind_some, hn]
  rfl

/-- The configuration is found and accepted. -/
theorem configure_delivers (hh : h.Assigned n) (htable : (h.pool 1).epinfo = .midi)
    (hcount : (h.pool 1).epcount = 1) (hsize : (h.midi.epInfo 0).maxPktSize.toNat = m) (hm : m ∣ 64)
    {ds : List Descriptor} {x y : Descriptor} (hds : MidiConf h.midi.bTransferTypeMask ds x y)
    (ha : SendsConf m (ds.flatMap Descriptor.bytes) (a.conf true 0)) (hc : ctrlWrite a.setConf = 0)
    {numOfConf : Byte} (hpos : numOfConf ≠ 0) :
    ∃ h', h.configure numOfConf a = some (0, h') ∧
      (∃ old, h'.midi.epInfo x.index = x.epInfo old) ∧
      ∃ old, h'.midi.epInfo y.index = y.epInfo old := by
  obtain ⟨left, hleft⟩ : ∃ left, numOfConf.toNat = left + 1 :=
    Nat.exists_eq_succ_of_ne_zero fun hzero => hpos (BitVec.eq_of_toNat_eq hzero)
  obtain ⟨bConfNum, epInfo, hfind, hx, hy⟩ :=
    findEndpoints_delivers hh htable hcount hsize hm hds ha left
  let h₁ : Host := { h with midi := { h.midi with epInfo := epInfo } }
  have hassigned : h₁.Assigned n := (findEndpoints_spec hh hfind).1
  let d : UsbDevice := { h.pool 1 with devAddress := 1, epinfo := .midi, epcount := 3 }
  have hentered : (h₁.setEntry 1 d).Assigned n := hassigned.setFirst rfl
  have hd : (h₁.setEntry 1 d).pool 1 = d := by rw [setEntry_pool, Function.update_self]
  have hwrite : (h₁.setEntry 1 d).writeAt 1 a.setConf = 0 := by
    rw [writeAt, setAddress_control (AddressPool.getUsbDevicePtr_one hentered.first)
      (by rw [hd]; show (3 : Byte) ≠ 0; decide) hentered.control]
    exact hc
  refine ⟨{ h₁.setEntry 1 d with midi := { h₁.midi with bPollEnable := true } }, ?_, hx, hy⟩
  have hentry : h₁.setEpInfoEntry h₁.midi.bAddress 3 = (0, h₁.setEntry 1 d) := by
    rw [hassigned.bAddress]
    exact setEpInfoEntry_of_first hassigned.first 3
  have hwrite' : (h₁.setEpInfoEntry h₁.midi.bAddress 3).2.writeAt
      (h₁.setEpInfoEntry h₁.midi.bAddress 3).2.midi.bAddress a.setConf = 0 := by
    rw [hentry]
    show (h₁.setEntry 1 d).writeAt h₁.midi.bAddress a.setConf = 0
    rw [hassigned.bAddress]
    exact hwrite
  have hthree : ¬ (3 : Byte) = 1 ∧ ¬ (3 : Byte) < 2 := by decide
  let enable (h : Host) : Host := { h with midi := { h.midi with bPollEnable := true } }
  rw [configure, hleft, hfind]
  simp only [Option.bind_eq_bind, Option.bind_some, ne_eq, not_true_eq_false, if_false, findVendor,
    if_neg hthree.1, if_neg hthree.2]
  exact (if_neg (not_not.mpr hwrite')).trans
    (congrArg (fun r : Byte × Host => some ((0 : Byte), enable r.2)) hentry)

end Stages

/-! ## §3 `Init` and `Configuring` -/

/-- What an attached device leaves: the driver is enabled with the two
endpoints of the MIDI interface. -/
structure Configured (n : ℕ) (x y : Descriptor) (h : Host) : Prop where
  ready : h.Ready n
  linked : h.Linked
  first : ∃ old, h.midi.epInfo x.index = x.epInfo old
  second : ∃ old, h.midi.epInfo y.index = y.epInfo old

/-- **`Init` configures a MIDI device**, whatever the buffers and the parser's
fields held before. -/
theorem init_configures {n m : ℕ} {h : Host} {dd : List Byte} {a : InitAnswers} (hh : h.Idle n)
    (hfree : h.pool 1 = AddressPool.initEntry) (hdd : DeviceDescriptor m dd) {ds : List Descriptor}
    {x y : Descriptor} (hds : MidiConf (maskOf dd) ds x y)
    (ha : SendsDevice m dd (ds.flatMap Descriptor.bytes) a) (lowspeed : Bool) :
    ∃ h', h.init lowspeed a = some (0, h') ∧ h'.Configured n x y := by
  have htog := hh.resetToggles
  have haddr : ¬ h.resetToggles.midi.bAddress ≠ 0 := not_not.mpr htog.bAddress
  obtain ⟨buf, h₁, hfirst, hidle, hsize, hpool⟩ := firstDescr_delivers htog hdd ha lowspeed
  obtain ⟨h₂, hassign, hassigned, htable₂, hcount₂, hmax⟩ :=
    assignAddress_accepted hidle (hpool.trans hfree) buf ha.setAddr lowspeed
  obtain ⟨h₃, hread, hassigned₃, htable₃, hcount₃, hep, hmask⟩ :=
    readDevice_delivers hassigned htable₂ hcount₂ hdd ha buf
  have hm : (h₃.midi.epInfo 0).maxPktSize.toNat = m := by
    rw [hep, hmax, show (Usb.devDescr buf).bMaxPacketSize0 = buf.get 7 from rfl, hsize]
    exact hdd.size
  obtain ⟨h₄, hconf, hx, hy⟩ := configure_delivers hassigned₃ htable₃ hcount₃ hm hdd.size_dvd
    (by rw [hmask]; exact hds) ha.conf ha.setConf hdd.confs
  have hinit : h.init lowspeed a = some (0, h₄) := by
    rw [init]
    simp only [if_neg haddr, hfirst, Option.bind_eq_bind, Option.bind_some, ne_eq,
      not_true_eq_false, if_false, hassign, hread]
    exact hconf
  obtain ⟨⟨hready, hlinked, -⟩, -⟩ := init_spec hh hinit
  exact ⟨h₄, hinit, hready, hlinked, hx, hy⟩

/-- The device answers every request of `Configuring`. -/
structure SendsAttached (m : ℕ) (dd conf : List Byte) (a : ConfiguringAnswers) : Prop where
  devDescr : SendsOne m devDescrSize dd a.devDescr
  attempt : SendsDevice m dd conf (a.attempts 3)

theorem configuring_configures {n m : ℕ} {h : Host} {dd : List Byte} {a : ConfiguringAnswers}
    (hh : h.Idle n) (hfree : h.pool 1 = AddressPool.initEntry) (hdd : DeviceDescriptor m dd)
    {ds : List Descriptor} {x y : Descriptor} (hds : MidiConf (maskOf dd) ds x y)
    (ha : SendsAttached m dd (ds.flatMap Descriptor.bytes) a) (lowspeed : Bool) :
    ∃ h', h.configuring lowspeed a = some (0, h') ∧ h'.Configured n x y := by
  obtain ⟨buf, hdescr, -⟩ := getDevDescr_whole hdd ha.devDescr a.buf
  have hlow : (h.setLowspeed 0 lowspeed).Idle n := hh.setRoot hh.pool.root
  have hfree' : (h.setLowspeed 0 lowspeed).pool 1 = AddressPool.initEntry := by
    rw [setLowspeed, setEntry_pool, Function.update_of_ne (by decide), hfree]
  obtain ⟨h', hinit, hconf⟩ := init_configures hlow hfree' hdd hds ha.attempt lowspeed
  refine ⟨h', ?_, hconf⟩
  have haddr : ¬ (h.setLowspeed 0 lowspeed).midi.bAddress ≠ 0 := not_not.mpr hlow.bAddress
  have hjerr : ¬ (0 : Byte) = hrJERR := by decide
  have hdone : (0 : Byte) ≠ errDeviceNotSupported ∧ (0 : Byte) ≠ errAlreadyInUse := by decide
  rw [configuring, hdescr]
  simp only [Option.bind_eq_bind, Option.bind_some, ne_eq, not_true_eq_false, if_false, haddr,
    attemptConfig, hinit, if_neg hjerr]
  show (if (0 : Byte) ≠ errDeviceNotSupported ∧ (0 : Byte) ≠ errAlreadyInUse then some ((0 : Byte), h')
    else some (h'.defaultAddressing lowspeed a.setAddr)) = _
  rw [if_pos hdone]

/-! ## §4 `Task` -/

/-- A device stays attached, and the clock, the bus reset and the frames go
on. -/
structure Attached (ts : ℕ → TaskInput) : Prop where
  lines : ∀ k, (ts k).vbus = .fshost ∨ (ts k).vbus = .lshost
  time : ∀ (d : Word) (k : ℕ), ∃ j, k ≤ j ∧ ((ts j).millis - d).slt 0 = false
  reset : ∀ k, ∃ j, k ≤ j ∧ (ts j).busRst = false
  frames : ∀ k, ∃ j, k ≤ j ∧ (ts j).frameIrq = true

/-- What is kept while `Task` waits. -/
def Steady (K : Host → Prop) : Prop :=
  ∀ (h : Host) (s : TaskState) (d : Word), K h → K { h with state := s, delay := d }

/-- No device, and the first entry of the pool is free. -/
structure Vacant (n : ℕ) (h : Host) : Prop where
  idle : h.Idle n
  free : h.pool 1 = AddressPool.initEntry

theorem vacant_steady (n : ℕ) : Steady (Vacant n) := by
  intro h s d hh
  exact ⟨⟨⟨hh.idle.pool, hh.idle.control, hh.idle.maxPktSize_le⟩, hh.idle.bAddress,
    hh.idle.bPollEnable, hh.idle.readPtr, hh.idle.taken⟩, hh.free⟩

theorem ready_steady (n : ℕ) : Steady (Ready n) := by
  intro h s d hh
  exact ⟨⟨hh.pool, hh.control, hh.maxPktSize_le⟩, hh.bAddress, hh.bPollEnable, hh.sound, hh.taken⟩

/-- Where `Task` waits. -/
structure Waits (K : Host → Prop) (s : TaskState) (h : Host) : Prop where
  kept : K h
  state : h.state = s

/-- The same, with the deadline it waits for. -/
structure WaitsUntil (K : Host → Prop) (s : TaskState) (d : Word) (h : Host) : Prop where
  waits : h.Waits K s
  delay : h.delay = d

section Attach

variable {K : Host → Prop} {h : Host} {t : TaskInput}

/-- Once it is seen, an attached device does not change the state. -/
theorem task_of_attached (hlines : t.vbus = .fshost ∨ t.vbus = .lshost)
    (hdet : h.state.detached = false) : h.task t = h.stateStep t := by
  have hkeep : h.lineChange t = h := by
    rcases hlines with hv | hv <;> simp [lineChange, hv, hdet]
  rw [task, hkeep]

/-- A device that is seen is given time to settle. -/
theorem task_of_detached (hlines : t.vbus = .fshost ∨ t.vbus = .lshost)
    (hdet : h.state.detached = true) :
    h.task t = stateStep { h with delay := t.attachMillis + settleDelay, state := .settle } t := by
  have hseen : h.lineChange t = { h with delay := t.attachMillis + settleDelay, state := .settle } := by
    rcases hlines with hv | hv <;> simp [lineChange, hv, hdet]
  rw [task, hseen]

/-- The settle delay runs, or is over. -/
theorem stateStep_settle (hK : Steady K) (hh : h.Waits K .settle) :
    ∃ h', h.stateStep t = some h' ∧
      (h'.WaitsUntil K .settle h.delay ∨ h'.Waits K .waitResetComplete) ∧
      ((t.millis - h.delay).slt 0 = false → h'.Waits K .waitResetComplete) := by
  have hnext : Waits K .waitResetComplete { h with state := .waitResetComplete } :=
    ⟨hK h _ h.delay hh.kept, rfl⟩
  rw [stateStep, hh.state]
  by_cases hwaited : h.waited t.millis = true
  · exact ⟨_, congrArg some (if_pos hwaited), Or.inr hnext, fun _ => hnext⟩
  · refine ⟨_, congrArg some (if_neg hwaited), Or.inl ⟨hh, rfl⟩, fun htime => ?_⟩
    rw [waited, htime] at hwaited
    exact absurd rfl hwaited

end Attach

section Phases

variable {K : Host → Prop} (hK : Steady K) {h : Host} {ts : ℕ → TaskInput} (hts : Attached ts)

include hK hts

theorem leads_settle :
    LeadsTo task h ts (fun h => K h ∧ h.state.detached = true)
      fun h => (∃ d, h.WaitsUntil K .settle d) ∨ h.Waits K .waitResetComplete := by
  refine leadsTo_of_step fun k h' hh => ?_
  obtain ⟨hkept, hdet⟩ := hh
  rw [task_of_detached (hts.lines k) hdet]
  obtain ⟨h'', hstep, hnext, -⟩ := stateStep_settle (t := ts k) hK
    (h := { h' with delay := (ts k).attachMillis + settleDelay, state := .settle })
    ⟨hK h' _ _ hkept, rfl⟩
  exact ⟨h'', hstep, hnext.imp_left fun hwait => ⟨_, hwait⟩⟩

theorem leads_reset (d : Word) :
    LeadsTo task h ts (WaitsUntil K .settle d) (Waits K .waitResetComplete) := by
  have hstep : ∀ k h', WaitsUntil K .settle d h' → ∃ h'', h'.task (ts k) = some h'' ∧
      (h''.WaitsUntil K .settle d ∨ h''.Waits K .waitResetComplete) ∧
      (((ts k).millis - d).slt 0 = false → h''.Waits K .waitResetComplete) := by
    intro k h' hh
    rw [task_of_attached (hts.lines k) (by rw [hh.waits.state]; rfl), ← hh.delay]
    exact stateStep_settle hK hh.waits
  refine leadsTo_of_fair (G := fun t => (t.millis - d).slt 0 = false) ?_ ?_ (hts.time d)
  · intro k h' hh
    obtain ⟨h'', htask, hnext, -⟩ := hstep k h' hh
    exact ⟨h'', htask, hnext⟩
  · intro k h' hh htime
    obtain ⟨h'', htask, -, hnext⟩ := hstep k h' hh
    exact ⟨h'', htask, hnext htime⟩

theorem leads_sof : LeadsTo task h ts (Waits K .waitResetComplete) (Waits K .waitSof) := by
  have htask : ∀ k h', Waits K .waitResetComplete h' → h'.task (ts k)
      = some (if (ts k).busRst then h' else { h' with state := .waitSof }) := by
    intro k h' hh
    rw [task_of_attached (hts.lines k) (by rw [hh.state]; rfl), stateStep, hh.state]
  have hnext : ∀ h', Waits K .waitResetComplete h' →
      Waits K .waitSof { h' with state := .waitSof } :=
    fun h' hh => ⟨hK h' _ h'.delay hh.kept, rfl⟩
  refine leadsTo_of_fair (G := fun t => t.busRst = false) ?_ ?_ hts.reset
  · intro k h' hh
    rw [htask k h' hh]
    refine ⟨_, rfl, ?_⟩
    split
    · exact Or.inl hh
    · exact Or.inr (hnext h' hh)
  · intro k h' hh hrst
    rw [htask k h' hh, hrst]
    exact ⟨_, rfl, hnext h' hh⟩

theorem leads_wait :
    LeadsTo task h ts (Waits K .waitSof) fun h => ∃ d, h.WaitsUntil K .waitReset d := by
  have htask : ∀ k h', Waits K .waitSof h' → h'.task (ts k)
      = some (if (ts k).frameIrq then
          { h' with state := .waitReset, delay := (ts k).frameMillis + 20 } else h') := by
    intro k h' hh
    rw [task_of_attached (hts.lines k) (by rw [hh.state]; rfl), stateStep, hh.state]
  have hnext : ∀ k h', Waits K .waitSof h' → WaitsUntil K .waitReset ((ts k).frameMillis + 20)
      { h' with state := .waitReset, delay := (ts k).frameMillis + 20 } :=
    fun k h' hh => ⟨⟨hK h' _ _ hh.kept, rfl⟩, rfl⟩
  refine leadsTo_of_fair (G := fun t => t.frameIrq = true) ?_ ?_ hts.frames
  · intro k h' hh
    rw [htask k h' hh]
    refine ⟨_, rfl, ?_⟩
    split
    · exact Or.inr ⟨_, hnext k h' hh⟩
    · exact Or.inl hh
  · intro k h' hh hirq
    rw [htask k h' hh, hirq]
    exact ⟨_, rfl, _, hnext k h' hh⟩

omit hK in
/-- The last wait ends with `Configuring`. -/
theorem leads_configured {Q : Host → Prop}
    (hdone : ∀ k h', K h' → ∃ h'', configureStep { h' with state := .configuring } (ts k) = some h'' ∧
      Q h'') (d : Word) : LeadsTo task h ts (WaitsUntil K .waitReset d) Q := by
  have htask : ∀ k h', WaitsUntil K .waitReset d h' → h'.task (ts k)
      = if h'.waited (ts k).millis then
          configureStep { h' with state := .configuring } (ts k) else some h' := by
    intro k h' hh
    rw [task_of_attached (hts.lines k) (by rw [hh.waits.state]; rfl), stateStep, hh.waits.state]
  refine leadsTo_of_fair (G := fun t => (t.millis - d).slt 0 = false) ?_ ?_ (hts.time d)
  · intro k h' hh
    rw [htask k h' hh]
    split
    · obtain ⟨h'', hstep, hready⟩ := hdone k h' hh.waits.kept
      exact ⟨h'', hstep, Or.inr hready⟩
    · exact ⟨h', rfl, Or.inl hh⟩
  · intro k h' hh htime
    have hwaited : h'.waited (ts k).millis = true := by
      rw [waited, hh.delay, htime]
      rfl
    rw [htask k h' hh, if_pos hwaited]
    exact hdone k h' hh.waits.kept

/-- From the detached state to the end of `Configuring`. -/
theorem leads_attached {Q : Host → Prop}
    (hdone : ∀ k h', K h' → ∃ h'', configureStep { h' with state := .configuring } (ts k) = some h'' ∧
      Q h'') : LeadsTo task h ts (fun h => K h ∧ h.state.detached = true) Q :=
  (leads_settle hK hts).trans <| ((LeadsTo.exists (leads_reset hK hts)).or .refl).trans <|
    (leads_sof hK hts).trans <| (leads_wait hK hts).trans <|
      LeadsTo.exists (leads_configured hts hdone)

end Phases

section Outcomes

variable {n m : ℕ} {h : Host} {ts : ℕ → TaskInput} {dd : List Byte}

/-- `Configuring` that succeeds leaves the host running. -/
theorem configureStep_of_zero {h h' : Host} {t : TaskInput}
    (hconf : h.configuring (t.vbus = .lshost) t.answers = some (0, h')) :
    h.configureStep t = some { h' with state := .running } := by
  rw [configureStep, hconf]
  rfl

/-- The device descriptor of a keyboard. -/
def keyboardDevice : List Byte :=
  [18, 1, 0, 2, 0, 0, 0, 64, 0x34, 0x12, 0x78, 0x56, 0, 1, 0, 0, 0, 1]

/-- Its configuration: a MIDI interface with a bulk endpoint each way. -/
def keyboardIn : Descriptor := ⟨descriptorEndpoint, [0x81, 2, 64, 0, 0], by decide⟩

def keyboardOut : Descriptor := ⟨descriptorEndpoint, [0x02, 2, 64, 0, 0], by decide⟩

def keyboardConf : List Descriptor :=
  [⟨descriptorConfiguration, [32, 0, 1, 1, 0, 0x80, 50], by decide⟩,
   ⟨descriptorInterface, [0, 0, 2, 1, 3, 0, 0], by decide⟩, keyboardIn, keyboardOut]

/-- One packet with these bytes. -/
def packetWith (bs : List Byte) : InAnswer :=
  ⟨0, false, true, BitVec.ofNat 8 bs.length, fun i => bs.getD i 0⟩

/-- A request answered in one packet. -/
def answerOf (bs : List Byte) : CtrlAnswers := ⟨0, [[packetWith bs]], 0⟩

def keyboardInit : InitAnswers where
  buf := List.Vector.replicate _ 0
  firstDescr := answerOf (keyboardDevice.take 8)
  setAddr := ⟨0, [], 0⟩
  devDescr := answerOf keyboardDevice
  conf := fun _ _ =>
    { buf := List.Vector.replicate _ 0
      varBuffer := List.Vector.replicate _ 0
      isGoodInterface := false
      confValue := 0
      head := answerOf ((keyboardConf.flatMap Descriptor.bytes).take 9)
      descriptors := answerOf (keyboardConf.flatMap Descriptor.bytes) }
  setConf := ⟨0, [], 0⟩

/-- The keyboard is plugged in at full speed, and the clock counts the
calls. -/
def keyboardTask (k : ℕ) : TaskInput where
  vbus := .fshost
  attachMillis := 0
  millis := BitVec.ofNat 32 k
  frameMillis := 0
  busRst := false
  frameIrq := true
  answers :=
    { buf := List.Vector.replicate _ 0
      devDescr := answerOf keyboardDevice
      attempts := fun _ => keyboardInit
      setAddr := ⟨0, [], 0⟩ }

theorem sends_packetWith {room : ℕ} {bs : List Byte} (hcarries : Carries (packetWith bs) bs)
    (hlen : bs.length < 64) (hroom : bs.length ≤ room) : Sends 64 room bs [packetWith bs] :=
  .last hcarries hlen.le hroom (Or.inl hlen)

theorem keyboard_attached : Attached keyboardTask where
  lines := fun _ => Or.inl rfl
  time := fun d k => by
    refine ⟨d.toNat + 2 ^ 32 * k, by omega, ?_⟩
    have hnow : BitVec.ofNat 32 (d.toNat + 2 ^ 32 * k) = d := by
      refine BitVec.eq_of_toNat_eq ?_
      rw [BitVec.toNat_ofNat, Nat.add_mul_mod_self_left, Nat.mod_eq_of_lt d.isLt]
    show (BitVec.ofNat 32 (d.toNat + 2 ^ 32 * k) - d).slt 0 = false
    rw [hnow, BitVec.sub_self]
    rfl
  reset := fun k => ⟨k, Nat.le_refl k, rfl⟩
  frames := fun k => ⟨k, Nat.le_refl k, rfl⟩

theorem keyboard_device : DeviceDescriptor 64 keyboardDevice :=
  ⟨rfl, rfl, by decide, by decide, by decide⟩

theorem keyboard_conf : MidiConf (maskOf keyboardDevice) keyboardConf keyboardIn keyboardOut where
  proper := by
    refine List.forall_mem_cons.mpr ⟨⟨by decide, by decide⟩, List.forall_mem_cons.mpr
      ⟨⟨by decide, by decide⟩, List.forall_mem_cons.mpr ⟨⟨by decide, by decide⟩,
        List.forall_mem_singleton.mpr ⟨by decide, by decide⟩⟩⟩⟩
  split := by
    refine ⟨[_], _, [keyboardIn, keyboardOut], [], rfl, fun f hf => ?_, rfl, by decide, by decide,
      rfl⟩
    show f.nEPs < 2
    rw [hf]
    decide
  ways := by decide

theorem keyboard_devDescr : SendsOne 64 devDescrSize keyboardDevice (answerOf keyboardDevice) :=
  ⟨rfl, ⟨_, rfl, sends_packetWith ⟨rfl, rfl, rfl, rfl⟩ (by decide) (by decide)⟩, rfl⟩

theorem keyboard_sends : SendsDevice 64 keyboardDevice (keyboardConf.flatMap Descriptor.bytes)
    keyboardInit where
  firstDescr :=
    ⟨rfl, ⟨_, rfl, sends_packetWith ⟨rfl, rfl, rfl, rfl⟩ (by decide) (by decide)⟩, rfl⟩
  setAddr := rfl
  devDescr := keyboard_devDescr
  conf :=
    { head := ⟨rfl, ⟨_, rfl, sends_packetWith ⟨rfl, rfl, rfl, rfl⟩ (by decide) (by decide)⟩, rfl⟩
      long := by decide
      total := rfl
      setup := rfl
      data := .last (sends_packetWith ⟨rfl, rfl, rfl, rfl⟩ (by decide) (by decide)) (by decide)
        (by decide)
      status := rfl }
  setConf := rfl

theorem fresh_vacant (midi : Midi) : (Host.fresh midi).Vacant 0 := ⟨fresh_idle midi, rfl⟩

/-- Another address for the device of a driver that has one. -/
theorem defaultAddressing_accepted (hh : h.Ready n) (hroom : n + 1 < numAddresses)
    {c : CtrlAnswers} (hc : ctrlWrite c = 0) (lowspeed : Bool) :
    ∃ h', h.defaultAddressing lowspeed c = (0, h') ∧ h'.Ready (n + 1) := by
  have hlow := hh.setLowspeed lowspeed
  obtain ⟨hcons, hmidi, -⟩ := Consistent.defaultAddressing (Or.inr hh) lowspeed c
  rcases hlow.pool.alloc with ⟨-, hfull⟩ | ⟨pool, halloc, hpool, hfirst, -, -⟩
  · rw [hlow.taken] at hfull
    omega
  have hwrite := writeAt_zero (c := c)
    (h := ({ h.setLowspeed 0 lowspeed with pool := pool } : Host).setLowspeed 1 lowspeed)
    (by
      rw [setLowspeed, setEntry_pool, Function.update_of_ne (by decide)]
      exact hpool.root.2.2)
    hh.control hc
  have heq := (defaultAddressing_of_alloc halloc hfirst c).trans (if_neg (not_not.mpr hwrite))
  rw [heq] at hcons hmidi
  exact ⟨_, heq, hcons.ready ((congrArg Midi.bPollEnable hmidi).trans hh.bPollEnable)⟩

/-- The device answers the requests for its descriptor and for its address. -/
structure SendsAgain (m : ℕ) (dd : List Byte) (a : ConfiguringAnswers) : Prop where
  devDescr : SendsOne m devDescrSize dd a.devDescr
  setAddr : ctrlWrite a.setAddr = 0

theorem configuring_readdresses (hh : h.Ready n) (hroom : n + 1 < numAddresses)
    (hdd : DeviceDescriptor m dd) {a : ConfiguringAnswers} (ha : SendsAgain m dd a)
    (lowspeed : Bool) : ∃ h', h.configuring lowspeed a = some (0, h') ∧ h'.Ready (n + 1) := by
  obtain ⟨buf, hread, -⟩ := getDevDescr_whole hdd ha.devDescr a.buf
  have hlow := hh.setLowspeed lowspeed
  have haddr : (h.setLowspeed 0 lowspeed).midi.bAddress ≠ 0 := by
    rw [hlow.bAddress]
    decide
  obtain ⟨h', hdefault, hready⟩ := defaultAddressing_accepted hlow hroom ha.setAddr lowspeed
  refine ⟨h', ?_, hready⟩
  rw [configuring, hread]
  simp only [Option.bind_eq_bind, Option.bind_some, ne_eq, not_true_eq_false, if_false]
  exact (if_pos haddr).trans (congrArg some hdefault)

/-- **A glitch on the lines costs an entry of the pool**: when the lines of a
configured device are once in the illegal state and it is then seen as
before, it is given a second address, and the driver still has the first. -/
theorem glitch_leaks (hh : h.Ready n) (hroom : n + 1 < numAddresses) {t : TaskInput}
    (ht : t.vbus = .se1) (hts : Attached ts) (hdd : DeviceDescriptor m dd)
    (hanswers : ∀ k, SendsAgain m dd (ts k).answers) :
    ∃ h₁ k h', h.task t = some h₁ ∧ trace task h₁ ts k = some h' ∧ h'.Ready (n + 1) ∧
      h'.state = .running := by
  have hillegal : h.task t = some { h with state := .illegal } := by
    rw [task, lineChange, ht]
    rfl
  have hdone : ∀ k h', Ready n h' → ∃ h'', configureStep { h' with state := .configuring } (ts k)
      = some h'' ∧ h''.Ready (n + 1) ∧ h''.state = .running := by
    intro k h' hready
    obtain ⟨h'', hconf, hready'⟩ := configuring_readdresses
      (ready_steady n h' .configuring h'.delay hready) hroom hdd (hanswers k)
      (decide ((ts k).vbus = .lshost))
    exact ⟨_, configureStep_of_zero hconf, ready_steady _ h'' .running h''.delay hready', rfl⟩
  obtain ⟨k, h', -, htrace, hready, hrun⟩ := leads_attached (ready_steady n) hts hdone 0
    { h with state := .illegal } rfl ⟨ready_steady n h .illegal h.delay hh, rfl⟩
  exact ⟨_, k, h', hillegal, htrace, hready, hrun⟩

/-- A glitch while the keyboard is configured. -/
theorem glitch_leaks_keyboard :
    ∃ h : Host, h.Ready 0 ∧ ∃ h₁ k h', h.task { keyboardTask 0 with vbus := .se1 } = some h₁ ∧
      trace task h₁ keyboardTask k = some h' ∧ h'.Ready (0 + 1) ∧ h'.state = .running := by
  obtain ⟨h, -, hconf⟩ := init_configures (fresh_vacant default).idle (fresh_vacant default).free
    keyboard_device keyboard_conf keyboard_sends false
  exact ⟨h, hconf.ready, glitch_leaks hconf.ready (by decide) rfl keyboard_attached keyboard_device
    fun _ => ⟨keyboard_devDescr, rfl⟩⟩

end Outcomes

end Host

end MidiSynth.Usb
