/-
MidiSynth.Usb.LeakTheorems — when an entry of the address pool is lost.

`Configuring` goes on to `DefaultAddressing` at two return codes of `Init`:
`USB_DEV_CONFIG_ERROR_DEVICE_NOT_SUPPORTED` and
`USB_ERROR_CLASS_INSTANCE_ALREADY_IN_USE`. A code from the bus is what
`dispatchPkt` returns, HRSL masked with 0x0f, so it is neither; and the codes
that `Init` makes itself are others, unless the driver has an address. So
only a driver that has a device can lose an entry, and the entry that the
device itself needs is always left.

  §1 The codes.
  §2 `Init` never refuses a device.
  §3 What `Task` does to the pool.
-/
import MidiSynth.Usb.Dispatch
import MidiSynth.Usb.TaskTheorems

namespace MidiSynth.Usb

open MidiSynth.Machine
open MidiSynth.Software (Byte)

/-! ## §1 The codes -/

/-- `dispatchPkt` may return this. -/
def Dispatches (rcode : Byte) : Prop :=
  ∃ nakLimit hrsls, (dispatchPkt nakLimit hrsls).rcode = rcode

theorem dispatches_zero : Dispatches 0 := ⟨0, [], rfl⟩

theorem hrslt_lt (hrsl : Byte) : (hrslt hrsl).toNat < 16 := by
  rw [hrslt, BitVec.toNat_and]
  exact Nat.lt_of_le_of_lt Nat.and_le_right (by decide)

theorem dispatchLoop_lt (nakLimit : BitVec 16) {rcode : Byte} (hcode : rcode.toNat < 16)
    (retryCount : Byte) (nakCount : BitVec 16) (hrsls : List Byte) :
    (dispatchLoop nakLimit rcode retryCount nakCount hrsls).rcode.toNat < 16 := by
  induction hrsls generalizing rcode retryCount nakCount with
  | nil => exact hcode
  | cons hrsl hrsls ih =>
    have hlast := hrslt_lt hrsl
    rw [dispatchLoop]
    split
    · split
      · exact hlast
      · exact ih hlast _ _
    · split
      · split
        · exact hlast
        · exact ih hlast _ _
      · exact hlast

/-- A code of `dispatchPkt` is one of HRSL. -/
theorem Dispatches.lt {rcode : Byte} (h : Dispatches rcode) : rcode.toNat < 16 := by
  obtain ⟨nakLimit, hrsls, rfl⟩ := h
  exact dispatchLoop_lt nakLimit (by decide) 0 0 hrsls

/-- `Configuring` does not go on to `DefaultAddressing` at this code. -/
def Final (rcode : Byte) : Prop :=
  rcode ≠ errDeviceNotSupported ∧ rcode ≠ errAlreadyInUse

instance (rcode : Byte) : Decidable (Final rcode) := inferInstanceAs (Decidable (_ ∧ _))

theorem Dispatches.final {rcode : Byte} (h : Dispatches rcode) : Final rcode := by
  have hlt := h.lt
  constructor
  all_goals
    rintro rfl
    exact absurd hlt (by decide)

theorem final_zero : Final 0 := by decide

/-- Every code in the answers is one that `dispatchPkt` may return. -/
structure CtrlAnswers.FromBus (a : CtrlAnswers) : Prop where
  setup : Dispatches a.setup
  data : ∀ answers ∈ a.data, ∀ p ∈ answers, Dispatches p.rcode
  status : Dispatches a.status

structure Host.InitAnswers.FromBus (a : Host.InitAnswers) : Prop where
  firstDescr : a.firstDescr.FromBus
  setAddr : a.setAddr.FromBus
  devDescr : a.devDescr.FromBus
  conf : ∀ modeMidi i, (a.conf modeMidi i).head.FromBus ∧ (a.conf modeMidi i).descriptors.FromBus
  setConf : a.setConf.FromBus

structure Host.ConfiguringAnswers.FromBus (a : Host.ConfiguringAnswers) : Prop where
  devDescr : a.devDescr.FromBus
  attempts : ∀ k, (a.attempts k).FromBus
  setAddr : a.setAddr.FromBus

theorem inLoop_final {nbytes got : BitVec 16} {ep : EpInfo} {stored : List Byte}
    {answers : List InAnswer} (ha : ∀ a ∈ answers, Dispatches a.rcode) :
    Final (inLoop nbytes ep got stored answers).rcode := by
  induction answers generalizing ep got stored with
  | nil => exact (by decide : Final hrNAK)
  | cons a as ih =>
    obtain ⟨hfirst, hrest⟩ := List.forall_mem_cons.mp ha
    unfold inLoop
    split
    · exact ih hrest
    split
    · exact hfirst.final
    split
    · exact (by decide : Final receiveError)
    dsimp only
    split
    · exact final_zero
    · exact ih hrest

section Read

variable {σ : Type} {n : ℕ} {feed : σ → List.Vector Byte n → ℕ → Option σ}

theorem dataStage_final {nbytes left : BitVec 16} {ep : EpInfo} {buf : List.Vector Byte n} {s : σ}
    {ts : List (List InAnswer)} (ha : ∀ answers ∈ ts, ∀ p ∈ answers, Dispatches p.rcode) :
    Gives (dataStage feed nbytes ep buf s left ts) fun r => Final r.1 := by
  induction ts generalizing buf s left with
  | nil =>
    refine .pure ?_
    show Final (if left = 0 then 0 else hrNAK)
    split <;> decide
  | cons answers ts ih =>
    obtain ⟨hfirst, hrest⟩ := List.forall_mem_cons.mp ha
    refine .ite (fun _ => .pure final_zero) fun _ => .after fun buf => ?_
    refine .ite (fun _ => .pure (inLoop_final hfirst)) fun _ => .after fun s => ?_
    exact .ite (fun _ => .pure final_zero) fun _ => ih hrest

theorem ctrlRead_final {nbytes total : BitVec 16} {ep : EpInfo} {buf : List.Vector Byte n} {s : σ}
    {a : CtrlAnswers} (ha : a.FromBus) :
    Gives (ctrlRead feed nbytes ep total buf s a) fun r => Final r.1 := by
  refine .ite (fun _ => .pure ha.setup.final) fun _ => .bind (dataStage_final ha.data) ?_
  rintro ⟨rcode, buf, s⟩ hcode
  refine .pure ?_
  show Final (if rcode ≠ 0 then rcode else a.status)
  split
  · exact hcode
  · exact ha.status.final

end Read

theorem ctrlWrite_final {a : CtrlAnswers} (ha : a.FromBus) : Final (ctrlWrite a) := by
  rw [ctrlWrite]
  split
  · exact ha.setup.final
  · exact ha.status.final

theorem getConfDescr_final {ep : EpInfo} {p : DescParser} {a : ConfAnswers}
    (ha : a.head.FromBus ∧ a.descriptors.FromBus) :
    Gives (getConfDescr ep p a) fun r => Final r.1 :=
  .bind (ctrlRead_final ha.1) fun _ hcode => .ite (fun _ => .pure hcode) fun _ =>
    .bind (ctrlRead_final ha.2) fun _ hcode => .pure hcode

namespace Host

/-! ## §2 `Init` never refuses a device -/

theorem setAddress_final {h : Host} {addr ep e : Byte} (he : h.setAddress addr ep = .error e) :
    Final e := by
  rw [setAddress] at he
  split at he
  · cases he
    decide
  · split at he
    · cases he
      decide
    · cases he

theorem devDescrAt_final {h : Host} {addr : Byte} {nbytes : BitVec 16}
    {buf : List.Vector Byte devDescrSize} {a : CtrlAnswers} (ha : a.FromBus) :
    Gives (h.devDescrAt addr nbytes buf a) fun r => Final r.1 := by
  unfold devDescrAt
  split
  · rename_i e he
    exact .pure (setAddress_final he)
  · exact .bind (ctrlRead_final ha) fun _ hcode => .pure hcode

theorem writeAt_final {h : Host} {addr : Byte} {a : CtrlAnswers} (ha : a.FromBus) :
    Final (h.writeAt addr a) := by
  unfold writeAt
  split
  · rename_i e he
    exact setAddress_final he
  · exact ctrlWrite_final ha

theorem setEpInfoEntry_final (h : Host) (addr epcount : Byte) :
    Final (h.setEpInfoEntry addr epcount).1 := by
  unfold setEpInfoEntry
  split
  · exact (by decide : Final errAddressNotFound)
  · exact final_zero

theorem assignAddress_final {h : Host} {lowspeed : Bool} {buf : List.Vector Byte devDescrSize}
    {a : InitAnswers} (ha : a.FromBus) : Final (h.assignAddress lowspeed buf a).1 := by
  unfold assignAddress
  dsimp only
  split
  · exact (by decide : Final errOutOfAddressSpace)
  · split
    · exact writeAt_final ha.setAddr
    · split
      · exact (by decide : Final errAddressNotFound)
      · exact final_zero

theorem readDevice_final {h : Host} {buf : List.Vector Byte devDescrSize} {a : InitAnswers}
    (ha : a.FromBus) : Gives (h.readDevice buf a) fun r => Final r.1 := by
  refine .bind (devDescrAt_final ha.devDescr) fun _ hcode => ?_
  refine .ite (fun _ => .pure hcode) fun _ => .ite (fun _ => .pure ?_) fun _ => .pure final_zero
  exact setEpInfoEntry_final ..

theorem findEndpoints_final {modeMidi : Bool} {a : InitAnswers} (ha : a.FromBus)
    (bNumEP bConfNum : Byte) (i left : ℕ) (h : Host) :
    Gives (findEndpoints modeMidi a bNumEP bConfNum i left h) fun r => Final r.1 := by
  induction left generalizing i h bNumEP with
  | zero => exact .pure final_zero
  | succ left ih =>
    rw [findEndpoints]
    split
    · rename_i e he
      exact .pure (setAddress_final he)
    · refine .bind (getConfDescr_final (ha.conf modeMidi i)) fun _ hcode => ?_
      refine .ite (fun _ => .pure hcode) fun _ => ?_
      exact .ite (fun _ => .pure final_zero) fun _ => ih _ _ _

theorem configure_final {h : Host} {numOfConf : Byte} {a : InitAnswers} (ha : a.FromBus) :
    Gives (h.configure numOfConf a) fun r => Final r.1 := by
  refine Gives.bind (findEndpoints_final ha 1 0 0 numOfConf.toNat h) ?_
  rintro ⟨rcode, bNumEP, bConfNum, h⟩ hcode
  have hvendor : Gives (findVendor a numOfConf bNumEP bConfNum h) fun r => Final r.1 :=
    .ite (fun _ => findEndpoints_final ha bNumEP bConfNum 0 numOfConf.toNat h)
      fun _ => .pure final_zero
  refine .ite (fun _ => .pure hcode) fun _ => .bind hvendor fun _ hcode => ?_
  have hnoEndpoints : Final 0xFF := by decide
  refine .ite (fun _ => .pure hcode) fun _ => .ite (fun _ => .pure hnoEndpoints) fun _ => ?_
  exact .ite (fun _ => .pure (writeAt_final ha.setConf)) fun _ => .pure final_zero

/-- **`Init` never refuses a device**, as long as the driver has none. -/
theorem init_final {h : Host} (hfree : h.midi.bAddress = 0) {lowspeed : Bool} {a : InitAnswers}
    (ha : a.FromBus) : Gives (h.init lowspeed a) fun r => Final r.1 := by
  refine .ite (fun haddr => absurd hfree haddr) fun _ => ?_
  refine .bind (P := fun r => Final r.1) ?_ fun _ hcode => .ite (fun _ => .pure hcode) fun _ => ?_
  · exact .bind (devDescrAt_final ha.firstDescr) fun _ hcode => .pure hcode
  refine .ite (fun _ => .pure (assignAddress_final ha)) fun _ => ?_
  exact .bind (readDevice_final ha) fun _ hcode =>
    .ite (fun _ => .pure hcode) fun _ => configure_final ha

/-! ## §3 What `Task` does to the pool -/

/-- `Init` with `init_spec` beside its code. -/
theorem init_gives {n : ℕ} {h : Host} (hh : h.Idle n) {lowspeed : Bool} {a : InitAnswers}
    (ha : a.FromBus) : Gives (h.init lowspeed a) fun r =>
      Final r.1 ∧ r.2.Consistent n ∧ (r.1 ≠ 0 → r.2.Idle n) := by
  intro r hr
  have hfinal := init_final hh.bAddress ha r hr
  have hspec := (init_spec hh hr).1
  split at hspec
  · rename_i hzero
    exact ⟨hfinal, Or.inr hspec.1, fun hne => absurd hzero hne⟩
  · exact ⟨hfinal, Or.inl hspec, fun _ => hspec⟩

theorem attemptConfig_gives {n : ℕ} {lowspeed : Bool} {a : ℕ → InitAnswers}
    (ha : ∀ k, (a k).FromBus) (left : ℕ) {h : Host} (hh : h.Idle n) :
    Gives (attemptConfig lowspeed a left h) fun r => Final r.1 ∧ r.2.Consistent n := by
  induction left generalizing h with
  | zero =>
    intro r hr
    obtain ⟨hfinal, hcons, -⟩ := init_gives hh (ha 0) r hr
    exact ⟨hfinal, hcons⟩
  | succ left ih =>
    refine .bind (init_gives hh (ha (left + 1))) fun r hr => ?_
    obtain ⟨hfinal, hcons, hidle⟩ := hr
    refine .ite (fun hjerr => ih (hidle ?_)) fun _ => .pure ⟨hfinal, hcons⟩
    rw [hjerr]
    decide

/-- A driver without a device takes no entry that it would not give back. -/
theorem configuring_idle {n : ℕ} {h : Host} {lowspeed : Bool} {a : ConfiguringAnswers}
    (hh : h.Idle n) (ha : a.FromBus) :
    Gives (h.configuring lowspeed a) fun r => r.2.Consistent n := by
  have hlow : (h.setLowspeed 0 lowspeed).Idle n := hh.setRoot hh.pool.root
  refine .after fun _ => .ite (fun _ => .pure (Or.inl hlow)) fun _ => ?_
  refine .ite (fun haddr => absurd hlow.bAddress haddr) fun _ => ?_
  refine .bind (attemptConfig_gives ha.attempts 3 hlow) fun _ hr => ?_
  exact .ite (fun _ => .pure hr.2) fun hrefused => absurd hr.1 hrefused

/-- An entry is lost only while the driver has a device, and keeps it. -/
theorem configuring_taken {n : ℕ} {h : Host} {lowspeed : Bool} {a : ConfiguringAnswers}
    (hh : h.Consistent n) (ha : a.FromBus) :
    Gives (h.configuring lowspeed a) fun r => r.2.Consistent n ∨ r.2.Ready (n + 1) := by
  rcases hh with hidle | hready
  · exact fun r hr => Or.inl (configuring_idle hidle ha r hr)
  · intro r hr
    obtain ⟨-, -, houtcome⟩ := configuring_spec (Or.inr hready) hr
    cases houtcome with
    | failed _ hcons _ => exact Or.inl hcons
    | configured _ hready' _ => exact Or.inl (Or.inr hready')
    | addressed _ hcons hsame => exact Or.inr (hcons.ready (hsame.trans hready.bPollEnable))

theorem Ready.setState {n : ℕ} {h : Host} (hh : h.Ready n) (s : TaskState) (e : Byte) :
    Ready n { h with state := s, usbError := e } :=
  hh.addressed ⟨hh.pool, hh.control, hh.maxPktSize_le⟩ rfl hh.taken

/-- **What `Task` does to the pool**, whatever the lines and the device do:
no entry is lost, or one is while the driver keeps its device. -/
theorem task_taken {n : ℕ} {h h' : Host} {t : TaskInput} (hh : h.Inv n) (ht : t.answers.FromBus)
    (hstep : h.task t = some h') : h'.Consistent n ∨ h'.Ready (n + 1) := by
  obtain ⟨hcons, -, -⟩ := lineChange_spec hh t
  rcases stateStep_cases hstep with hrelease | hconf | hmoved
  · have hidle : (h.lineChange t).release.Consistent n :=
      Or.inl (hcons.elim (fun hi => hi.release) (fun hr => hr.release))
    rw [hrelease]
    exact Or.inl (hidle.same rfl rfl)
  · have hcons' := hcons.setState .configuring (h.lineChange t).delay (h.lineChange t).usbError
    have hend : Gives (configureStep { h.lineChange t with state := .configuring } t) fun h =>
        h.Consistent n ∨ h.Ready (n + 1) := by
      refine .bind (configuring_taken hcons' ht) fun (rcode, h) hr => ?_
      refine .ite (fun _ => .ite (fun _ => .pure ?_) fun _ => .pure hr) fun _ => .pure ?_
      · exact hr.imp (fun hc => hc.same rfl rfl) (fun hr => hr.setState .error rcode)
      · exact hr.imp (fun hc => hc.same rfl rfl) (fun hr => hr.setState .running h.usbError)
    exact hend h' hconf
  · exact Or.inl (hcons.same hmoved.pool hmoved.midi)

end Host

end MidiSynth.Usb
