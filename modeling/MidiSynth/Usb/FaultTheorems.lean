/-
MidiSynth.Usb.FaultTheorems — where `Task` can leave an array.

`Init` hands the bytes of the configurations to `Parse` as they arrive. Each
function on the way from `Task` down to the transfers has beside it the list
of the calls of `Parse` that it makes, with the parser and the buffer they
are made with and as far as it gets. These calls account for every fault:
`Task` leaves an array if, and only if, one of them does (`task_none_iff`).

  §1 One configuration: `getConfDescr`.
  §2 `Init`.
  §3 `Task`.
-/
import MidiSynth.Usb.TaskTheorems

namespace MidiSynth.Usb

open MidiSynth.Machine
open MidiSynth.Software (Byte)

/-! ## §1 One configuration -/

/-- A call of `Parse`: the parser, the buffer it reads from, and how many
bytes. -/
structure ParseCall where
  parser : DescParser
  buf : List.Vector Byte eventPacketSize
  read : ℕ

/-- The call reads outside the buffer or writes outside `varBuffer`. -/
def ParseCall.Faults (c : ParseCall) : Prop := parseRead c.parser c.buf c.read = none

instance (c : ParseCall) : Decidable c.Faults := decidable_of_iff _ Option.isNone_iff_eq_none

/-- The calls of a data stage, one for each transfer that arrives. -/
def stageCalls (ep : EpInfo) (buf : List.Vector Byte eventPacketSize) (p : DescParser)
    (left : BitVec 16) : List (List InAnswer) → List ParseCall
  | [] => []
  | answers :: ts =>
    if left = 0 then []
    else
      let t := inTransfer ep 64 answers
      after (fill buf t.stored) fun buf =>
        if t.rcode ≠ 0 then []
        else [⟨p, buf, t.nbytes.toNat⟩] ++ after (parseRead p buf t.nbytes.toNat) fun p =>
          if t.nbytes < 64 then [] else stageCalls ep buf p (left - t.nbytes) ts

/-- The calls of `getConfDescr`. -/
def confCalls (ep : EpInfo) (p : DescParser) (a : ConfAnswers) : List ParseCall :=
  after (ctrlRead noParser 9 ep 9 a.buf () a.head) fun head =>
    if head.1 ≠ 0 then []
    else if a.descriptors.setup ≠ 0 then []
    else stageCalls ep head.2.1 p (wTotalLength head.2.1) a.descriptors.data

theorem dataStage_accounts (ep : EpInfo) (buf : List.Vector Byte eventPacketSize) (p : DescParser)
    (left : BitVec 16) (ts : List (List InAnswer)) :
    Accounts ParseCall.Faults (dataStage parseRead 64 ep buf p left ts)
      (stageCalls ep buf p left ts) := by
  induction ts generalizing buf p left with
  | nil => exact .pure _
  | cons answers ts ih =>
    have hroom : (inTransfer ep 64 answers).stored.length ≤ eventPacketSize :=
      inTransfer_stored_le (by decide) ep answers
    obtain ⟨buf', hfill, -⟩ := fill_of_le hroom buf
    rw [dataStage, stageCalls]
    refine .ite (.pure _) (.bind_some ⟨buf', hfill⟩ fun buf' => .ite (.pure _) ?_)
    exact .bind (.call Iff.rfl) fun p' => .ite (.pure _) (ih buf' p' _)

theorem getConfDescr_accounts (ep : EpInfo) (p : DescParser) (a : ConfAnswers) :
    Accounts ParseCall.Faults (getConfDescr ep p a) (confCalls ep p a) := by
  have hhead := ctrlRead_noParser (show (9 : BitVec 16).toNat ≤ eventPacketSize by decide)
    (by decide) ep a.buf 9 a.head
  refine .bind_some hhead fun head => .ite (.pure _) (.bind_isSome ?_ fun _ => ⟨_, rfl⟩)
  exact .ite (.pure _) (.bind_isSome (dataStage_accounts ..) fun _ => ⟨_, rfl⟩)

namespace Host

/-! ## §2 `Init` -/

/-- The calls of one pass over the configurations. -/
def passCalls (modeMidi : Bool) (a : InitAnswers) (bNumEP : Byte) : ℕ → ℕ → Host → List ParseCall
  | _, 0, _ => []
  | i, left + 1, h =>
    let c := a.conf modeMidi i
    let p := DescParser.fresh modeMidi c.isGoodInterface c.confValue c.varBuffer
      h.midi.bTransferTypeMask h.midi.epInfo
    match h.setAddress h.midi.bAddress 0 with
    | .error _ => []
    | .ok ep =>
      confCalls ep p c ++ after (getConfDescr ep p c) fun (rcode, p) =>
        let h := { h with midi := { h.midi with epInfo := p.epInfo } }
        if rcode ≠ 0 then []
        else if 1 < bNumEP + p.nEPs then []
        else passCalls modeMidi a (bNumEP + p.nEPs) (i + 1) left h

def vendorCalls (a : InitAnswers) (numOfConf bNumEP : Byte) (h : Host) : List ParseCall :=
  if bNumEP = 1 then passCalls false a bNumEP 0 numOfConf.toNat h else []

def configureCalls (h : Host) (numOfConf : Byte) (a : InitAnswers) : List ParseCall :=
  passCalls true a 1 0 numOfConf.toNat h
    ++ after (findEndpoints true a 1 0 0 numOfConf.toNat h) fun (rcode, bNumEP, _, h) =>
      if rcode ≠ 0 then [] else vendorCalls a numOfConf bNumEP h

/-- The calls of `Init`. -/
def initCalls (h : Host) (lowspeed : Bool) (a : InitAnswers) : List ParseCall :=
  let h := h.resetToggles
  if h.midi.bAddress ≠ 0 then []
  else
    after (h.firstDescr lowspeed a) fun (rcode, buf, h) =>
      if rcode ≠ 0 then []
      else
        let (rcode, h) := h.assignAddress lowspeed buf a
        if rcode ≠ 0 then []
        else
          after (h.readDevice buf a) fun (rcode, numOfConf, h) =>
            if rcode ≠ 0 then [] else h.configureCalls numOfConf a

theorem findEndpoints_accounts (modeMidi : Bool) (a : InitAnswers) (bNumEP bConfNum : Byte)
    (i left : ℕ) (h : Host) :
    Accounts ParseCall.Faults (findEndpoints modeMidi a bNumEP bConfNum i left h)
      (passCalls modeMidi a bNumEP i left h) := by
  induction left generalizing i h bNumEP with
  | zero => exact .pure _
  | succ left ih =>
    rw [findEndpoints, passCalls]
    cases h.setAddress h.midi.bAddress 0 with
    | error e => exact .pure _
    | ok ep =>
      refine .bind (getConfDescr_accounts ..) fun r => .ite (.pure _) (.ite (.pure _) ?_)
      exact ih (bNumEP + r.2.nEPs) (i + 1) { h with midi := { h.midi with epInfo := r.2.epInfo } }

theorem configure_accounts (h : Host) (numOfConf : Byte) (a : InitAnswers) :
    Accounts ParseCall.Faults (h.configure numOfConf a) (h.configureCalls numOfConf a) := by
  refine .bind (findEndpoints_accounts ..) fun (_, bNumEP, bConfNum, h) => .ite (.pure _) ?_
  have hvendor : Accounts ParseCall.Faults (findVendor a numOfConf bNumEP bConfNum h)
      (vendorCalls a numOfConf bNumEP h) := .ite (findEndpoints_accounts ..) (.pure _)
  refine hvendor.bind_isSome fun (_, _, _, h) => ?_
  dsimp only
  split_ifs <;> exact ⟨_, rfl⟩

theorem firstDescr_isSome (h : Host) (lowspeed : Bool) (a : InitAnswers) :
    ∃ r, h.firstDescr lowspeed a = some r := by
  obtain ⟨r, hr⟩ :=
    (h.setEntry 0 { h.pool 0 with epinfo := .midi, lowspeed := lowspeed }).devDescrAt_isSome 0
      (show (8 : BitVec 16).toNat ≤ devDescrSize by decide) a.buf a.firstDescr
  rw [firstDescr_eq, hr]
  exact ⟨_, rfl⟩

theorem readDevice_isSome (h : Host) (buf : List.Vector Byte devDescrSize) (a : InitAnswers) :
    ∃ r, h.readDevice buf a = some r := by
  obtain ⟨⟨rcode, buf'⟩, hdescr⟩ := h.devDescrAt_isSome h.midi.bAddress
    (show (BitVec.ofNat 16 devDescrSize).toNat ≤ devDescrSize by decide) buf a.devDescr
  rw [readDevice, hdescr]
  simp only [Option.bind_eq_bind, Option.bind_some]
  split_ifs <;> exact ⟨_, rfl⟩

theorem init_accounts (h : Host) (lowspeed : Bool) (a : InitAnswers) :
    Accounts ParseCall.Faults (h.init lowspeed a) (h.initCalls lowspeed a) := by
  refine .ite (.pure _) (.bind_some (firstDescr_isSome ..) fun (_, buf, h) => .ite (.pure _) ?_)
  refine .ite (.pure _) (.bind_some (readDevice_isSome ..) fun (_, numOfConf, h) => ?_)
  exact .ite (.pure _) (h.configure_accounts numOfConf a)

/-! ## §3 `Task` -/

/-- The calls of `AttemptConfig`, in one attempt after the other. -/
def attemptCalls (lowspeed : Bool) (a : ℕ → InitAnswers) : ℕ → Host → List ParseCall
  | 0, h => h.initCalls lowspeed (a 0)
  | left + 1, h =>
    h.initCalls lowspeed (a (left + 1)) ++ after (h.init lowspeed (a (left + 1))) fun (rcode, h) =>
      if rcode = hrJERR then attemptCalls lowspeed a left h else []

def configuringCalls (h : Host) (lowspeed : Bool) (a : ConfiguringAnswers) : List ParseCall :=
  after (getDevDescr dev0ep (BitVec.ofNat 16 devDescrSize) a.buf a.devDescr) fun (rcode, _) =>
    let h := h.setLowspeed rootIndex lowspeed
    if rcode ≠ 0 then []
    else if h.midi.bAddress ≠ 0 then []
    else attemptCalls lowspeed a.attempts 3 h

/-- The second `switch` of `Task` comes to `Configuring`. -/
def configures (h : Host) (t : TaskInput) : Bool :=
  match h.state with
  | .configuring => true
  | .waitReset => h.waited t.millis
  | _ => false

/-- The calls of `Parse` in a call of `Task`. -/
def parseCalls (h : Host) (t : TaskInput) : List ParseCall :=
  let h := h.lineChange t
  if h.configures t then
    configuringCalls { h with state := .configuring } (t.vbus = .lshost) t.answers
  else []

theorem attemptConfig_accounts (lowspeed : Bool) (a : ℕ → InitAnswers) (left : ℕ) (h : Host) :
    Accounts ParseCall.Faults (attemptConfig lowspeed a left h)
      (attemptCalls lowspeed a left h) := by
  induction left generalizing h with
  | zero => exact init_accounts ..
  | succ left ih => exact .bind (init_accounts ..) fun (_, h) => .ite (ih h) (.pure _)

theorem configuring_accounts (h : Host) (lowspeed : Bool) (a : ConfiguringAnswers) :
    Accounts ParseCall.Faults (h.configuring lowspeed a) (h.configuringCalls lowspeed a) := by
  have hdescr := getDevDescr_isSome
    (show (BitVec.ofNat 16 devDescrSize).toNat ≤ devDescrSize by decide) dev0ep a.buf a.devDescr
  refine .bind_some hdescr fun (_, _) => .ite (.pure _) (.ite (.pure _) ?_)
  refine (attemptConfig_accounts ..).bind_isSome fun (_, h) => ?_
  dsimp only
  split_ifs <;> exact ⟨_, rfl⟩

theorem configureStep_accounts (h : Host) (t : TaskInput) :
    Accounts ParseCall.Faults (h.configureStep t)
      (h.configuringCalls (t.vbus = .lshost) t.answers) := by
  refine (configuring_accounts ..).bind_isSome fun (_, h) => ?_
  dsimp only
  split_ifs <;> exact ⟨_, rfl⟩

/-- **The only fault of `Task`**: it leaves an array if, and only if, one of
its calls of `Parse` does. -/
theorem task_none_iff (h : Host) (t : TaskInput) :
    h.task t = none ↔ ∃ c ∈ h.parseCalls t, c.Faults := by
  show Accounts ParseCall.Faults ((h.lineChange t).stateStep t) (h.parseCalls t)
  generalize hline : h.lineChange t = h'
  obtain ⟨s, hs⟩ : ∃ s, h'.state = s := ⟨_, rfl⟩
  rw [parseCalls, hline, stateStep, configures, hs]
  cases s with
  | waitReset => exact .ite (configureStep_accounts ..) (.pure _)
  | configuring =>
    have hsame : ({ h' with state := .configuring } : Host) = h' := by rw [← hs]
    rw [if_pos rfl, hsame]
    exact configureStep_accounts ..
  | detachedInitialize | waitForDevice | illegal | settle | resetDevice | waitResetComplete |
      waitSof | running | error => exact .pure _

end Host

end MidiSynth.Usb
