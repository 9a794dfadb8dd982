/-
MidiSynth.Usb.ControlTheorems — what a control read hands to the descriptor
parser.

  §1 What the callback keeps, a control read keeps.
  §2 A control read without a callback stays inside its buffer, whatever the
     controller answers.
  §3 With the parser as the callback, if no packet is longer than the control
     endpoint's size and that size divides 64: the parser gets the bytes of
     the transfers, in order and once, whatever the buffer held before
     (`dataStage_parse`).
  §4 A device that sends its descriptors in packets of that size, with any
     number of toggle errors between them, gets them parsed as a whole
     (`getConfDescr_delivers`).
-/
import MidiSynth.Usb.Control
import MidiSynth.Usb.DescTheorems
import MidiSynth.Usb.TransferTheorems

namespace MidiSynth.Usb

open MidiSynth.Machine
open MidiSynth.Software (Byte)

/-! ## §1 What the callback keeps -/

section Keeps

variable {σ : Type} {n : ℕ} {feed : σ → List.Vector Byte n → ℕ → Option σ} {P : σ → Prop}

theorem dataStage_keeps (hfeed : ∀ {s buf k s'}, P s → feed s buf k = some s' → P s')
    {nbytes : BitVec 16} {ep : EpInfo} {buf buf' : List.Vector Byte n} {s s' : σ}
    {left : BitVec 16} {ts : List (List InAnswer)} {rcode : Byte} (hs : P s)
    (h : dataStage feed nbytes ep buf s left ts = some (rcode, buf', s')) : P s' := by
  induction ts generalizing buf s left with
  | nil =>
    cases h
    exact hs
  | cons answers ts ih =>
    rw [dataStage] at h
    split at h
    · cases h
      exact hs
    · obtain ⟨buf₁, -, h⟩ := Option.bind_eq_some_iff.mp h
      split at h
      · cases h
        exact hs
      · obtain ⟨s₁, hs₁, h⟩ := Option.bind_eq_some_iff.mp h
        split at h
        · cases h
          exact hfeed hs hs₁
        · exact ih (hfeed hs hs₁) h

theorem ctrlRead_keeps (hfeed : ∀ {s buf k s'}, P s → feed s buf k = some s' → P s')
    {nbytes total : BitVec 16} {ep : EpInfo} {buf buf' : List.Vector Byte n} {s s' : σ}
    {a : CtrlAnswers} {rcode : Byte} (hs : P s)
    (h : ctrlRead feed nbytes ep total buf s a = some (rcode, buf', s')) : P s' := by
  rw [ctrlRead] at h
  split at h
  · cases h
    exact hs
  · obtain ⟨⟨rc, buf₁, s₁⟩, hd, h⟩ := Option.bind_eq_some_iff.mp h
    cases h
    exact dataStage_keeps hfeed hs hd

end Keeps

/-- Whatever the bytes are, the parser stays sound and bounded over a
configuration. -/
theorem getConfDescr_bounded {ep : EpInfo} {p p' : DescParser} {a : ConfAnswers} {rcode : Byte}
    (hp : p.Sound ∧ p.Bounded) (h : getConfDescr ep p a = some (rcode, p')) :
    p'.Sound ∧ p'.Bounded := by
  obtain ⟨⟨rc, buf, u⟩, -, h⟩ := Option.bind_eq_some_iff.mp h
  dsimp only at h
  split at h
  · cases h
    exact hp
  · obtain ⟨⟨rc', buf', p₁⟩, hread, h⟩ := Option.bind_eq_some_iff.mp h
    cases h
    refine ctrlRead_keeps (P := fun p => DescParser.Sound p ∧ DescParser.Bounded p) ?_ hp hread
    intro s buf k s' hs hfeed
    obtain ⟨bytes, -, hparse⟩ := Option.bind_eq_some_iff.mp hfeed
    exact parse_keeps DescParser.parseDescriptor_resumable_bounded hs hparse

/-! ## §2 Without a callback -/

theorem dataStage_noParser {n : ℕ} {nbytes : BitVec 16} (hn : nbytes.toNat ≤ n)
    (hn' : nbytes.toNat < 2 ^ 15) (ep : EpInfo) (buf : List.Vector Byte n) (left : BitVec 16)
    (ts : List (List InAnswer)) : ∃ r, dataStage noParser nbytes ep buf () left ts = some r := by
  induction ts generalizing buf left with
  | nil => exact ⟨_, rfl⟩
  | cons answers ts ih =>
    have hstored := inTransfer_stored_le hn' ep answers
    obtain ⟨buf₁, hfill, -⟩ := fill_of_le (hstored.trans hn) buf
    rw [dataStage]
    split
    · exact ⟨_, rfl⟩
    · simp only [Option.bind_eq_bind, hfill, Option.bind_some, noParser]
      split
      · exact ⟨_, rfl⟩
      · split
        · exact ⟨_, rfl⟩
        · exact ih buf₁ _

theorem ctrlRead_noParser {n : ℕ} {nbytes : BitVec 16} (hn : nbytes.toNat ≤ n)
    (hn' : nbytes.toNat < 2 ^ 15) (ep : EpInfo) (buf : List.Vector Byte n) (total : BitVec 16)
    (a : CtrlAnswers) : ∃ r, ctrlRead noParser nbytes ep total buf () a = some r := by
  obtain ⟨r, hr⟩ := dataStage_noParser hn hn' ep buf total a.data
  rw [ctrlRead, hr]
  split <;> exact ⟨_, rfl⟩

/-- The two requests for the device descriptor stay inside `buf`. -/
theorem getDevDescr_isSome {nbytes : BitVec 16} (hn : nbytes.toNat ≤ devDescrSize) (ep : EpInfo)
    (buf : List.Vector Byte devDescrSize) (a : CtrlAnswers) :
    ∃ r, getDevDescr ep nbytes buf a = some r := by
  have h18 : devDescrSize = 18 := rfl
  obtain ⟨r, hr⟩ := ctrlRead_noParser hn (by omega) ep buf nbytes a
  rw [getDevDescr, hr]
  exact ⟨_, rfl⟩

/-! ## §3 With the parser -/

/-- What is handed to the parser, transfer by transfer. -/
def pieces (ep : EpInfo) (left : BitVec 16) : List (List InAnswer) → List (List Byte)
  | [] => []
  | answers :: ts =>
    if left = 0 then []
    else
      let t := inTransfer ep 64 answers
      if t.rcode ≠ 0 then []
      else t.stored :: if t.nbytes < 64 then [] else pieces ep (left - t.nbytes) ts

/-- The return code of the data stage. -/
def stageCode (ep : EpInfo) (left : BitVec 16) : List (List InAnswer) → Byte
  | [] => if left = 0 then 0 else hrNAK
  | answers :: ts =>
    if left = 0 then 0
    else
      let t := inTransfer ep 64 answers
      if t.rcode ≠ 0 then t.rcode
      else if t.nbytes < 64 then 0 else stageCode ep (left - t.nbytes) ts

/-- No packet that arrives is longer than the endpoint's size, and whole
packets fill a transfer. -/
structure WellSized (ep : EpInfo) (ts : List (List InAnswer)) : Prop where
  divides : ep.maxPktSize.toNat ∣ 64
  packet_le : ∀ answers ∈ ts, ∀ a ∈ answers, a.rcode = 0 → a.rcvBc.toNat ≤ ep.maxPktSize.toNat

/-- A count that is a whole number of packets and below 64 has room for one
more. -/
theorem add_le_of_dvd {m k : ℕ} (hm : m ∣ 64) (hk : m ∣ k) (hlt : k < 64) : k + m ≤ 64 := by
  obtain ⟨i, rfl⟩ := hk
  obtain ⟨j, hj⟩ := hm
  have hij : i < j := Nat.lt_of_mul_lt_mul_left (hlt.trans_eq hj)
  calc m * i + m = m * (i + 1) := (Nat.mul_succ m i).symm
    _ ≤ m * j := Nat.mul_le_mul_left m hij
    _ = 64 := hj.symm

/-- A transfer of well-sized packets counts no more than it was asked for. -/
theorem inLoop_nbytes_le {m : ℕ} (hm : m ∣ 64) {ep : EpInfo} (hep : ep.maxPktSize.toNat = m)
    {got : BitVec 16} (hgot : m ∣ got.toNat) (hlt : got.toNat < 64) (stored : List Byte)
    {answers : List InAnswer} (ha : ∀ a ∈ answers, a.rcode = 0 → a.rcvBc.toNat ≤ m) :
    (inLoop 64 ep got stored answers).nbytes.toNat ≤ 64 := by
  induction answers generalizing ep got stored with
  | nil => exact hlt.le
  | cons a as ih =>
    obtain ⟨hfirst, hrest⟩ := List.forall_mem_cons.mp ha
    have hsize := toNat_packetSize 64 a.rcvBc
    have hadd := toNat_got_add got (show (64 : BitVec 16).toNat < 2 ^ 15 by decide) hlt.le (packetSize 64 a.rcvBc)
    have hroom := add_le_of_dvd hm hgot hlt
    unfold inLoop
    split
    · refine ih ?_ hgot hlt stored hrest
      exact hep
    split
    · exact hlt.le
    rename_i hzero
    have hfirst := hfirst (not_not.mp hzero)
    split
    · exact hlt.le
    dsimp only
    split
    · show (got + _).toNat ≤ 64
      omega
    · rename_i hmore
      rw [not_or, BitVec.lt_def, BitVec.le_def, hep, hadd] at hmore
      have h64 : (64 : BitVec 16).toNat = 64 := rfl
      have hfull : (packetSize 64 a.rcvBc).toNat = m := by omega
      refine ih hep ?_ (by omega) _ hrest
      rw [hadd, hfull]
      exact Nat.dvd_add hgot (Nat.dvd_refl m)

/-- A transfer of well-sized packets reports what it stored. -/
theorem inTransfer_reports {ep : EpInfo} {answers : List InAnswer} (hm : ep.maxPktSize.toNat ∣ 64)
    (ha : ∀ a ∈ answers, a.rcode = 0 → a.rcvBc.toNat ≤ ep.maxPktSize.toNat) :
    let t := inTransfer ep 64 answers
    t.stored.length = t.nbytes.toNat ∧ t.nbytes.toNat ≤ 64 := by
  have hle := inLoop_nbytes_le hm rfl (show _ ∣ (0 : BitVec 16).toNat from Nat.dvd_zero _)
    (by decide) [] ha
  have hlen := inLoop_stored (show (64 : BitVec 16).toNat < 2 ^ 15 by decide) ep 0 []
    (Nat.zero_le _) rfl answers
  exact ⟨hlen.trans (Nat.min_eq_right hle), hle⟩

/-- **The parser gets the bytes of the transfers**, each once and in order,
whatever the buffer held before; the return code does not depend on what it
makes of them. -/
theorem dataStage_parse {ep : EpInfo} {ts : List (List InAnswer)} (h : WellSized ep ts)
    (buf : List.Vector Byte eventPacketSize) (p : DescParser) (left : BitVec 16) :
    ∃ buf', dataStage parseRead 64 ep buf p left ts
      = (parsePieces DescParser.parseDescriptor p (pieces ep left ts)).map fun p' =>
        (stageCode ep left ts, buf', p') := by
  induction ts generalizing buf p left with
  | nil => exact ⟨buf, rfl⟩
  | cons answers ts ih =>
    obtain ⟨hfirst, hrest⟩ := List.forall_mem_cons.mp h.packet_le
    obtain ⟨hlen, hle⟩ := inTransfer_reports h.divides hfirst
    have hroom : (inTransfer ep 64 answers).stored.length ≤ eventPacketSize := hlen.trans_le hle
    obtain ⟨buf₁, hfill, hbuf₁⟩ := fill_of_le hroom buf
    simp only [dataStage, pieces, stageCode, Option.bind_eq_bind, hfill, Option.bind_some]
    by_cases hleft : left = 0
    · simp only [if_pos hleft]
      exact ⟨buf, rfl⟩
    simp only [if_neg hleft]
    by_cases hrcode : (inTransfer ep 64 answers).rcode = 0
    · have hloads : loads buf₁ 0 (inTransfer ep 64 answers).nbytes.toNat
          = some (inTransfer ep 64 answers).stored := by
        rw [loads_of_le _ (by rw [Nat.zero_add]; exact hle), List.drop_zero, hbuf₁, ← hlen,
          List.take_left]
      simp only [hrcode, ne_eq, not_true_eq_false, if_false, parseRead, hloads, Option.bind_eq_bind,
        Option.bind_some]
      by_cases hshort : (inTransfer ep 64 answers).nbytes < 64
      · simp only [if_pos hshort]
        refine ⟨buf₁, ?_⟩
        rw [parsePieces, List.foldlM_cons]
        cases parse DescParser.parseDescriptor p (inTransfer ep 64 answers).stored <;> rfl
      · simp only [if_neg hshort]
        rw [parsePieces, List.foldlM_cons]
        rcases parse DescParser.parseDescriptor p (inTransfer ep 64 answers).stored with _ | p₁
        · exact ⟨buf₁, rfl⟩
        · exact ih ⟨h.divides, hrest⟩ buf₁ p₁ (left - (inTransfer ep 64 answers).nbytes)
    · simp only [ne_eq, hrcode, not_false_eq_true, if_true]
      exact ⟨buf₁, rfl⟩

/-! ## §4 A device that sends its descriptors -/

/-- Transfers of 64 bytes, the last one shorter. -/
inductive SendsAll (m : ℕ) : List Byte → List (List InAnswer) → Prop where
  | done : SendsAll m [] []
  | last {bs : List Byte} {answers : List InAnswer} (h : Sends m 64 bs answers)
      (hne : bs ≠ []) (hlt : bs.length < 64) : SendsAll m bs [answers]
  | more {block bs : List Byte} {answers : List InAnswer} {ts : List (List InAnswer)}
      (h : Sends m 64 block answers) (hlen : block.length = 64) (hts : SendsAll m bs ts) :
      SendsAll m (block ++ bs) (answers :: ts)

theorem SendsAll.packet_le {m : ℕ} {bs : List Byte} {ts : List (List InAnswer)}
    (h : SendsAll m bs ts) :
    ∀ answers ∈ ts, ∀ a ∈ answers, a.rcode = 0 → a.rcvBc.toNat ≤ m := by
  induction h with
  | done => exact fun _ hmem => absurd hmem List.not_mem_nil
  | last h _ _ => exact List.forall_mem_singleton.mpr h.packet_le
  | more h _ _ ih => exact List.forall_mem_cons.mpr ⟨h.packet_le, ih⟩

theorem pieces_sendsAll {ep : EpInfo} {bs : List Byte} {ts : List (List InAnswer)}
    (h : SendsAll ep.maxPktSize.toNat bs ts) {left : BitVec 16} (hleft : left.toNat = bs.length) :
    (pieces ep left ts).flatten = bs ∧ stageCode ep left ts = 0 := by
  induction h generalizing left with
  | done =>
    have hzero : left = 0 := BitVec.eq_of_toNat_eq hleft
    exact ⟨rfl, if_pos hzero⟩
  | @last bs answers h hne hlt =>
    obtain ⟨hcode, hcount, hstored⟩ :=
      inTransfer_sends (show (64 : BitVec 16).toNat < 2 ^ 15 by decide) h (Or.inl rfl)
    have hne' : ¬ left = 0 := by
      intro hzero
      rw [hzero] at hleft
      exact hne (List.length_eq_zero_iff.mp hleft.symm)
    have hshort : (inTransfer ep 64 answers).nbytes < 64 := by
      rw [BitVec.lt_def, hcount]
      exact hlt
    simp only [pieces, stageCode, if_neg hne', hcode, ne_eq, not_true_eq_false, if_false,
      if_pos hshort, hstored]
    exact ⟨by simp, trivial⟩
  | @more block bs answers ts h hlen hts ih =>
    obtain ⟨hcode, hcount, hstored⟩ :=
      inTransfer_sends (show (64 : BitVec 16).toNat < 2 ^ 15 by decide) h (Or.inl rfl)
    rw [List.length_append, hlen] at hleft
    have hne' : ¬ left = 0 := by
      intro hzero
      rw [hzero] at hleft
      exact absurd hleft (by show ¬ (0 = 64 + bs.length); omega)
    have hfull : ¬ (inTransfer ep 64 answers).nbytes < 64 := by
      rw [BitVec.lt_def, hcount, hlen]
      decide
    have hsub : (left - (inTransfer ep 64 answers).nbytes).toNat = bs.length := by
      rw [BitVec.toNat_sub_of_le (BitVec.le_def.mpr (by omega)), hcount, hlen, hleft]
      exact Nat.add_sub_cancel_left 64 _
    obtain ⟨hflat, hstage⟩ := ih hsub
    simp only [pieces, stageCode, if_neg hne', hcode, ne_eq, not_true_eq_false, if_false,
      if_neg hfull, hstored]
    exact ⟨by rw [List.flatten_cons, hflat], hstage⟩

/-- A request that the device answers with one transfer. -/
structure SendsOne (m room : ℕ) (bs : List Byte) (a : CtrlAnswers) : Prop where
  setup : a.setup = 0
  data : ∃ answers, a.data = [answers] ∧ Sends m room bs answers
  status : a.status = 0

/-- A request for a fixed number of bytes, answered in full. -/
theorem ctrlRead_sendsOne {n m : ℕ} {nbytes : BitVec 16} (hn : nbytes.toNat ≤ n)
    (hn' : nbytes.toNat < 2 ^ 15) (hpos : nbytes ≠ 0) {ep : EpInfo} {bs : List Byte}
    {a : CtrlAnswers} (h : SendsOne m nbytes.toNat bs a) (hbs : bs.length = nbytes.toNat)
    (hep : Serves ep m nbytes.toNat bs) (buf : List.Vector Byte n) :
    ∃ buf', ctrlRead noParser nbytes ep nbytes buf () a = some (0, buf', ()) ∧
      buf'.toList = bs ++ buf.toList.drop bs.length := by
  obtain ⟨answers, hdata, hsends⟩ := h.data
  obtain ⟨hcode, hcount, hstored⟩ := inTransfer_sends hn' hsends hep
  obtain ⟨buf', hfill, hbuf'⟩ := fill_of_le
    (show (inTransfer ep nbytes answers).stored.length ≤ n by rw [hstored, hbs]; exact hn) buf
  have hall : (inTransfer ep nbytes answers).nbytes = nbytes :=
    BitVec.eq_of_toNat_eq (hcount.trans hbs)
  have hfull : ¬ nbytes < nbytes := by
    rw [BitVec.lt_def]
    exact Nat.lt_irrefl _
  refine ⟨buf', ?_, by rw [hbuf', hstored]⟩
  simp only [ctrlRead, h.setup, hdata, dataStage, hfill, hcode, noParser, if_neg hpos, hall,
    if_neg hfull, Option.bind_eq_bind, Option.bind_some, ne_eq, not_true_eq_false, if_false,
    h.status, BitVec.sub_self]
  rfl

/-- A device that answers both requests of `getConfDescr` for these bytes,
with their true length at the third and fourth byte. -/
structure SendsConf (m : ℕ) (bs : List Byte) (a : ConfAnswers) : Prop where
  head : SendsOne m 9 (bs.take 9) a.head
  long : 9 ≤ bs.length
  total : (bs.getD 3 0 ++ bs.getD 2 0 : BitVec 16).toNat = bs.length
  setup : a.descriptors.setup = 0
  data : SendsAll m bs a.descriptors.data
  status : a.descriptors.status = 0

/-- **A configuration arrives**: the parser ends as on all its bytes at
once. -/
theorem getConfDescr_delivers {ep : EpInfo} (hm : ep.maxPktSize.toNat ∣ 64) {bs : List Byte}
    {a : ConfAnswers} (h : SendsConf ep.maxPktSize.toNat bs a) {p : DescParser} (hp : p.Sound) :
    getConfDescr ep p a = (parse DescParser.parseDescriptor p bs).map fun p' => (0, p') := by
  have hnine : (bs.take 9).length = 9 := List.length_take_of_le h.long
  -- the first request: nine bytes, and nothing more to come
  obtain ⟨buf₁, hhead, hbuf₁⟩ := ctrlRead_sendsOne (show (9 : BitVec 16).toNat ≤ eventPacketSize by decide)
    (by decide) (by decide) h.head hnine (Or.inl rfl) a.buf
  have hget : ∀ (i : Fin eventPacketSize), i.val < 9 → buf₁.get i = bs.getD i.val 0 := by
    intro i hi
    apply get_of_getElem?
    have hlt : i.val < (bs.take 9).length := hi.trans_eq hnine.symm
    rw [hbuf₁, List.getElem?_append_left hlt, List.getElem?_take_of_lt hi,
      List.getD_eq_getElem?_getD, List.getElem?_eq_getElem (hi.trans_le h.long)]
    rfl
  obtain ⟨buf', hstage⟩ := dataStage_parse ⟨hm, h.data.packet_le⟩ buf₁ p
    (wTotalLength buf₁)
  have htotal : (wTotalLength buf₁).toNat = bs.length := by
    rw [wTotalLength, hget 3 (by decide), hget 2 (by decide)]
    exact h.total
  obtain ⟨hflat, hzero⟩ := pieces_sendsAll h.data htotal
  rw [hzero, parsePieces_eq DescParser.parseDescriptor_resumable hp, hflat] at hstage
  rw [getConfDescr, hhead]
  simp only [Option.bind_eq_bind, Option.bind_some, ne_eq, not_true_eq_false, if_false, ctrlRead,
    h.setup, hstage]
  cases parse DescParser.parseDescriptor p bs with
  | none => rfl
  | some p' => simp [h.status]

end MidiSynth.Usb
