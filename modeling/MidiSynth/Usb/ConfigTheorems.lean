/-
MidiSynth.Usb.ConfigTheorems — what the descriptor parser finds in a
configuration.

The purpose of the parser, on a list of descriptors: keep the configuration
value, note whether the last interface is the kind looked for, and take the
first two bulk endpoints of such interfaces (`Descriptor.apply`). No stages,
no counters and no buffer are left at this level. `parse_descriptors` ties
it to the code: on the bytes of any list of descriptors of the usual
lengths, cut in any way, the parser ends with what `apply` finds.

Bytes that are no such list are cut as well, wherever their length bytes say
(`cut`), the last descriptor perhaps before its end. A part of more than 14
bytes is written outside `varBuffer`, and that is the only fault there is
(`parse_fault_iff`).
-/
import MidiSynth.Usb.DescTheorems

namespace MidiSynth.Usb

open MidiSynth.Machine
open MidiSynth.Software (Byte)

/-! ## §1 The purpose -/

/-- What the parser is run for. -/
@[ext] structure Found where
  isGoodInterface : Bool
  nEPs : Byte
  confValue : Byte
  epInfo : Fin maxEndpoints → EpInfo

def DescParser.found (p : DescParser) : Found where
  isGoodInterface := p.isGoodInterface
  nEPs := p.nEPs
  confValue := p.confValue
  epInfo := p.epInfo

namespace Descriptor

/-- The byte at an offset into the body. -/
def byte (d : Descriptor) (i : ℕ) : Byte := d.body.getD i 0

def IsMidiInterface (d : Descriptor) : Prop :=
  d.byte 3 = classAudio ∧ d.byte 4 = subclassMidiStreaming

instance (d : Descriptor) : Decidable d.IsMidiInterface := inferInstanceAs (Decidable (_ ∧ _))

def IsBulk (mask : Byte) (d : Descriptor) : Prop := d.byte 1 &&& mask = transferTypeBulk

instance (mask : Byte) (d : Descriptor) : Decidable (d.IsBulk mask) :=
  inferInstanceAs (Decidable (_ = _))

/-- Where an endpoint descriptor goes in the driver's table. -/
def index (d : Descriptor) : Fin maxEndpoints :=
  if d.byte 0 &&& 0x80 = 0x80 then epDataInIndex else epDataOutIndex

/-- The record of an endpoint, with the toggles and the NAK power the table
had. -/
def epInfo (d : Descriptor) (old : EpInfo) : EpInfo :=
  let wMaxPacketSize : BitVec 16 := d.byte 3 ++ d.byte 2
  { old with
    epAddr := d.byte 0 &&& 0x0F
    maxPktSize := if 64 < wMaxPacketSize then 64 else wMaxPacketSize.setWidth 8 }

/-- What a descriptor adds to what has been found. -/
def apply (isMidiSearch : Bool) (mask : Byte) (f : Found) (d : Descriptor) : Found :=
  if d.dscrType = descriptorConfiguration then { f with confValue := d.byte 3 }
  else if d.dscrType = descriptorInterface then
    if isMidiSearch ∧ ¬ d.IsMidiInterface then { f with isGoodInterface := false }
    else { f with isGoodInterface := true, nEPs := if f.nEPs < 2 then 0 else f.nEPs }
  else if d.dscrType = descriptorEndpoint then
    if f.isGoodInterface ∧ f.nEPs < 2 ∧ d.IsBulk mask then
      { f with
        epInfo := Function.update f.epInfo d.index (d.epInfo (f.epInfo d.index))
        nEPs := f.nEPs + 1 }
    else f
  else f

/-- A descriptor that is read has the fields that are read, and fits. -/
structure Proper (d : Descriptor) : Prop where
  fields : DescParser.isRead d.dscrType = true → 5 ≤ d.body.length
  fits : d.Fits

end Descriptor

/-! ## §2 The parser serves it -/

namespace DescParser

theorem afterSkip_found {p : DescParser} {d : Descriptor} (hd : isRead d.dscrType = false)
    (buf : List.Vector Byte 16) :
    (p.afterSkip d.dscrLen d.dscrType buf).found = d.apply p.isMidiSearch p.bTransferTypeMask p.found := by
  have hne : d.dscrType ≠ descriptorConfiguration ∧ d.dscrType ≠ descriptorInterface ∧
      d.dscrType ≠ descriptorEndpoint := by
    simpa [isRead] using hd
  rw [Descriptor.apply, if_neg hne.1, if_neg hne.2.1, if_neg hne.2.2]
  simp only [afterSkip, endDescriptor, afterHeader, found, if_neg hne.2.1]

/-- The fields the code reads from `varBuffer` are bytes of the body. -/
theorem get_body {d : Descriptor} {buf : List.Vector Byte 16} {rest : List Byte}
    (hbuf : buf.toList = d.dscrLen :: d.dscrType :: d.body ++ rest) {i : ℕ}
    (hi : i < d.body.length) {j : Fin 16} (hj : j.val = i + 2) : buf.get j = d.byte i := by
  apply get_of_getElem?
  rw [hbuf, hj, List.cons_append, List.cons_append, List.getElem?_cons_succ,
    List.getElem?_cons_succ, List.getElem?_append_left hi, Descriptor.byte, List.getD_eq_getElem?_getD,
    List.getElem?_eq_getElem hi]
  rfl

theorem afterRead_found {p : DescParser} {d : Descriptor} (hd : isRead d.dscrType = true)
    (hlen : 5 ≤ d.body.length) {buf : List.Vector Byte 16} {rest : List Byte}
    (hbuf : buf.toList = d.dscrLen :: d.dscrType :: d.body ++ rest) :
    (p.afterRead d.dscrLen d.dscrType buf).found = d.apply p.isMidiSearch p.bTransferTypeMask p.found := by
  have h0 : buf.get 2 = d.byte 0 := get_body hbuf (by omega) rfl
  have h1 : buf.get 3 = d.byte 1 := get_body hbuf (by omega) rfl
  have h2 : buf.get 4 = d.byte 2 := get_body hbuf (by omega) rfl
  have h3 : buf.get 5 = d.byte 3 := get_body hbuf (by omega) rfl
  have h4 : buf.get 6 = d.byte 4 := get_body hbuf (by omega) rfl
  rw [Descriptor.apply, afterRead, afterHeader, takeDescriptor]
  by_cases hconf : d.dscrType = descriptorConfiguration
  · have hne : ¬ d.dscrType = descriptorInterface := by rw [hconf]; decide
    simp only [if_pos hconf, if_neg hne, h3]
    rfl
  · rw [if_neg hconf]
    by_cases hintf : d.dscrType = descriptorInterface
    · have hmidi : decide (d.byte 3 = classAudio ∧ d.byte 4 = subclassMidiStreaming)
          = decide d.IsMidiInterface := rfl
      simp only [if_neg hconf, if_pos hintf, isMidiInterface, h3, h4, hmidi, decide_eq_true_eq]
      by_cases hm : p.isMidiSearch = true ∧ ¬ d.IsMidiInterface
      · rw [if_pos hm, if_pos hm]
        rfl
      · rw [if_neg hm, if_neg hm]
        rfl
    · have hep : d.dscrType = descriptorEndpoint := by
        simpa [isRead, hconf, hintf] using hd
      simp only [if_neg hconf, if_neg hintf, if_pos hep, endpointXtract, h0, h1, h2, h3]
      have hbulk : (d.byte 1 &&& p.bTransferTypeMask = transferTypeBulk)
          ↔ d.IsBulk p.bTransferTypeMask := Iff.rfl
      have hguard : p.found.isGoodInterface = true ∧ p.found.nEPs < 2 ∧ d.IsBulk p.bTransferTypeMask ↔
          (p.isGoodInterface = true ∧ p.nEPs < 2) ∧ d.IsBulk p.bTransferTypeMask := and_assoc.symm
      by_cases hg : p.isGoodInterface = true ∧ p.nEPs < 2
      · by_cases hb : d.IsBulk p.bTransferTypeMask
        · rw [if_pos hg, if_pos (hguard.mpr ⟨hg, hb⟩), if_pos (hbulk.mpr hb)]
          rfl
        · rw [if_pos hg, if_neg (fun h => hb (hguard.mp h).2), if_neg (fun h => hb (hbulk.mp h))]
          rfl
      · rw [if_neg hg, if_neg (fun h => hg (hguard.mp h).1)]
        rfl

/-- Between two descriptors. -/
structure AtStart (p : DescParser) : Prop where
  stage : p.stage = .start
  nStage : p.nStage = false

theorem AtStart.sound {p : DescParser} (hp : p.AtStart) : p.Sound :=
  sound_of_start hp.stage hp.nStage

theorem fresh_atStart (modeMidi isGoodInterface : Bool) (confValue : Byte)
    (varBuffer : List.Vector Byte 16) (mask : Byte) (epInfo : Fin maxEndpoints → EpInfo) :
    (fresh modeMidi isGoodInterface confValue varBuffer mask epInfo).AtStart := ⟨rfl, rfl⟩

theorem takeDescriptor_frame (p : DescParser) :
    p.takeDescriptor.nStage = p.nStage ∧ p.takeDescriptor.isMidiSearch = p.isMidiSearch ∧
      p.takeDescriptor.bTransferTypeMask = p.bTransferTypeMask := by
  rw [takeDescriptor]
  split_ifs <;> exact ⟨rfl, rfl, rfl⟩

/-- What a descriptor leaves alone. -/
structure SameSearch (p p' : DescParser) : Prop where
  isMidiSearch : p'.isMidiSearch = p.isMidiSearch
  bTransferTypeMask : p'.bTransferTypeMask = p.bTransferTypeMask

/-- The parser at the end of a descriptor is ready for the next. -/
theorem afterRead_frame {p : DescParser} (hp : p.AtStart) (dscrLen dscrType : Byte)
    (buf : List.Vector Byte 16) :
    (p.afterRead dscrLen dscrType buf).AtStart ∧ SameSearch p (p.afterRead dscrLen dscrType buf) := by
  obtain ⟨hn, hmode, hmask⟩ := takeDescriptor_frame (p.afterHeader dscrLen dscrType buf)
  exact ⟨⟨rfl, hn.trans hp.nStage⟩, hmode, hmask⟩

/-- A descriptor that fits, at the front of the input. -/
theorem parse_bytes_of_fits {p : DescParser} (hp : p.AtStart) {d : Descriptor} (hd : d.Fits)
    (ys : List Byte) :
    ∃ p' : DescParser, p'.AtStart ∧ SameSearch p p' ∧
      (d.Proper → p'.found = d.apply p.isMidiSearch p.bTransferTypeMask p.found) ∧
      parse parseDescriptor p (d.bytes ++ ys) = parse parseDescriptor p' ys := by
  obtain ⟨header, hheader, hcall⟩ :=
    parseDescriptor_item d.dscrLen d.dscrType hp.stage hp.nStage d.bodyLen_eq ys
  have hparse := parse_cons parseDescriptor_resumable hp.sound d.dscrLen
    (d.dscrType :: d.body ++ ys)
  rw [show d.dscrLen :: (d.dscrType :: d.body ++ ys) = d.dscrLen :: d.dscrType :: (d.body ++ ys)
    from rfl, hcall] at hparse
  rw [show d.bytes ++ ys = d.dscrLen :: d.dscrType :: (d.body ++ ys) from rfl]
  by_cases hread : isRead d.dscrType = true
  · have hroom : 2 + d.body.length ≤ 16 := by
      have := hd hread
      omega
    obtain ⟨buf, hstores, hbuf⟩ := stores_of_le header hroom
    rw [hheader] at hbuf
    rw [if_pos hread, hstores] at hparse
    obtain ⟨hstart, hsame⟩ := afterRead_frame hp d.dscrLen d.dscrType buf
    exact ⟨p.afterRead d.dscrLen d.dscrType buf, hstart, hsame,
      fun hproper => afterRead_found hread (hproper.fields hread) hbuf, hparse⟩
  · rw [if_neg hread] at hparse
    exact ⟨p.afterSkip d.dscrLen d.dscrType header, ⟨rfl, rfl⟩, ⟨rfl, rfl⟩,
      fun _ => afterSkip_found (Bool.eq_false_of_not_eq_true hread) header, hparse⟩

/-- The parser on descriptors of the usual lengths. -/
theorem parse_descriptors {p : DescParser} (hp : p.AtStart) {ds : List Descriptor}
    (hds : ∀ d ∈ ds, d.Proper) :
    ∃ p', parse parseDescriptor p (ds.flatMap Descriptor.bytes) = some p' ∧
      p'.found = ds.foldl (Descriptor.apply p.isMidiSearch p.bTransferTypeMask) p.found := by
  induction ds generalizing p with
  | nil => exact ⟨p, rfl, rfl⟩
  | cons d ds ih =>
    obtain ⟨hd, hds⟩ := List.forall_mem_cons.mp hds
    obtain ⟨p', hp', hsame, hfound, hparse⟩ :=
      parse_bytes_of_fits hp hd.fits (ds.flatMap Descriptor.bytes)
    obtain ⟨p'', hparse', hfound'⟩ := ih hp' hds
    refine ⟨p'', ?_, ?_⟩
    · rw [List.flatMap_cons, hparse, hparse']
    · rw [hfound', hsame.isMidiSearch, hsame.bTransferTypeMask, hfound hd, List.foldl_cons]

/-! ## §3 The only fault -/

/-- The types and bodies in a list of bytes, as the length bytes cut it. The
last body has what is left. -/
def cut : List Byte → List (Byte × List Byte)
  | dscrLen :: dscrType :: xs =>
    (dscrType, xs.take (bodyLen dscrLen dscrType)) :: cut (xs.drop (bodyLen dscrLen dscrType))
  | _ => []
termination_by xs => xs.length
decreasing_by
  rw [List.length_drop, List.length_cons, List.length_cons]
  omega

/-- A body that is read into `varBuffer` behind a header, and has no room
there. -/
def Overruns (d : Byte × List Byte) : Prop := isRead d.1 = true ∧ 14 < d.2.length

instance : DecidablePred Overruns := fun _ => inferInstanceAs (Decidable (_ ∧ _))

theorem stores_body_eq_none (header : List.Vector Byte 16) (body : List Byte) :
    stores header 2 body = none ↔ 14 < body.length := by
  constructor
  · intro h
    by_contra hle
    obtain ⟨buf, hstores, -⟩ := stores_of_le header (show 2 + body.length ≤ 16 by omega)
    rw [h] at hstores
    cases hstores
  · exact fun h => stores_eq_none header (by decide) (by omega)

/-- A single byte is the first of a header. -/
theorem parseDescriptor_one {p : DescParser} (hp : p.AtStart) (x : Byte) :
    ∃ p', parseDescriptor p [x] = some (false, p', []) := by
  have hbegin : p.beginHeader
      = { p with pBuf := 0, valueSize := 2, countDown := 2, stage := .header } := if_pos hp.stage
  obtain ⟨buf, hstores, -⟩ :=
    stores_of_le p.varBuffer (show 0 + [x].length ≤ 16 from Nat.le_add_left 1 15)
  have hval := valParse_short (p := p.beginHeader) [x] (by rw [hbegin]; exact Nat.lt_succ_self 1)
    (by rw [hbegin])
  rw [hbegin] at hval
  simp only [Nat.sub_self, Nat.add_zero, hstores, Option.map_some] at hval
  simp only [parseDescriptor, hbegin, if_true, hval]
  exact ⟨_, rfl⟩

/-- **The only fault there is**: on any list of bytes, the parser writes
outside `varBuffer` if, and only if, more than 14 bytes of some descriptor
that it reads are there behind the header. -/
theorem parse_fault_iff {p : DescParser} (hp : p.AtStart) (xs : List Byte) :
    parse parseDescriptor p xs = none ↔ ∃ d ∈ cut xs, Overruns d := by
  induction xs using cut.induct generalizing p with
  | case1 dscrLen dscrType xs ih =>
    rw [parse_cons parseDescriptor_resumable hp.sound, cut, List.exists_mem_cons_iff, Overruns]
    by_cases hlong : bodyLen dscrLen dscrType ≤ xs.length
    · -- the whole descriptor is there
      have hbody : (xs.take (bodyLen dscrLen dscrType)).length = bodyLen dscrLen dscrType :=
        List.length_take_of_le hlong
      obtain ⟨header, -, hcall⟩ := parseDescriptor_item dscrLen dscrType hp.stage hp.nStage hbody
        (xs.drop (bodyLen dscrLen dscrType))
      rw [List.take_append_drop] at hcall
      rw [hcall]
      by_cases hread : isRead dscrType = true
      · rw [if_pos hread]
        rcases hs : stores header 2 (xs.take (bodyLen dscrLen dscrType)) with _ | buf
        · exact iff_of_true rfl (.inl ⟨hread, (stores_body_eq_none header _).mp hs⟩)
        · have hfits : ¬ 14 < (xs.take (bodyLen dscrLen dscrType)).length := fun h => by
            rw [(stores_body_eq_none header _).mpr h] at hs
            cases hs
          rw [or_iff_right fun h => hfits h.2]
          exact ih (afterRead_frame hp dscrLen dscrType buf).1
      · rw [if_neg hread, or_iff_right fun h => hread h.1]
        exact ih ⟨rfl, rfl⟩
    · -- the input ends in it
      have hall : xs.take (bodyLen dscrLen dscrType) = xs := List.take_of_length_le (by omega)
      have hnone : xs.drop (bodyLen dscrLen dscrType) = [] := List.drop_of_length_le (by omega)
      obtain ⟨header, wait, hcall⟩ := parseDescriptor_short dscrLen dscrType hp.stage hp.nStage
        (Nat.lt_of_not_le hlong)
      have hrest : ¬ ∃ d ∈ cut [], Overruns d := by simp [cut]
      rw [hcall, hall, hnone, or_iff_left hrest]
      by_cases hread : isRead dscrType = true
      · rw [if_pos hread, ← stores_body_eq_none header xs]
        rcases stores header 2 xs with _ | buf
        · exact iff_of_true rfl ⟨hread, rfl⟩
        · exact iff_of_false nofun nofun
      · rw [if_neg hread]
        exact iff_of_false nofun fun h => hread h.1
  | case2 xs hshort =>
    have hcut : cut xs = [] := by
      rw [cut]
      exact hshort
    rw [hcut]
    refine iff_of_false ?_ nofun
    match xs, hshort with
    | [], _ => nofun
    | [x], _ =>
      obtain ⟨p', hcall⟩ := parseDescriptor_one hp x
      rw [parse_cons parseDescriptor_resumable hp.sound, hcall]
      nofun
    | dscrLen :: dscrType :: xs, hshort => exact absurd rfl (hshort dscrLen dscrType xs)

/-- An interface descriptor whose length byte is 1, so that 255 bytes are
wanted, with 15 there. -/
theorem parse_fault_iff_long :
    let xs : List Byte := [1, 4] ++ List.replicate 15 0
    parse parseDescriptor initial xs = none ∧ ∃ d ∈ cut xs, Overruns d := by
  have hfault : parse parseDescriptor initial ([1, 4] ++ List.replicate 15 0) = none := by
    decide +kernel
  exact ⟨hfault, (parse_fault_iff ⟨rfl, rfl⟩ _).mp hfault⟩

end DescParser

/-! ## §4 Which endpoints are found -/

namespace Descriptor

/-- A bulk endpoint. -/
def IsBulkEndpoint (mask : Byte) (d : Descriptor) : Prop :=
  d.dscrType = descriptorEndpoint ∧ d.IsBulk mask

instance (mask : Byte) (d : Descriptor) : Decidable (d.IsBulkEndpoint mask) :=
  inferInstanceAs (Decidable (_ ∧ _))

def bulkEndpoints (mask : Byte) (ds : List Descriptor) : List Descriptor :=
  ds.filter fun d => decide (d.IsBulkEndpoint mask)

/-- The driver's table with an endpoint entered. -/
def enter (table : Fin maxEndpoints → EpInfo) (d : Descriptor) : Fin maxEndpoints → EpInfo :=
  Function.update table d.index (d.epInfo (table d.index))

section Apply

variable (search : Bool) (mask : Byte)

theorem apply_of_bulk {d : Descriptor} (hd : d.IsBulkEndpoint mask) {f : Found}
    (hgood : f.isGoodInterface = true) (hroom : f.nEPs < 2) :
    d.apply search mask f = { f with epInfo := enter f.epInfo d, nEPs := f.nEPs + 1 } := by
  have hconf : ¬ d.dscrType = descriptorConfiguration := by rw [hd.1]; decide
  have hintf : ¬ d.dscrType = descriptorInterface := by rw [hd.1]; decide
  rw [apply, if_neg hconf, if_neg hintf, if_pos hd.1, if_pos ⟨hgood, hroom, hd.2⟩]
  rfl

/-- Within an interface, a descriptor that is no bulk endpoint changes
nothing but the configuration value. -/
theorem apply_of_not_bulk {d : Descriptor} (hintf : d.dscrType ≠ descriptorInterface)
    (hd : ¬ d.IsBulkEndpoint mask) (f : Found) :
    (d.apply search mask f).isGoodInterface = f.isGoodInterface ∧
      (d.apply search mask f).nEPs = f.nEPs ∧ (d.apply search mask f).epInfo = f.epInfo := by
  rw [apply, if_neg hintf]
  split_ifs with _ hep htake
  · exact ⟨rfl, rfl, rfl⟩
  · exact absurd ⟨hep, htake.2.2⟩ hd
  · exact ⟨rfl, rfl, rfl⟩
  · exact ⟨rfl, rfl, rfl⟩

/-- Once two endpoints are found, no descriptor changes them. -/
theorem apply_of_full (d : Descriptor) {f : Found} (hfull : ¬ f.nEPs < 2) :
    (d.apply search mask f).nEPs = f.nEPs ∧ (d.apply search mask f).epInfo = f.epInfo := by
  rw [apply]
  split_ifs with _ _ _ _ htake
  · exact ⟨rfl, rfl⟩
  · exact ⟨rfl, rfl⟩
  · exact ⟨rfl, rfl⟩
  · exact absurd htake.2.1 hfull
  · exact ⟨rfl, rfl⟩
  · exact ⟨rfl, rfl⟩

theorem foldl_apply_of_full (ds : List Descriptor) {f : Found} (hfull : ¬ f.nEPs < 2) :
    (ds.foldl (apply search mask) f).nEPs = f.nEPs ∧
      (ds.foldl (apply search mask) f).epInfo = f.epInfo := by
  induction ds generalizing f with
  | nil => exact ⟨rfl, rfl⟩
  | cons d ds ih =>
    obtain ⟨hn, hep⟩ := apply_of_full search mask d hfull
    obtain ⟨hn', hep'⟩ := ih (f := d.apply search mask f) (by rwa [hn])
    exact ⟨hn'.trans hn, hep'.trans hep⟩

theorem foldl_apply_endpoints {ds : List Descriptor}
    (hintf : ∀ d ∈ ds, d.dscrType ≠ descriptorInterface) {f : Found}
    (hgood : f.isGoodInterface = true)
    (hroom : f.nEPs.toNat + (bulkEndpoints mask ds).length ≤ 2) :
    let g := ds.foldl (apply search mask) f
    g.nEPs.toNat = f.nEPs.toNat + (bulkEndpoints mask ds).length ∧
      g.epInfo = (bulkEndpoints mask ds).foldl enter f.epInfo := by
  induction ds generalizing f with
  | nil => exact ⟨rfl, rfl⟩
  | cons d ds ih =>
    obtain ⟨hd, hds⟩ := List.forall_mem_cons.mp hintf
    by_cases hbulk : d.IsBulkEndpoint mask
    · have hfilter : bulkEndpoints mask (d :: ds) = d :: bulkEndpoints mask ds :=
        List.filter_cons_of_pos (decide_eq_true hbulk)
      rw [hfilter, List.length_cons] at hroom ⊢
      have hlt : f.nEPs < 2 := BitVec.lt_def.mpr (by show f.nEPs.toNat < 2; omega)
      have hone : (f.nEPs + 1).toNat = f.nEPs.toNat + 1 := by
        rw [BitVec.toNat_add, show (1 : Byte).toNat = 1 from rfl]
        omega
      rw [List.foldl_cons, List.foldl_cons, apply_of_bulk search mask hbulk hgood hlt]
      obtain ⟨hn, hep⟩ := ih hds (f := { f with epInfo := enter f.epInfo d, nEPs := f.nEPs + 1 })
        hgood (by show (f.nEPs + 1).toNat + _ ≤ 2; omega)
      refine ⟨hn.trans ?_, hep⟩
      show (f.nEPs + 1).toNat + _ = _
      omega
    · have hfilter : bulkEndpoints mask (d :: ds) = bulkEndpoints mask ds :=
        List.filter_cons_of_neg (by rw [decide_eq_true_eq]; exact hbulk)
      rw [hfilter] at hroom ⊢
      obtain ⟨hg, hn, hep⟩ := apply_of_not_bulk search mask hd hbulk f
      obtain ⟨hn', hep'⟩ := ih hds (f := d.apply search mask f) (hg.trans hgood) (by rwa [hn])
      rw [hn] at hn'
      rw [hep] at hep'
      exact ⟨hn', hep'⟩

/-- The interface looked for starts the count again, unless two endpoints are
there. -/
theorem apply_of_interface {d : Descriptor} (hd : d.dscrType = descriptorInterface)
    (hmidi : search = true → d.IsMidiInterface) {f : Found} (hroom : f.nEPs < 2) :
    d.apply search mask f = { f with isGoodInterface := true, nEPs := 0 } := by
  have hconf : ¬ d.dscrType = descriptorConfiguration := by rw [hd]; decide
  rw [apply, if_neg hconf, if_pos hd, if_neg fun h => h.2 (hmidi h.1), if_pos hroom]

end Apply

end Descriptor

/-- **A MIDI device's endpoints are found.** The interface looked for has one
bulk endpoint each way; whatever else it holds, whatever comes before (as
long as it has not given two endpoints already) and after it, and however
the bytes are cut, the parser counts two endpoints and enters these two. -/
theorem finds_endpoints {p : DescParser} (hp : p.AtStart)
    {pre eps post : List Descriptor} {intf a b : Descriptor} {pieces : List (List Byte)}
    (hbytes : pieces.flatten = (pre ++ intf :: (eps ++ post)).flatMap Descriptor.bytes)
    (hproper : ∀ d ∈ pre ++ intf :: (eps ++ post), d.Proper)
    (hpre : (pre.foldl (Descriptor.apply p.isMidiSearch p.bTransferTypeMask) p.found).nEPs < 2)
    (hintf : intf.dscrType = descriptorInterface)
    (hmidi : p.isMidiSearch = true → intf.IsMidiInterface)
    (heps : ∀ d ∈ eps, d.dscrType ≠ descriptorInterface)
    (hpair : Descriptor.bulkEndpoints p.bTransferTypeMask eps = [a, b]) (hab : a.index ≠ b.index) :
    ∃ p', parsePieces DescParser.parseDescriptor p pieces = some p' ∧ p'.nEPs = 2 ∧
      (∃ old, p'.epInfo a.index = a.epInfo old) ∧ ∃ old, p'.epInfo b.index = b.epInfo old := by
  obtain ⟨p', hparse, hfound⟩ := DescParser.parse_descriptors hp hproper
  refine ⟨p', ?_, ?_⟩
  · rw [parsePieces_eq DescParser.parseDescriptor_resumable hp.sound, hbytes, hparse]
  rw [List.foldl_append, List.foldl_cons, List.foldl_append,
    Descriptor.apply_of_interface _ _ hintf hmidi hpre] at hfound
  generalize pre.foldl (Descriptor.apply p.isMidiSearch p.bTransferTypeMask) p.found = f at hfound
  obtain ⟨hn, hep⟩ := Descriptor.foldl_apply_endpoints p.isMidiSearch p.bTransferTypeMask heps
    (f := { f with isGoodInterface := true, nEPs := 0 }) rfl
    (by rw [hpair]; exact Nat.le_refl 2)
  rw [hpair] at hn hep
  have hfull : (eps.foldl (Descriptor.apply p.isMidiSearch p.bTransferTypeMask)
      { f with isGoodInterface := true, nEPs := 0 }).nEPs = 2 := BitVec.eq_of_toNat_eq hn
  obtain ⟨hn', hep'⟩ := Descriptor.foldl_apply_of_full p.isMidiSearch p.bTransferTypeMask post
    (show ¬ _ < _ by rw [hfull]; decide)
  have htable : p'.epInfo = Descriptor.enter (Descriptor.enter f.epInfo a) b :=
    (congrArg Found.epInfo hfound).trans (hep'.trans hep)
  refine ⟨(congrArg Found.nEPs hfound).trans (hn'.trans hfull), ⟨f.epInfo a.index, ?_⟩,
    ⟨Descriptor.enter f.epInfo a b.index, ?_⟩⟩
  · rw [htable, Descriptor.enter, Function.update_of_ne hab, Descriptor.enter, Function.update_self]
  · rw [htable, Descriptor.enter, Function.update_self]

end MidiSynth.Usb
