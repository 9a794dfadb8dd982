/-
MidiSynth.Usb.DescTheorems — the descriptor parser against the bytes it is
fed.

  §1 `ParseDescriptor` meets the contract of a resumable parser, so the cuts
     of the descriptor into packets do not matter (`parse_pieces`).
  §2 Whatever the bytes are, at most two endpoints are counted and no packet
     size above 64 is entered (`parse_bounded`).
  §3 One descriptor: the helpers in closed form, and what a whole call does
     with a descriptor that is all there (`parseDescriptor_item`) or is not
     (`parseDescriptor_short`).
-/
import MidiSynth.Usb.DescParser

namespace MidiSynth.Usb

open MidiSynth.Machine
open MidiSynth.Software (Byte)

namespace DescParser

/-! ## §1 Cuts -/

theorem valParse_continues : Continues valParse := by
  intro p xs ys
  induction xs generalizing p with
  | nil =>
    rw [List.nil_append, valParse]
    by_cases h : p.countDown = 0
    · rw [if_pos h]
      cases ys <;> simp [valParse, h]
    · rw [if_neg h]
      rfl
  | cons x xs ih =>
    rw [List.cons_append, valParse, valParse]
    by_cases h : p.countDown = 0
    · rw [if_pos h, if_pos h]
      rfl
    · rw [if_neg h, if_neg h]
      rcases hs : store p.varBuffer (p.pBuf + (p.valueSize.toNat - p.countDown.toNat)) x with _ | buf
      · rfl
      · exact ih _

theorem skipLoop_continues : Continues skipLoop := by
  intro p xs ys
  induction xs generalizing p with
  | nil =>
    rw [List.nil_append, skipLoop]
    by_cases h : p.skipLeft = 0
    · rw [if_pos h]
      cases ys <;> simp [skipLoop, h]
    · rw [if_neg h]
      rfl
  | cons x xs ih =>
    rw [List.cons_append, skipLoop, skipLoop]
    by_cases h : p.skipLeft = 0
    · rw [if_pos h, if_pos h]
      rfl
    · rw [if_neg h, if_neg h]
      exact ih _

/-- What a helper leaves alone: the stage, the header and the endpoints. -/
structure SameHeader (p p' : DescParser) : Prop where
  stage : p'.stage = p.stage
  dscrType : p'.dscrType = p.dscrType
  dscrLen : p'.dscrLen = p.dscrLen
  nEPs : p'.nEPs = p.nEPs
  epInfo : p'.epInfo = p.epInfo

@[refl] theorem SameHeader.refl (p : DescParser) : SameHeader p p := ⟨rfl, rfl, rfl, rfl, rfl⟩

theorem valParse_frame {p p' : DescParser} {xs rest : List Byte} {done : Bool}
    (h : p.valParse xs = some (done, p', rest)) : SameHeader p p' := by
  induction xs generalizing p with
  | nil =>
    rw [valParse] at h
    split at h <;> cases h <;> exact ⟨rfl, rfl, rfl, rfl, rfl⟩
  | cons x xs ih =>
    rw [valParse] at h
    split at h
    · cases h
      exact ⟨rfl, rfl, rfl, rfl, rfl⟩
    · obtain ⟨buf, -, h⟩ := Option.bind_eq_some_iff.mp h
      obtain ⟨h1, h2, h3, h4, h5⟩ := ih h
      exact ⟨h1, h2, h3, h4, h5⟩

theorem valParse_result {p p' : DescParser} {xs rest : List Byte} {done : Bool}
    (h : p.valParse xs = some (done, p', rest)) :
    p'.nStage = p.nStage ∧ (done = false → p'.countDown ≠ 0) ∧ rest.length ≤ xs.length := by
  induction xs generalizing p with
  | nil =>
    rw [valParse] at h
    split at h <;> cases h
    · exact ⟨rfl, nofun, Nat.le_refl _⟩
    · rename_i hcount
      exact ⟨rfl, fun _ => hcount, Nat.le_refl _⟩
  | cons x xs ih =>
    rw [valParse] at h
    split at h
    · cases h
      exact ⟨rfl, nofun, Nat.le_refl _⟩
    · obtain ⟨buf, -, h⟩ := Option.bind_eq_some_iff.mp h
      obtain ⟨hstage, hcount, hlen⟩ := ih h
      exact ⟨hstage, hcount, Nat.le_succ_of_le hlen⟩

/-- A helper that wants a byte takes it. -/
theorem valParse_uses {p p' : DescParser} {x : Byte} {xs rest : List Byte} {done : Bool}
    (hcount : p.countDown ≠ 0) (h : p.valParse (x :: xs) = some (done, p', rest)) :
    rest.length ≤ xs.length := by
  rw [valParse, if_neg hcount] at h
  obtain ⟨buf, -, h⟩ := Option.bind_eq_some_iff.mp h
  exact (valParse_result h).2.2

theorem skipLoop_result {p p' : DescParser} {xs rest : List Byte} {done : Bool}
    (h : p.skipLoop xs = some (done, p', rest)) :
    (done = true → p'.nStage = false) ∧ (done = false → p'.skipLeft ≠ 0) ∧
      rest.length ≤ xs.length := by
  induction xs generalizing p with
  | nil =>
    rw [skipLoop] at h
    split at h <;> cases h
    · exact ⟨fun _ => rfl, nofun, Nat.le_refl _⟩
    · rename_i hleft
      exact ⟨nofun, fun _ => hleft, Nat.le_refl _⟩
  | cons x xs ih =>
    rw [skipLoop] at h
    split at h
    · cases h
      exact ⟨fun _ => rfl, nofun, Nat.le_refl _⟩
    · obtain ⟨hstage, hleft, hlen⟩ := ih h
      exact ⟨hstage, hleft, Nat.le_succ_of_le hlen⟩

theorem skipLoop_uses {p p' : DescParser} {x : Byte} {xs rest : List Byte} {done : Bool}
    (hleft : p.skipLeft ≠ 0) (h : p.skipLoop (x :: xs) = some (done, p', rest)) :
    rest.length ≤ xs.length := by
  rw [skipLoop, if_neg hleft] at h
  exact (skipLoop_result h).2.2

theorem skipLoop_frame {p p' : DescParser} {xs rest : List Byte} {done : Bool}
    (h : p.skipLoop xs = some (done, p', rest)) :
    SameHeader p p' ∧ (done = false → p'.nStage = p.nStage) := by
  induction xs generalizing p with
  | nil =>
    rw [skipLoop] at h
    split at h <;> cases h
    · exact ⟨⟨rfl, rfl, rfl, rfl, rfl⟩, nofun⟩
    · exact ⟨SameHeader.refl _, fun _ => rfl⟩
  | cons x xs ih =>
    rw [skipLoop] at h
    split at h
    · cases h
      exact ⟨⟨rfl, rfl, rfl, rfl, rfl⟩, nofun⟩
    · obtain ⟨⟨h1, h2, h3, h4, h5⟩, hstage⟩ := ih h
      exact ⟨⟨h1, h2, h3, h4, h5⟩, hstage⟩

theorem beginSkip_nStage (p : DescParser) (n : BitVec 16) : (p.beginSkip n).nStage = true := by
  rw [beginSkip]
  split
  · assumption
  · rfl

theorem beginSkip_frame (p : DescParser) (n : BitVec 16) : SameHeader p (p.beginSkip n) := by
  rw [beginSkip]
  split <;> exact ⟨rfl, rfl, rfl, rfl, rfl⟩

theorem SameHeader.trans {p₁ p₂ p₃ : DescParser} (h : SameHeader p₁ p₂) (h' : SameHeader p₂ p₃) :
    SameHeader p₁ p₃ :=
  ⟨h'.1.trans h.1, h'.2.trans h.2, h'.3.trans h.3, h'.4.trans h.4, h'.5.trans h.5⟩

theorem skip_frame {p p' : DescParser} {n : BitVec 16} {xs rest : List Byte} {done : Bool}
    (h : p.skip n xs = some (done, p', rest)) : SameHeader p p' :=
  (beginSkip_frame p n).trans (skipLoop_frame h).1

/-- A skip that was cut short goes on. -/
theorem skip_append (p : DescParser) (n : BitVec 16) (xs ys : List Byte) :
    p.skip n (xs ++ ys) = (p.skip n xs).bind fun r =>
      if r.1 then some (true, r.2.1, r.2.2 ++ ys) else r.2.1.skip n ys := by
  rw [skip, skip, skipLoop_continues]
  rcases hs : (p.beginSkip n).skipLoop xs with _ | ⟨_ | _, p', rest⟩
  · rfl
  · have hon : p'.nStage = true := ((skipLoop_frame hs).2 rfl).trans (beginSkip_nStage p n)
    simp only [Option.bind_some, skip, beginSkip, hon, if_true]
  · rfl

theorem readBody_continues : Continues readBody := by
  intro p xs ys
  by_cases hread : isRead p.dscrType = true
  · simp only [readBody, if_pos hread]
    rw [valParse_continues p xs ys]
    rcases hv : p.valParse xs with _ | ⟨_ | _, p', rest⟩
    · rfl
    · simp only [Option.bind_some, Option.map_some, Bool.false_eq_true, if_false]
      rw [(valParse_frame hv).dscrType, if_pos hread]
    · rfl
  · simp only [readBody, if_neg hread]
    rw [skip_append]
    rcases hv : p.skip (p.dscrLen.setWidth 16 - 2) xs with _ | ⟨_ | _, p', rest⟩
    · rfl
    · simp only [Option.bind_some, Option.map_some, Bool.false_eq_true, if_false]
      rw [(skip_frame hv).dscrType, (skip_frame hv).dscrLen, if_neg hread]
    · rfl

/-- State 4 leaves the stage where it is until the descriptor ends. -/
theorem readBody_stage {p p' : DescParser} {xs rest : List Byte}
    (h : readBody p xs = some (false, p', rest)) : SameHeader p p' := by
  rw [readBody] at h
  split at h
  · obtain ⟨⟨done, q, r⟩, hv, heq⟩ := Option.map_eq_some_iff.mp h
    cases done <;> cases heq
    exact valParse_frame hv
  · obtain ⟨⟨done, q, r⟩, hv, heq⟩ := Option.map_eq_some_iff.mp h
    cases done <;> cases heq
    exact skip_frame hv

theorem beginHeader_of_ne {p : DescParser} (h : p.stage ≠ .start) : p.beginHeader = p := if_neg h

theorem beginHeader_stage {p : DescParser} (h : p.stage = .start) :
    p.beginHeader.stage = .header := by
  rw [beginHeader, if_pos h]

theorem parseDescriptor_continues : Continues parseDescriptor := by
  intro p xs ys
  by_cases hstage : p.beginHeader.stage = .header
  · simp only [parseDescriptor, if_pos hstage]
    rw [valParse_continues]
    rcases hv : p.beginHeader.valParse xs with _ | ⟨_ | _, p', rest⟩
    · rfl
    · -- the header is not there yet
      have hp' : p'.stage = .header := (valParse_frame hv).stage.trans hstage
      have hbegin : p'.beginHeader = p' := beginHeader_of_ne (by rw [hp']; decide)
      simp only [Option.bind_eq_bind, Option.bind_some, Bool.false_eq_true, if_false]
      rw [hbegin, if_pos hp']
    · simp only [Option.bind_eq_bind, Option.bind_some, if_true]
      rw [readBody_continues]
      rcases hb : readBody p'.beginBody rest with _ | ⟨_ | _, p'', rest'⟩
      · rfl
      · have hp'' : p''.stage = .body := (readBody_stage hb).stage
        have hbegin : p''.beginHeader = p'' := beginHeader_of_ne (by rw [hp'']; decide)
        simp only [Option.bind_some, Bool.false_eq_true, if_false]
        rw [hbegin, if_neg (by rw [hp'']; decide)]
      · rfl
  · have hne : p.stage ≠ .start := fun h => hstage (beginHeader_stage h)
    simp only [parseDescriptor, if_neg hstage]
    rw [beginHeader_of_ne hne] at hstage ⊢
    rw [readBody_continues]
    rcases hb : readBody p xs with _ | ⟨_ | _, p'', rest'⟩
    · rfl
    · have hp'' : p''.stage = p.stage := (readBody_stage hb).stage
      have hbegin : p''.beginHeader = p'' := beginHeader_of_ne (hp'' ▸ hne)
      simp only [Option.bind_some, Bool.false_eq_true, if_false]
      rw [hbegin, hp'', if_neg hstage]
    · rfl

/-- What holds between two calls: a helper that is under way wants at least
one byte, and the skipper rests unless it is under way. -/
def Sound (p : DescParser) : Prop :=
  match p.stage with
  | .start => p.nStage = false
  | .header => p.nStage = false ∧ p.countDown ≠ 0
  | .body =>
    if isRead p.dscrType then p.nStage = false ∧ p.countDown ≠ 0
    else p.nStage = true ∧ p.skipLeft ≠ 0

theorem sound_of_start {p : DescParser} (hs : p.stage = .start) (hn : p.nStage = false) :
    p.Sound := by
  rw [Sound, hs]
  exact hn

/-- State 4, entered with the skipper at rest or under way. -/
theorem readBody_sound {p p' : DescParser} {xs rest : List Byte} {done : Bool}
    (hstage : p.stage = .body) (hn : isRead p.dscrType = true → p.nStage = false)
    (h : readBody p xs = some (done, p', rest)) : p'.Sound ∧ rest.length ≤ xs.length := by
  rw [readBody] at h
  split at h
  · rename_i hread
    obtain ⟨⟨d, q, r⟩, hv, heq⟩ := Option.map_eq_some_iff.mp h
    obtain ⟨hsame, hcount, hlen⟩ := valParse_result hv
    have hframe := valParse_frame hv
    have hnq : q.nStage = false := hsame.trans (hn hread)
    cases d <;> cases heq
    · refine ⟨?_, hlen⟩
      rw [Sound, hframe.stage, hstage, hframe.dscrType]
      exact (if_pos hread).mpr ⟨hnq, hcount rfl⟩
    · refine ⟨sound_of_start rfl ?_, hlen⟩
      rw [endDescriptor, takeDescriptor]
      split_ifs <;> exact hnq
  · rename_i hread
    obtain ⟨⟨d, q, r⟩, hv, heq⟩ := Option.map_eq_some_iff.mp h
    obtain ⟨hdone, hleft, hlen⟩ := skipLoop_result hv
    have hframe := skip_frame hv
    cases d <;> cases heq
    · refine ⟨?_, hlen⟩
      have hon : p'.nStage = true :=
        ((skipLoop_frame hv).2 rfl).trans (beginSkip_nStage p _)
      rw [Sound, hframe.stage, hstage, hframe.dscrType]
      exact (if_neg hread).mpr ⟨hon, hleft rfl⟩
    · exact ⟨sound_of_start rfl (hdone rfl), hlen⟩

/-- A body that is under way takes at least one byte. -/
theorem readBody_uses {p p' : DescParser} {x : Byte} {xs rest : List Byte} {done : Bool}
    (hp : p.Sound) (hstage : p.stage = .body) (h : readBody p (x :: xs) = some (done, p', rest)) :
    rest.length ≤ xs.length := by
  rw [Sound, hstage] at hp
  rw [readBody] at h
  split at h
  · rename_i hread
    obtain ⟨⟨d, q, r⟩, hv, heq⟩ := Option.map_eq_some_iff.mp h
    have hlen := valParse_uses ((if_pos hread).mp hp).2 hv
    cases d <;> cases heq <;> exact hlen
  · rename_i hread
    obtain ⟨hon, hleft⟩ := (if_neg hread).mp hp
    obtain ⟨⟨d, q, r⟩, hv, heq⟩ := Option.map_eq_some_iff.mp h
    have hbegin : p.beginSkip (p.dscrLen.setWidth 16 - 2) = p := if_pos hon
    rw [skip, hbegin] at hv
    have hlen := skipLoop_uses hleft hv
    cases d <;> cases heq <;> exact hlen

theorem beginHeader_sound {p : DescParser} (hp : p.Sound) (hstage : p.stage ≠ .body) :
    p.beginHeader.stage = .header ∧ p.beginHeader.nStage = false ∧
      p.beginHeader.countDown ≠ 0 := by
  rw [Sound] at hp
  cases hs : p.stage with
  | start =>
    rw [hs] at hp
    rw [beginHeader, if_pos hs]
    exact ⟨rfl, hp, show (2 : Byte) ≠ 0 by decide⟩
  | header =>
    rw [hs] at hp
    rw [beginHeader_of_ne (by rw [hs]; decide)]
    exact ⟨hs, hp⟩
  | body => exact absurd hs hstage

theorem parseDescriptor_sound {p p' : DescParser} {x : Byte} {xs rest : List Byte} {done : Bool}
    (hp : p.Sound) (h : parseDescriptor p (x :: xs) = some (done, p', rest)) :
    p'.Sound ∧ rest.length ≤ xs.length := by
  by_cases hstage : p.stage = .body
  · have hbegin : p.beginHeader = p := beginHeader_of_ne (by rw [hstage]; decide)
    have hne : ¬ p.stage = .header := by rw [hstage]; decide
    simp only [parseDescriptor, hbegin, if_neg hne] at h
    refine ⟨(readBody_sound hstage (fun hread => ?_) h).1, readBody_uses hp hstage h⟩
    rw [Sound, hstage] at hp
    exact ((if_pos hread).mp hp).1
  · obtain ⟨hheader, hn, hcount⟩ := beginHeader_sound hp hstage
    simp only [parseDescriptor, if_pos hheader] at h
    obtain ⟨⟨d, q, r⟩, hv, h⟩ := Option.bind_eq_some_iff.mp h
    have hlen := valParse_uses hcount hv
    obtain ⟨hsame, hcount', -⟩ := valParse_result hv
    have hnq : q.nStage = false := hsame.trans hn
    cases d with
    | false =>
      cases h
      refine ⟨?_, hlen⟩
      rw [Sound, (valParse_frame hv).stage, hheader]
      exact ⟨hnq, hcount' rfl⟩
    | true =>
      have hbody : readBody q.beginBody r = some (done, p', rest) := h
      have hstage' : q.beginBody.stage = .body := rfl
      obtain ⟨hsound, hlen'⟩ := readBody_sound hstage' (fun _ => hnq) hbody
      exact ⟨hsound, hlen'.trans hlen⟩

theorem parseDescriptor_resumable : Resumable parseDescriptor Sound where
  continues := parseDescriptor_continues
  keeps := fun hp h => (parseDescriptor_sound hp h).1
  uses := fun hp h => (parseDescriptor_sound hp h).2

/-- **The cuts do not matter**: however the controller splits the descriptor
into packets, `Parse` ends in the same state, or in the same fault. -/
theorem parse_pieces {p : DescParser} (hp : p.Sound) (pieces : List (List Byte)) :
    parsePieces parseDescriptor p pieces = parse parseDescriptor p pieces.flatten :=
  parsePieces_eq parseDescriptor_resumable hp pieces

/-- The parser as `Init` first makes it. -/
def initial : DescParser :=
  fresh true false 0 (List.Vector.replicate 16 0) bmTransferType
    (default : Midi).epInfo

theorem initial_sound : initial.Sound := sound_of_start rfl rfl

/-- An endpoint descriptor cut in two. -/
theorem parse_pieces_two :
    parsePieces parseDescriptor initial [[7, 5, 0x81], [2, 64, 0, 0]]
      = parse parseDescriptor initial [7, 5, 0x81, 2, 64, 0, 0] :=
  parse_pieces initial_sound [[7, 5, 0x81], [2, 64, 0, 0]]

/-! ## §2 Bounds -/

/-- No more than two endpoints are counted, the control endpoint keeps its
number, and the packets of the two data endpoints are at most as large as
`recvBuf`. -/
structure Bounded (p : DescParser) : Prop where
  nEPs_le : p.nEPs ≤ 2
  control : (p.epInfo 0).epAddr = 0
  maxPktSize_le : ∀ i, i ≠ 0 → (p.epInfo i).maxPktSize.toNat ≤ eventPacketSize

theorem SameHeader.bounded {p p' : DescParser} (h : SameHeader p p') (hp : p.Bounded) :
    p'.Bounded where
  nEPs_le := by
    rw [h.nEPs]
    exact hp.nEPs_le
  control := by
    rw [h.epInfo]
    exact hp.control
  maxPktSize_le := by
    rw [h.epInfo]
    exact hp.maxPktSize_le

/-- `EndpointXtract` cuts the packet size to 64. -/
theorem endpointXtract_le {p : DescParser} (hp : p.Bounded) (i : Fin maxEndpoints) (hi : i ≠ 0) :
    (p.endpointXtract.2 i).maxPktSize.toNat ≤ eventPacketSize := by
  unfold endpointXtract
  dsimp only
  split
  · generalize (if p.varBuffer.get 2 &&& 0x80 = 0x80 then epDataInIndex else epDataOutIndex) = j
    generalize p.varBuffer.get 5 ++ p.varBuffer.get 4 = w
    by_cases hij : i = j
    · subst hij
      simp only [Function.update_self]
      split
      · exact Nat.le_refl 64
      · rename_i hle
        have hw : w.toNat ≤ 64 := Nat.not_lt.mp (fun h => hle (BitVec.lt_def.mpr h))
        rw [BitVec.toNat_setWidth]
        exact (Nat.mod_le _ _).trans hw
    · simp only [Function.update_of_ne hij]
      exact hp.maxPktSize_le i hi
  · exact hp.maxPktSize_le i hi

/-- `EndpointXtract` does not touch the control endpoint. -/
theorem endpointXtract_control (p : DescParser) : p.endpointXtract.2 0 = p.epInfo 0 := by
  unfold endpointXtract
  dsimp only
  split
  · refine Function.update_of_ne ?_ _ _
    split <;> decide
  · rfl

theorem nEPs_succ_le {n : Byte} (h : n < 2) : n + 1 ≤ 2 := by
  have hlt : n.toNat < 2 := BitVec.lt_def.mp h
  rw [BitVec.le_def, BitVec.toNat_add]
  show (n.toNat + 1) % 2 ^ 8 ≤ 2
  omega

theorem takeDescriptor_bounded {p : DescParser} (hp : p.Bounded) : p.takeDescriptor.Bounded := by
  have hep := endpointXtract_le hp
  have hcontrol := congrArg EpInfo.epAddr p.endpointXtract_control
  rw [takeDescriptor]
  rcases hx : p.endpointXtract with ⟨found, epInfo⟩
  rw [hx] at hep hcontrol
  dsimp only
  split
  · exact ⟨hp.1, hp.2, hp.3⟩
  · split
    · split
      · exact hp
      · refine ⟨?_, hp.2, hp.3⟩
        show (if p.nEPs < 2 then 0 else p.nEPs) ≤ 2
        split
        · exact (by decide : (0 : Byte) ≤ 2)
        · exact hp.1
    · split
      · rename_i htake
        refine ⟨?_, hcontrol.trans hp.control, hep⟩
        cases found with
        | true => exact nEPs_succ_le htake.2
        | false => exact hp.1
      · exact hp

theorem readBody_bounded {p p' : DescParser} {xs rest : List Byte} {done : Bool} (hp : p.Bounded)
    (h : readBody p xs = some (done, p', rest)) : p'.Bounded := by
  rw [readBody] at h
  split at h
  · obtain ⟨⟨d, q, r⟩, hv, heq⟩ := Option.map_eq_some_iff.mp h
    have hq := (valParse_frame hv).bounded hp
    cases d <;> cases heq
    · exact hq
    · have ht := takeDescriptor_bounded hq
      exact ⟨ht.1, ht.2, ht.3⟩
  · obtain ⟨⟨d, q, r⟩, hv, heq⟩ := Option.map_eq_some_iff.mp h
    have hq := (skip_frame hv).bounded hp
    cases d <;> cases heq
    · exact hq
    · exact ⟨hq.1, hq.2, hq.3⟩

theorem parseDescriptor_bounded {p p' : DescParser} {xs rest : List Byte} {done : Bool}
    (hp : p.Bounded) (h : parseDescriptor p xs = some (done, p', rest)) : p'.Bounded := by
  have hbegin : p.beginHeader.Bounded := by
    rw [beginHeader]
    split
    · exact ⟨hp.1, hp.2, hp.3⟩
    · exact hp
  unfold parseDescriptor at h
  dsimp only at h
  split at h
  · obtain ⟨⟨d, q, r⟩, hv, h⟩ := Option.bind_eq_some_iff.mp h
    have hq := (valParse_frame hv).bounded hbegin
    cases d with
    | false =>
      cases h
      exact hq
    | true =>
      have hbody : readBody q.beginBody r = some (done, p', rest) := h
      have hq' : q.beginBody.Bounded := ⟨hq.1, hq.2, hq.3⟩
      exact readBody_bounded hq' hbody
  · exact readBody_bounded hbegin h

/-- The contract with the bounds kept beside it. -/
theorem parseDescriptor_resumable_bounded :
    Resumable parseDescriptor (fun p => p.Sound ∧ p.Bounded) where
  continues := parseDescriptor_continues
  keeps := fun hp h => ⟨(parseDescriptor_sound hp.1 h).1, parseDescriptor_bounded hp.2 h⟩
  uses := fun hp h => (parseDescriptor_sound hp.1 h).2

/-- Whatever the bytes are, the bounds hold at their end. -/
theorem parse_bounded {p p' : DescParser} (hp : p.Sound) (hb : p.Bounded) {bs : List Byte}
    (h : parse parseDescriptor p bs = some p') : p'.Bounded :=
  (parse_keeps parseDescriptor_resumable_bounded ⟨hp, hb⟩ h).2

theorem initial_bounded : initial.Bounded := by
  refine ⟨by decide, rfl, fun i _ => ?_⟩
  show (0 : Byte).toNat ≤ eventPacketSize
  decide

/-- A MIDI interface and an endpoint with packets of 512 bytes. -/
theorem parse_bounded_large :
    ∃ p', parse parseDescriptor initial
        [9, 4, 0, 0, 2, 1, 3, 0, 0, 7, 5, 0x81, 2, 0, 2, 0, 0] = some p' ∧ p'.Bounded := by
  have hread : (parse parseDescriptor initial
      [9, 4, 0, 0, 2, 1, 3, 0, 0, 7, 5, 0x81, 2, 0, 2, 0, 0]).isSome = true := by decide +kernel
  obtain ⟨p', hp'⟩ := Option.isSome_iff_exists.mp hread
  exact ⟨p', hp', parse_bounded initial_sound initial_bounded hp'⟩

/-! ## §3 One descriptor -/

theorem toNat_sub_succ {w : ℕ} {n : BitVec w} {i : ℕ} (hi : i + 1 ≤ n.toNat) :
    n - 1 - BitVec.ofNat w i = n - BitVec.ofNat w (i + 1) ∧ (n - 1).toNat = n.toNat - 1 := by
  have hone : (1 : BitVec w).toNat = 1 := by
    have hlt : 1 < 2 ^ w := (Nat.le_trans (Nat.le_add_left 1 i) hi).trans_lt n.isLt
    rw [BitVec.ofNat_eq_ofNat, BitVec.toNat_ofNat]
    exact Nat.mod_eq_of_lt hlt
  have hone_le : (1 : BitVec w) ≤ n := BitVec.le_def.mpr (by omega)
  refine ⟨?_, by rw [BitVec.toNat_sub_of_le hone_le, hone]⟩
  rw [BitVec.sub_sub, BitVec.ofNat_add, BitVec.add_comm]
  rfl

theorem sub_ofNat_ne_zero {w : ℕ} {n : BitVec w} {i : ℕ} (hi : i < n.toNat) :
    ¬ n - BitVec.ofNat w i = 0 := by
  intro h
  have hlen : (BitVec.ofNat w i).toNat = i := by
    rw [BitVec.toNat_ofNat]
    exact Nat.mod_eq_of_lt (hi.trans n.isLt)
  have hsub := congrArg BitVec.toNat h
  rw [BitVec.toNat_sub_of_le (BitVec.le_def.mpr (by omega)), hlen] at hsub
  exact absurd hsub (Nat.sub_ne_zero_of_lt hi)

/-- The bytes a helper wants are stored one after the other. -/
theorem valParse_append {p : DescParser} (bs ys : List Byte)
    (hcount : bs.length ≤ p.countDown.toNat) (hle : p.countDown.toNat ≤ p.valueSize.toNat) :
    p.valParse (bs ++ ys)
      = (stores p.varBuffer (p.pBuf + (p.valueSize.toNat - p.countDown.toNat)) bs).bind fun buf =>
        valParse { p with
          varBuffer := buf
          countDown := p.countDown - BitVec.ofNat 8 bs.length } ys := by
  induction bs generalizing p with
  | nil =>
    rw [stores, Option.bind_some, List.length_nil, BitVec.sub_zero]
    rfl
  | cons b bs ih =>
    rw [List.length_cons] at hcount
    have hne : p.countDown ≠ 0 := fun h => by
      rw [h] at hcount
      cases hcount
    obtain ⟨hrest, hpred⟩ := toNat_sub_succ hcount
    rw [List.cons_append, valParse, if_neg hne, stores]
    rcases hs : store p.varBuffer (p.pBuf + (p.valueSize.toNat - p.countDown.toNat)) b with _ | buf
    · rfl
    · have hnext : p.pBuf + (p.valueSize.toNat - (p.countDown - 1).toNat)
          = p.pBuf + (p.valueSize.toNat - p.countDown.toNat) + 1 := by
        rw [hpred]
        omega
      have hgo := ih (p := { p with varBuffer := buf, countDown := p.countDown - 1 })
        (by show bs.length ≤ (p.countDown - 1).toNat; rw [hpred]; omega)
        (by show (p.countDown - 1).toNat ≤ p.valueSize.toNat; rw [hpred]; omega)
      simp only [Option.bind_eq_bind, Option.bind_some]
      rw [hgo, hnext, hrest, List.length_cons]

/-- A helper that gets all the bytes it wants is done. -/
theorem valParse_exact {p : DescParser} (bs ys : List Byte)
    (hcount : p.countDown.toNat = bs.length) (hle : p.countDown.toNat ≤ p.valueSize.toNat) :
    p.valParse (bs ++ ys)
      = (stores p.varBuffer (p.pBuf + (p.valueSize.toNat - p.countDown.toNat)) bs).map fun buf =>
        (true, { p with varBuffer := buf, countDown := p.valueSize }, ys) := by
  have hzero : p.countDown - BitVec.ofNat 8 bs.length = 0 := by
    rw [← hcount, BitVec.ofNat_toNat, BitVec.setWidth_eq, BitVec.sub_self]
    rfl
  rw [valParse_append bs ys (Nat.le_of_eq hcount.symm) hle, hzero]
  rcases stores p.varBuffer _ bs with _ | buf
  · rfl
  · cases ys <;> rfl

/-- A helper that gets fewer waits for the rest. -/
theorem valParse_short {p : DescParser} (bs : List Byte) (hcount : bs.length < p.countDown.toNat)
    (hle : p.countDown.toNat ≤ p.valueSize.toNat) :
    p.valParse bs
      = (stores p.varBuffer (p.pBuf + (p.valueSize.toNat - p.countDown.toNat)) bs).map fun buf =>
        (false, { p with
          varBuffer := buf
          countDown := p.countDown - BitVec.ofNat 8 bs.length }, []) := by
  have hgo := valParse_append bs [] hcount.le hle
  rw [List.append_nil] at hgo
  rw [hgo]
  rcases stores p.varBuffer _ bs with _ | buf
  · rfl
  · exact if_neg (sub_ofNat_ne_zero hcount)

theorem skipLoop_append {p : DescParser} (bs ys : List Byte)
    (hleft : bs.length ≤ p.skipLeft.toNat) :
    p.skipLoop (bs ++ ys)
      = skipLoop { p with skipLeft := p.skipLeft - BitVec.ofNat 16 bs.length } ys := by
  induction bs generalizing p with
  | nil =>
    rw [List.length_nil, BitVec.sub_zero]
    rfl
  | cons b bs ih =>
    rw [List.length_cons] at hleft
    have hne : p.skipLeft ≠ 0 := fun h => by
      rw [h] at hleft
      cases hleft
    obtain ⟨hrest, hpred⟩ := toNat_sub_succ hleft
    have hgo := ih (p := { p with skipLeft := p.skipLeft - 1 })
      (by show bs.length ≤ (p.skipLeft - 1).toNat; rw [hpred]; omega)
    rw [List.cons_append, skipLoop, if_neg hne, hgo, hrest, List.length_cons]

theorem skipLoop_exact {p : DescParser} {bs : List Byte} (ys : List Byte)
    (hleft : p.skipLeft.toNat = bs.length) :
    p.skipLoop (bs ++ ys) = some (true, { p with nStage := false, skipLeft := 0 }, ys) := by
  have hzero : p.skipLeft - BitVec.ofNat 16 bs.length = 0 := by
    rw [← hleft, BitVec.ofNat_toNat, BitVec.setWidth_eq, BitVec.sub_self]
    rfl
  rw [skipLoop_append bs ys (Nat.le_of_eq hleft.symm), hzero]
  cases ys <;> rfl

/-- The bytes wanted behind a header: `valueSize` counts them in 8 bits, the
skipper in 16. A length byte of 0 or 1 wraps. -/
def bodyLen (dscrLen dscrType : Byte) : ℕ :=
  if isRead dscrType then (dscrLen - 2).toNat else (dscrLen.setWidth 16 - 2 : BitVec 16).toNat

/-- The parser between the header of a descriptor and its body. -/
def afterHeader (p : DescParser) (dscrLen dscrType : Byte) (header : List.Vector Byte 16) :
    DescParser :=
  { p with
    varBuffer := header
    dscrLen := dscrLen
    dscrType := dscrType
    isGoodInterface := if dscrType = descriptorInterface then false else p.isGoodInterface
    pBuf := 2
    valueSize := dscrLen - 2
    countDown := dscrLen - 2
    stage := .body }

/-- The parser at the end of a descriptor that it reads. -/
def afterRead (p : DescParser) (dscrLen dscrType : Byte) (buf : List.Vector Byte 16) :
    DescParser :=
  (p.afterHeader dscrLen dscrType buf).takeDescriptor.endDescriptor

/-- The parser at the end of a descriptor that it skips. -/
def afterSkip (p : DescParser) (dscrLen dscrType : Byte) (buf : List.Vector Byte 16) :
    DescParser :=
  { (p.afterHeader dscrLen dscrType buf).endDescriptor with nStage := false, skipLeft := 0 }

section Item

variable {p : DescParser} (dscrLen dscrType : Byte)

/-- The header of a descriptor is copied to the start of `varBuffer`. -/
theorem parseDescriptor_header (hstage : p.stage = .start) (xs : List Byte) :
    ∃ header : List.Vector Byte 16,
      header.toList = dscrLen :: dscrType :: p.varBuffer.toList.drop 2 ∧
      parseDescriptor p (dscrLen :: dscrType :: xs)
        = readBody (p.afterHeader dscrLen dscrType header) xs := by
  have hroom : 0 + [dscrLen, dscrType].length ≤ 16 := by
    simp only [List.length_cons, List.length_nil]
    decide
  obtain ⟨header, hstores, hheader⟩ := stores_of_le p.varBuffer hroom
  refine ⟨header, hheader, ?_⟩
  have hbegin : p.beginHeader
      = { p with pBuf := 0, valueSize := 2, countDown := 2, stage := .header } := if_pos hstage
  have hv := valParse_exact (p := p.beginHeader) [dscrLen, dscrType] xs
    (by rw [hbegin]; rfl) (by rw [hbegin])
  rw [hbegin] at hv
  simp only [Nat.sub_self, Nat.add_zero, hstores, Option.map_some] at hv
  have hget0 : header.get 0 = dscrLen := get_of_getElem? (by rw [hheader]; rfl)
  have hget1 : header.get 1 = dscrType := get_of_getElem? (by rw [hheader]; rfl)
  simp only [parseDescriptor, hbegin, if_true]
  rw [show dscrLen :: dscrType :: xs = [dscrLen, dscrType] ++ xs from rfl, hv]
  simp only [Option.bind_eq_bind, Option.bind_some, if_true]
  rw [beginBody]
  simp only [hget0, hget1]
  rfl

theorem readBody_of_read {q : DescParser} (hread : isRead q.dscrType = true) (xs : List Byte) :
    readBody q xs = (q.valParse xs).map fun (done, p, bs) =>
      if done then (true, p.takeDescriptor.endDescriptor, bs) else (false, p, bs) := if_pos hread

/-- The skip of a descriptor that is not read begins with its header. -/
theorem readBody_of_skip (hn : p.nStage = false) (hread : ¬ isRead dscrType = true)
    (header : List.Vector Byte 16) (xs : List Byte) :
    readBody (p.afterHeader dscrLen dscrType header) xs
      = (skipLoop { p.afterHeader dscrLen dscrType header with
          skipLeft := dscrLen.setWidth 16 - 2, nStage := true } xs).map fun (done, p, bs) =>
        if done then (true, p.endDescriptor, bs) else (false, p, bs) := by
  have hbegin : (p.afterHeader dscrLen dscrType header).beginSkip (dscrLen.setWidth 16 - 2)
      = { p.afterHeader dscrLen dscrType header with
          skipLeft := dscrLen.setWidth 16 - 2, nStage := true } :=
    if_neg (by show ¬ p.nStage = true; rw [hn]; decide)
  rw [readBody, if_neg (show ¬ isRead (p.afterHeader dscrLen dscrType header).dscrType = true
    from hread), skip]
  rw [← hbegin]
  rfl

/-- **One descriptor**, between two others: copied and read, or skipped, or
outside `varBuffer`. -/
theorem parseDescriptor_item (hstage : p.stage = .start) (hn : p.nStage = false)
    {body : List Byte} (hbody : body.length = bodyLen dscrLen dscrType) (ys : List Byte) :
    ∃ header : List.Vector Byte 16,
      header.toList = dscrLen :: dscrType :: p.varBuffer.toList.drop 2 ∧
      parseDescriptor p (dscrLen :: dscrType :: (body ++ ys)) =
        if isRead dscrType then
          (stores header 2 body).map fun buf => (true, p.afterRead dscrLen dscrType buf, ys)
        else some (true, p.afterSkip dscrLen dscrType header, ys) := by
  obtain ⟨header, hheader, hcall⟩ := parseDescriptor_header dscrLen dscrType hstage (body ++ ys)
  refine ⟨header, hheader, ?_⟩
  rw [hcall]
  by_cases hread : isRead dscrType = true
  · rw [bodyLen, if_pos hread] at hbody
    have hval := valParse_exact (p := p.afterHeader dscrLen dscrType header) body ys hbody.symm
      (Nat.le_refl _)
    rw [if_pos hread, readBody_of_read hread, hval, show (p.afterHeader dscrLen dscrType
      header).valueSize = (p.afterHeader dscrLen dscrType header).countDown from rfl, Nat.sub_self]
    show Option.map _ (Option.map _ (stores header 2 body)) = _
    rcases stores header 2 body with _ | buf
    · rfl
    · rfl
  · rw [bodyLen, if_neg hread] at hbody
    rw [if_neg hread, readBody_of_skip dscrLen dscrType hn hread, skipLoop_exact ys hbody.symm]
    rfl

/-- A descriptor that the input ends in. -/
theorem parseDescriptor_short (hstage : p.stage = .start) (hn : p.nStage = false)
    {body : List Byte} (hbody : body.length < bodyLen dscrLen dscrType) :
    ∃ (header : List.Vector Byte 16) (wait : List.Vector Byte 16 → DescParser),
      parseDescriptor p (dscrLen :: dscrType :: body) =
        if isRead dscrType then (stores header 2 body).map fun buf => (false, wait buf, [])
        else some (false, wait header, []) := by
  obtain ⟨header, -, hcall⟩ := parseDescriptor_header dscrLen dscrType hstage body
  rw [hcall]
  by_cases hread : isRead dscrType = true
  · rw [bodyLen, if_pos hread] at hbody
    have hval := valParse_short (p := p.afterHeader dscrLen dscrType header) body hbody
      (Nat.le_refl _)
    refine ⟨header, fun buf => { p.afterHeader dscrLen dscrType header with
      varBuffer := buf
      countDown := dscrLen - 2 - BitVec.ofNat 8 body.length }, ?_⟩
    rw [if_pos hread, readBody_of_read hread, hval, show (p.afterHeader dscrLen dscrType
      header).valueSize = (p.afterHeader dscrLen dscrType header).countDown from rfl, Nat.sub_self]
    show Option.map _ (Option.map _ (stores header 2 body)) = _
    rcases stores header 2 body with _ | buf
    · rfl
    · rfl
  · rw [bodyLen, if_neg hread] at hbody
    refine ⟨header, fun header => { p.afterHeader dscrLen dscrType header with
      nStage := true
      skipLeft := dscrLen.setWidth 16 - 2 - BitVec.ofNat 16 body.length }, ?_⟩
    have hskip := skipLoop_append (p := { p.afterHeader dscrLen dscrType header with
      skipLeft := dscrLen.setWidth 16 - 2, nStage := true }) body [] hbody.le
    have hne : ¬ (dscrLen.setWidth 16 - 2 - BitVec.ofNat 16 body.length : BitVec 16) = 0 :=
      sub_ofNat_ne_zero hbody
    rw [List.append_nil] at hskip
    rw [if_neg hread, readBody_of_skip dscrLen dscrType hn hread, hskip, skipLoop, if_neg hne]
    rfl

end Item

end DescParser

/-- A descriptor: its type and its body. The length byte counts both and
itself. -/
structure Descriptor where
  dscrType : Byte
  body : List Byte
  body_le : body.length ≤ 253

namespace Descriptor

def dscrLen (d : Descriptor) : Byte := BitVec.ofNat 8 (d.body.length + 2)

def bytes (d : Descriptor) : List Byte := d.dscrLen :: d.dscrType :: d.body

theorem toNat_dscrLen (d : Descriptor) : d.dscrLen.toNat = d.body.length + 2 := by
  have h := d.body_le
  rw [dscrLen, BitVec.toNat_ofNat]
  omega

/-- What `body` reads: `dscrLen - 2` bytes. -/
theorem toNat_dscrLen_sub (d : Descriptor) : (d.dscrLen - 2).toNat = d.body.length := by
  have hlen := d.toNat_dscrLen
  rw [BitVec.toNat_sub_of_le (BitVec.le_def.mpr (by rw [hlen]; exact Nat.le_add_left 2 _)), hlen]
  rfl

/-- What `Skip` skips: as many, counted in 16 bits. -/
theorem toNat_dscrLen_skip (d : Descriptor) :
    (d.dscrLen.setWidth 16 - 2 : BitVec 16).toNat = d.body.length := by
  have hlen := d.toNat_dscrLen
  have hle := d.body_le
  have hw : (d.dscrLen.setWidth 16 : BitVec 16).toNat = d.body.length + 2 := by
    rw [BitVec.toNat_setWidth, hlen]
    omega
  rw [BitVec.toNat_sub_of_le (BitVec.le_def.mpr (by rw [hw]; exact Nat.le_add_left 2 _)), hw]
  rfl

theorem bodyLen_eq (d : Descriptor) :
    d.body.length = DescParser.bodyLen d.dscrLen d.dscrType := by
  rw [DescParser.bodyLen]
  split
  · exact d.toNat_dscrLen_sub.symm
  · exact d.toNat_dscrLen_skip.symm

/-- The body has room in `varBuffer` behind the header. -/
def Fits (d : Descriptor) : Prop := DescParser.isRead d.dscrType = true → d.body.length ≤ 14

instance (d : Descriptor) : Decidable d.Fits := inferInstanceAs (Decidable (_ → _))

end Descriptor

end MidiSynth.Usb
