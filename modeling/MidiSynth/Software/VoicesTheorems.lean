/-
MidiSynth.Software.VoicesTheorems — the slot table refines the voice pool.

§1 reads `Represents`. §2 shows request by request that the table after
`onSlots` represents the pool after `onVoices`; a captured release leaves
the table as it was. §3 says where the voices of a pool come from. §4 is
the refinement of whole steps and of whole runs, `step_represents` and
`run_represents`: from here on an invariant of the slots is an invariant of
a pool of voices.
-/
import MidiSynth.Software.SlotTableTheorems
import MidiSynth.Software.Voices

namespace MidiSynth.Software

open MidiSynth.Machine

/-! ## §1 Reading a represented table -/

section Represents

variable {sl : Fin numNotes → Slot} {pool : VoicePool}

theorem Represents.used_iff (h : Represents sl pool) (i : Fin numNotes) :
    (sl i).used = true ↔ ∃ v, pool i = some v := by
  have hi := h i
  cases hp : pool i with
  | none => rw [hp] at hi; simp [hi.1]
  | some v => rw [hp] at hi; simp [hi.1]

theorem Represents.free_iff (h : Represents sl pool) (i : Fin numNotes) :
    (sl i).used = false ↔ pool i = none := by
  have hi := h i
  cases hp : pool i with
  | none => rw [hp] at hi; simp [hi.1]
  | some v => rw [hp] at hi; simp [hi.1]

theorem Represents.noteVol_of_free (h : Represents sl pool) {i : Fin numNotes}
    (hi : (sl i).used = false) : (sl i).noteVol = 0 := by
  have hh := h i
  rw [(h.free_iff i).mp hi] at hh
  exact hh.2

theorem Represents.voice (h : Represents sl pool) {i : Fin numNotes} {v : Voice}
    (hi : pool i = some v) :
    (sl i).used = true ∧ noteByte (sl i).noteVol = v.note ∧
      volByte (sl i).noteVol = v.volume := by
  have hh := h i
  rw [hi] at hh
  exact hh

/-- The table of an empty pool is all zero. -/
theorem Represents.noteVol_of_clear (h : Represents sl Pool.clear) (i : Fin numNotes) :
    (sl i).noteVol = 0 :=
  h.noteVol_of_free ((h.free_iff i).mpr rfl)

/-- The voices of a note are the used slots with its byte. -/
theorem Represents.any_iff (h : Represents sl pool) (n : Byte) (i : Fin numNotes) :
    (pool i).any (fun v => v.note == n) = ((sl i).used && noteByte (sl i).noteVol == n) := by
  have hi := h i
  cases hp : pool i with
  | none => rw [hp] at hi; simp [hi.1]
  | some v => rw [hp] at hi; simp [hi.1, hi.2.1]

end Represents

/-! ## §2 Request by request -/

section Requests

variable {sl : Fin numNotes → Slot} {pool : VoicePool}

theorem claim_represents (h : Represents sl pool) (p : MidiPacket) (clock : Word) :
    Represents ((Request.claim p clock).onSlots sl) ((Request.claim p clock).onVoices pool) := by
  have hscan : first (fun i => !(sl i).used) = first (fun i => (pool i).isNone) := by
    refine first_congr (fun i => ?_)
    cases hp : pool i with
    | none => simp [(h.free_iff i).mpr hp]
    | some v => simp [(h.voice hp).1]
  simp only [Request.onSlots, Request.onVoices, Pool.claim, hscan]
  cases first (fun i => (pool i).isNone) with
  | none => exact h
  | some i =>
    have hclaimed : (Slot.claimed p clock).Holds (some (Voice.fresh p)) :=
      ⟨rfl, bytes_packed p.byte1 p.byte2⟩
    exact forall_update h hclaimed i

/-- A release that is not captured frees the first voice of its note. -/
theorem release_represents (h : Represents sl pool) {n : Byte} (hn : ¬ Captures sl n) :
    Represents ((Request.release n).onSlots sl) ((Request.release n).onVoices pool) := by
  have hany := h.any_iff n
  simp only [Request.onSlots, Request.onVoices, Pool.release]
  cases hs : first (fun i => noteByte (sl i).noteVol == n) with
  | none =>
    have hnone : first (fun i => (pool i).any (fun v => v.note == n)) = none := by
      rw [first_eq_none_iff] at hs ⊢
      intro i
      rw [hany i, hs i, Bool.and_false]
    rw [hnone]
    exact h
  | some i =>
    have hu : (sl i).used = true := by
      by_contra hu
      exact hn ⟨i, hs, by simpa using hu⟩
    have hsome : first (fun i => (pool i).any (fun v => v.note == n)) = some i := by
      rw [first_eq_some_iff] at hs ⊢
      refine ⟨by rw [hany i, hu, hs.1]; rfl, fun j hj => ?_⟩
      rw [hany j, hs.2 j hj, Bool.and_false]
    rw [hsome]
    have hcleared : (sl i).cleared.Holds none := ⟨rfl, rfl⟩
    exact forall_update h hcleared i

/-- A captured release clears a slot that is clear already. -/
theorem release_captured (h : Represents sl pool) {n : Byte} (hn : Captures sl n) :
    (Request.release n).onSlots sl = sl := by
  obtain ⟨i, hs, hu⟩ := hn
  simp only [Request.onSlots, hs]
  have hcl : (sl i).cleared = sl i := by
    rw [Slot.cleared, ← h.noteVol_of_free hu, ← hu]
  rw [hcl, Function.update_eq_self]

/-- A free register reads as note 0. -/
theorem eq_zero_of_captures (h : Represents sl pool) {n : Byte} (hn : Captures sl n) :
    n = 0 := by
  obtain ⟨i, hs, hu⟩ := hn
  have hb := (first_eq_some_iff.mp hs).1
  rw [h.noteVol_of_free hu] at hb
  exact (beq_iff_eq.mp hb).symm

theorem silence_represents (sl : Fin numNotes → Slot) :
    Represents (Request.silence.onSlots sl) Pool.clear :=
  fun _ => ⟨rfl, rfl⟩

/-- The packed decrement is a softer voice. -/
theorem tick_holds {x : Slot} {v : Voice} (h : x.Holds (some v)) (sustain stamp : Word) :
    (x.tick sustain stamp).Holds (v.tick sustain) := by
  obtain ⟨hu, hn, hv⟩ := h
  unfold Slot.tick Voice.tick
  rw [hv]
  by_cases hz : v.volume = 0
  · rw [if_neg (fun h => absurd h.2 (by simp [hz])), if_pos hz, dif_pos hz]
    exact ⟨rfl, rfl⟩
  · have hpos : 0 < v.volume := byte_pos_of_ne_zero hz
    rw [dif_neg hz]
    by_cases hs : sustain < v.volume.setWidth 32
    · rw [if_pos ⟨hs, hpos⟩, if_pos hs]
      obtain ⟨hdn, hdv⟩ := bytes_decrement (r := x.noteVol) (hv ▸ hpos)
      refine ⟨hu, hdn.trans hn, BitVec.eq_of_toNat_eq ?_⟩
      rw [hdv, hv]
      exact (toNat_pred hz).symm
    · rw [if_neg (fun h => hs h.1), if_neg hz, if_neg hs]
      exact ⟨hu, hn, hv⟩

theorem decay_represents (h : Represents sl pool) (ticks : Fin numNotes → Bool)
    (sustain : Word) (stamp : Fin numNotes → Word) :
    Represents ((Request.decay ticks sustain stamp).onSlots sl)
      ((Request.decay ticks sustain stamp).onVoices pool) := by
  intro i
  simp only [Request.onSlots, Request.onVoices, Pool.sweep]
  cases hp : pool i with
  | none =>
    have hu := (h.free_iff i).mpr hp
    rw [hu, Bool.false_and, if_neg Bool.false_ne_true]
    exact ⟨hu, h.noteVol_of_free hu⟩
  | some v =>
    have hv := h.voice hp
    cases ht : ticks i with
    | false => rw [Bool.and_false]; exact hv
    | true => rw [hv.1]; exact tick_holds hv sustain (stamp i)

end Requests

/-! ## §3 Where voices come from -/

theorem tick_some {v w : Voice} {sustain : Word} (h : v.tick sustain = some w) :
    w.note = v.note ∧ w.velocity = v.velocity ∧ w.volume ≤ v.volume := by
  unfold Voice.tick at h
  split at h
  · cases h
  · rename_i hz
    split at h
    · cases h
      refine ⟨rfl, rfl, ?_⟩
      rw [BitVec.le_def]
      exact (toNat_pred hz).trans_le (Nat.sub_le _ _)
    · cases h
      exact ⟨rfl, rfl, BitVec.le_refl _⟩

/-- A voice in the pool after a request is an older one, no louder than it
was, or the fresh one of a claim in a slot that was empty. -/
theorem onVoices_some {pool : VoicePool} {r : Request} {i : Fin numNotes} {w : Voice}
    (h : r.onVoices pool i = some w) :
    (∃ v, pool i = some v ∧ w.note = v.note ∧ w.velocity = v.velocity ∧
        w.volume ≤ v.volume) ∨
      (∃ p clock, r = .claim p clock ∧ pool i = none ∧ w = Voice.fresh p) := by
  have hold : pool i = some w → ∃ v, pool i = some v ∧ w.note = v.note ∧
      w.velocity = v.velocity ∧ w.volume ≤ v.volume :=
    fun hi => ⟨w, hi, rfl, rfl, BitVec.le_refl _⟩
  cases r with
  | keep => exact Or.inl (hold h)
  | claim p clock =>
    rw [Request.onVoices] at h
    rcases Pool.claim_cases pool (Voice.fresh p) with ⟨-, hc⟩ | ⟨k, hk, -, hc⟩
    · rw [hc] at h
      exact Or.inl (hold h)
    · rw [hc] at h
      by_cases hik : i = k
      · subst hik
        rw [Function.update_self] at h
        exact Or.inr ⟨p, clock, rfl, hk, (Option.some.inj h).symm⟩
      · rw [Function.update_of_ne hik] at h
        exact Or.inl (hold h)
  | release n =>
    rw [Request.onVoices] at h
    rcases Pool.release_cases pool (fun v => v.note == n) with ⟨-, hc⟩ | ⟨k, a, -, -, -, hc⟩
    · rw [hc] at h
      exact Or.inl (hold h)
    · rw [hc] at h
      by_cases hik : i = k
      · subst hik; rw [Function.update_self] at h; cases h
      · rw [Function.update_of_ne hik] at h
        exact Or.inl (hold h)
  | silence => cases h
  | decay ticks sustain stamp =>
    simp only [Request.onVoices, Pool.sweep] at h
    obtain ⟨v, hv, hw⟩ := Option.bind_eq_some_iff.mp h
    cases ht : ticks i with
    | false => rw [ht] at hw; cases hw; exact Or.inl (hold hv)
    | true =>
      rw [ht] at hw
      exact Or.inl ⟨v, hv, tick_some hw⟩

/-- Nothing but a claim brings a voice into an empty pool. -/
theorem onVoices_clear {r : Request} (h : ∀ p clock, r ≠ .claim p clock) :
    r.onVoices Pool.clear = Pool.clear := by
  funext i
  cases hi : r.onVoices Pool.clear i with
  | none => rfl
  | some w =>
    rcases onVoices_some hi with ⟨v, hv, -⟩ | ⟨p, clock, hr, -⟩
    · cases hv
    · exact absurd hr (h p clock)

/-! ## §4 Steps and runs -/

/-- The pool a step leaves: what the request asks for, except that a
captured Note Off leaves it alone. -/
theorem step_represents {s : State} {pool : VoicePool} (h : Represents s.slots pool)
    (e : Event) :
    Represents (step s e).slots ((request s e).onVoices pool) ∨
      (request s e = .release 0 ∧ Captures s.slots 0 ∧ (step s e).slots = s.slots) := by
  rw [step_slots]
  cases hr : request s e with
  | keep => exact Or.inl h
  | claim p clock => exact Or.inl (claim_represents h p clock)
  | release n =>
    by_cases hn : Captures s.slots n
    · obtain rfl := eq_zero_of_captures h hn
      exact Or.inr ⟨rfl, hn, release_captured h hn⟩
    · exact Or.inl (release_represents h hn)
  | silence => exact Or.inl (silence_represents s.slots)
  | decay ticks sustain stamp => exact Or.inl (decay_represents h ticks sustain stamp)

theorem boot_represents (u : Uninit) : Represents (boot u).slots Pool.clear := by
  intro i
  rw [boot_eq]
  exact ⟨rfl, rfl⟩

/-- Every reachable table represents some pool. -/
theorem run_represents (u : Uninit) (evs : List Event) :
    ∃ pool, Represents (run step (boot u) evs).slots pool := by
  refine run_induct (P := fun s : State => ∃ pool, Represents s.slots pool) ?_
    ⟨Pool.clear, boot_represents u⟩ evs
  rintro s e ⟨pool, h⟩
  rcases step_represents h e with h' | ⟨-, -, hkeep⟩
  · exact ⟨_, h'⟩
  · exact ⟨pool, hkeep ▸ h⟩

end MidiSynth.Software
