/-
MidiSynth.Hardware.TriangleHistoryTheorems — the triangle wave after a
change of note.

The levels of a cycle are the base of the ramp and `period/2` increments
above it (`cycleLevels_eq`). A note change keeps `local_val` and the counter
but revalues the position, and so moves the base; nothing moves it back to
the reset level. The levels are nevertheless those of the new note alone
when the ramp covers every multiple of its increment, which makes the
increment a power of two, and the base is such a multiple
(`triangle_forgets_iff`).
-/
import Mathlib.Data.Nat.Prime.Basic
import MidiSynth.Hardware.TriangleTheorems
import MidiSynth.Verilog.Progression

namespace MidiSynth.Hardware.TriangleWave

open MidiSynth.Machine MidiSynth.Verilog

/-! ## §1 The levels of a cycle -/

section Levels

variable {p : BitVec 23} {s : State}

/-- The values `local_val` takes over one cycle of the period `p`. -/
def cycleLevels (p : BitVec 23) (s : State) : Set (BitVec 24) :=
  {x | ∃ n < 2 * (p.toNat / 2 + 1), x = (run step s (List.replicate n (held p))).localVal}

theorem nsmul_eq (k : Nat) (x : BitVec 24) : k • x = BitVec.ofNat 24 k * x :=
  nsmul_eq_mul k x

theorem position_le {g : Signals} (hs : s.counter ≤ g.init) :
    (position g s).toNat ≤ g.init.toNat := by
  rw [position]
  split
  · rw [BitVec.toNat_sub_of_le hs]
    exact Nat.sub_le _ _
  · exact hs

/-- From a turning point on, half a cycle takes every position. -/
theorem visits {g : Signals} (hs : s.counter = g.init) {k : Nat} (hk : k ≤ g.init.toNat) :
    ∃ n ≤ g.init.toNat, position g (run clock s (List.replicate n g)) = BitVec.ofNat 24 k := by
  cases hu : s.updown with
  | true => exact ⟨k, hk, position_rise g hs hu hk⟩
  | false =>
    refine ⟨g.init.toNat - k, Nat.sub_le _ _, ?_⟩
    rw [position_fall g hs hu (Nat.sub_le _ _), ofNat_sub_of_le hk]
    ring

/-- The levels of a cycle are the base and `period/2` increments above
it. -/
theorem cycleLevels_eq (hs : s.counter ≤ init p) :
    cycleLevels p s = progression (base (signals p) s) (increment p) (p.toNat / 2) := by
  have hinit : (signals p).init.toNat = p.toNat / 2 := toNat_init p
  have hlevel : ∀ n, (run step s (List.replicate n (held p))).localVal
      = base (signals p) s
        + position (signals p) (run clock s (List.replicate n (signals p))) * increment p := by
    intro n
    rw [run_held, localVal_eq (signals p), base_run]
    rfl
  ext x
  constructor
  · rintro ⟨n, -, rfl⟩
    have hle := position_le (g := signals p) ((countsDown (signals p)).le_of_le hs n)
    refine ⟨_, hinit ▸ hle, ?_⟩
    rw [hlevel, nsmul_eq, BitVec.ofNat_toNat, BitVec.setWidth_eq]
  · rintro ⟨k, hk, rfl⟩
    -- the counter reloads within `init + 1` clocks, and then every position comes
    obtain ⟨n, hn, hpos⟩ := visits ((countsDown (signals p)).run_half s) (hinit.symm ▸ hk)
    have hc : s.counter.toNat ≤ p.toNat / 2 := hinit ▸ hs
    refine ⟨s.counter.toNat + 1 + n, by omega, ?_⟩
    rw [hlevel, run_replicate_add, hpos, nsmul_eq]

/-! ## §2 When the ramp comes round -/

theorem toNat_nsmul (k : Nat) (x : BitVec 24) : (k • x).toNat = k * x.toNat % 2 ^ 24 := by
  rw [nsmul_eq, BitVec.toNat_mul, BitVec.toNat_ofNat, Nat.mod_mul_mod]

theorem nsmul_eq_zero_iff (k : Nat) (x : BitVec 24) : k • x = 0 ↔ 2 ^ 24 ∣ k * x.toNat := by
  rw [← BitVec.toNat_inj, toNat_nsmul, Nat.dvd_iff_mod_eq_zero]
  rfl

/-- A divisor of a power of two is one. -/
theorem exists_pow_of_dvd {n m e : Nat} (h : m * n = 2 ^ e) : ∃ k, n = 2 ^ k := by
  obtain ⟨k, -, hk⟩ := (Nat.dvd_prime_pow Nat.prime_two).mp (Dvd.intro_left m h)
  exact ⟨k, hk⟩

/-- From two steps on, the whole ramp is shorter than twice the range. -/
theorem ramp_lt (hp : 2 ≤ p.toNat / 2) : p.toNat / 2 * (increment p).toNat < 2 ^ 25 := by
  have hlt := p.isLt
  have hhi : 33554431 / (p.toNat / 2) ≤ 33554431 / 2 := Nat.div_le_div_left hp (by decide)
  have hle := Nat.mul_div_le 33554431 (p.toNat / 2)
  rw [toNat_increment, Nat.mod_eq_of_lt (by omega)]
  omega

theorem increment_of_one (hp : p.toNat / 2 = 1) : (increment p).toNat = 2 ^ 24 - 1 := by
  rw [toNat_increment, hp]
  decide

/-- The increment comes back to zero within the ramp only as a power of
two: it divides `2 ^ 24` or `2 ^ 25`. -/
theorem pow_of_comesRound (hp : 1 ≤ p.toNat / 2)
    (h : ComesRound (increment p) (p.toNat / 2)) : ∃ e, (increment p).toNat = 2 ^ e := by
  obtain ⟨m, hpos, hle, hzero⟩ := h
  obtain ⟨j, hj⟩ := (nsmul_eq_zero_iff m _).mp hzero
  rcases Nat.eq_or_lt_of_le hp with h1 | h2
  · rw [increment_of_one h1.symm] at hj
    omega
  · have hinc := (increment p).isLt
    have hipos := increment_pos hp
    have hmul : m * (increment p).toNat ≤ (p.toNat / 2 + 1) * (increment p).toNat :=
      Nat.mul_le_mul_right _ hle
    have hramp := ramp_lt h2
    have hmpos : 0 < m * (increment p).toNat := Nat.mul_pos hpos hipos
    rw [Nat.succ_mul] at hmul
    have hjcases : j = 1 ∨ j = 2 := by omega
    rcases hjcases with rfl | rfl
    · exact exists_pow_of_dvd (hj.trans (Nat.mul_one _))
    · exact exists_pow_of_dvd (e := 25) hj

theorem exponent_lt {x : BitVec 24} {e : Nat} (he : x.toNat = 2 ^ e) : e < 24 := by
  have hlt := x.isLt
  rw [he] at hlt
  exact (Nat.pow_lt_pow_iff_right (by decide)).mp hlt

/-- A power of two does come back, since the whole ramp is longer than the
range. -/
theorem comesRound_of_pow (hp : 1 ≤ p.toNat / 2) {e : Nat} (he : (increment p).toNat = 2 ^ e) :
    ComesRound (increment p) (p.toNat / 2) := by
  have hexp : e < 24 := exponent_lt he
  have hturn : 2 ^ (24 - e) * 2 ^ e = 2 ^ 24 := by
    rw [← Nat.pow_add]
    congr 1
    omega
  refine ⟨2 ^ (24 - e), Nat.two_pow_pos _, ?_, (nsmul_eq_zero_iff _ _).mpr ?_⟩
  · rcases Nat.eq_or_lt_of_le hp with h1 | h2
    · have hone := increment_of_one h1.symm
      have hle : 2 ^ e ≤ 2 ^ 23 := Nat.pow_le_pow_right (by decide) (by omega)
      omega
    · have hover := ramp_overshoots h2
      rw [he, ← hturn] at hover
      have hle := Nat.le_of_mul_le_mul_right hover (Nat.two_pow_pos e)
      omega
  · rw [he, hturn]

/-- Then the multiples above the reset level are the multiples of the
increment. -/
theorem multiple_iff {x d : BitVec 24} {e : Nat} (he : d.toNat = 2 ^ e) :
    (∃ k : Nat, x = resetLevel + k • d) ↔ d.toNat ∣ x.toNat := by
  have hexp : e < 24 := exponent_lt he
  have hreset : resetLevel.toNat = 2 ^ 23 := rfl
  have hmid : 2 ^ e ∣ 2 ^ 23 := Nat.pow_dvd_pow 2 (by omega)
  have hfull : 2 ^ e ∣ 2 ^ 24 := Nat.pow_dvd_pow 2 (by omega)
  rw [he]
  constructor
  · rintro ⟨k, rfl⟩
    rw [BitVec.toNat_add, toNat_nsmul, hreset, he, Nat.add_mod_mod]
    exact (Nat.dvd_mod_iff hfull).mpr (Nat.dvd_add hmid (Nat.dvd_mul_left _ _))
  · intro hx
    obtain ⟨k, hk⟩ := Nat.dvd_add hx hmid
    refine ⟨k, ?_⟩
    apply BitVec.eq_of_toNat_eq
    have hlt := x.isLt
    rw [BitVec.toNat_add, toNat_nsmul, hreset, he, Nat.mul_comm, ← hk]
    omega
end Levels

/-! ## §3 After a change of note -/

section Forgets

/-- The direction flips over the first `n` clocks of the period `p`. -/
def flips (p : BitVec 23) (s : State) (n : Nat) : Nat :=
  (outputs step (fun t i => (step t i).updown != t.updown) s
    (List.replicate n (held p))).count true

/-- From the second flip on, the levels of a cycle are those of the period
`p` alone. -/
def Settles (p : BitVec 23) (s : State) : Prop :=
  ∀ n, 2 ≤ flips p s n →
    cycleLevels p (run step s (List.replicate n (held p))) = cycleLevels p (resetState p)

variable {p : BitVec 23} {s : State}

/-- The direction flips when the counter reloads, and only then. -/
theorem flips_eq (s : State) (n : Nat) :
    flips p s n = reloads step State.counter s (List.replicate n (held p)) := by
  have hflip : ∀ t : State, ((step t (held p)).updown != t.updown) = decide (t.counter = 0) := by
    intro t
    by_cases ht : t.counter = 0
    · rw [step_turn ht]
      simp [ht]
    · rw [step_ramp ht, decide_eq_false ht]
      simp
  rw [flips, reloads]
  congr 1
  induction n generalizing s with
  | zero => rfl
  | succ n ih => rw [List.replicate_succ, outputs_cons, outputs_cons, hflip, ih]

theorem countsDown_held (p : BitVec 23) : CountsDown step State.counter (held p) (init p) where
  down := (countsDown (signals p)).down
  reload := (countsDown (signals p)).reload

/-- Two half cycles flip the direction twice. -/
theorem exists_two_flips (p : BitVec 23) (s : State) : ∃ n, flips p s n = 2 := by
  have hfirst := (countsDown_held p).reloads_half s
  have hsecond := (countsDown_held p).reloads_half
    (run step s (List.replicate (s.counter.toNat + 1) (held p)))
  exact ⟨_, by rw [flips_eq, reloads_replicate_add, hfirst, hsecond]⟩

/-- After a flip the levels are those of `p` alone exactly when the base is
the reset level, or the increment is a power of two that divides it. -/
theorem cycleLevels_eq_iff (hp : 1 ≤ p.toNat / 2) {n : Nat} (hn : 0 < flips p s n) :
    cycleLevels p (run step s (List.replicate n (held p))) = cycleLevels p (resetState p) ↔
      base (signals p) s = resetLevel ∨
        (∃ e, (increment p).toNat = 2 ^ e) ∧
          (increment p).toNat ∣ (base (signals p) s).toNat := by
  rw [flips_eq] at hn
  have hle := (countsDown_held p).le_of_reloads hn
  have hbase : base (signals p) (run step s (List.replicate n (held p))) = base (signals p) s := by
    rw [run_held, base_run]
  rw [cycleLevels_eq hle, cycleLevels_eq (BitVec.le_refl _), hbase, base_resetState,
    progression_eq_iff]
  refine or_congr_right ⟨?_, ?_⟩
  · rintro ⟨hround, hk⟩
    obtain ⟨e, he⟩ := pow_of_comesRound hp hround
    exact ⟨⟨e, he⟩, (multiple_iff he).mp hk⟩
  · rintro ⟨⟨e, he⟩, hdvd⟩
    exact ⟨comesRound_of_pow hp he, (multiple_iff he).mpr hdvd⟩

theorem settles_iff (hp : 1 ≤ p.toNat / 2) (s : State) :
    Settles p s ↔
      base (signals p) s = resetLevel ∨
        (∃ e, (increment p).toNat = 2 ^ e) ∧
          (increment p).toNat ∣ (base (signals p) s).toNat := by
  constructor
  · intro h
    obtain ⟨n, hn⟩ := exists_two_flips p s
    exact (cycleLevels_eq_iff hp (by omega)).mp (h n (by omega))
  · intro h n hn
    exact (cycleLevels_eq_iff hp (by omega)).mpr h

/-- A period whose half is not zero: no divisor in the circuit is. -/
abbrev Playable := {p : BitVec 23 // 1 ≤ p.toNat / 2}

/-- A reset and then one period a clock. -/
def history (q₀ : Playable) (qs : List Playable) : List OscInput :=
  ⟨true, q₀⟩ :: qs.map fun q => held q

/-- **When the triangle wave forgets earlier notes.** Whatever notes were
played since reset, once `p` is held the levels settle to those of `p` alone
exactly when the base found is the reset level, or the increment is a power
of two that divides it. -/
theorem triangle_forgets_iff (s₀ : State) (q₀ : Playable) (qs : List Playable) (p : Playable) :
    let s := run step s₀ (history q₀ qs)
    Settles p s ↔
      base (signals p) s = resetLevel ∨
        (∃ e, (increment p).toNat = 2 ^ e) ∧
          (increment p).toNat ∣ (base (signals p) s).toNat := by
  intro s
  exact settles_iff p.property s

/-- Reset while the registers select note 0, and then A4: the ramp starts
586042 above zero instead of `2 ^ 23`. -/
theorem not_triangle_forgets :
    ¬ ∀ (s₀ : State) (q₀ : Playable) (qs : List Playable) (p : Playable),
      Settles p (run step s₀ (history q₀ qs)) := by
  intro h
  have hA4 := h ⟨0, 0, false⟩ ⟨6115610, by decide⟩ [] ⟨113636, by decide⟩
  rcases (settles_iff (by decide) _).mp hA4 with hbase | ⟨-, hdvd⟩
  · exact absurd hbase (by decide)
  · exact absurd hdvd (by decide)

end Forgets

end MidiSynth.Hardware.TriangleWave
