/-
MidiSynth.Usb.AddressPool — the table of USB addresses, `AddressPoolImpl` of
`include/address.h`.

Entry 0 stands for a device that has no address yet; the other fifteen are
free while their address is 0. A device on the root port always gets address
1, so two entries can hold the same address, and then a lookup finds the
first of them.

No hub driver is registered here: `AllocAddress` is never called for a hub
and no entry has the hub flag (`RootOnly.applyOp`), so what the pool does for
hubs is left out.
`epinfo` points to one of two tables.

  §1 The pool as the code has it.
  §2 As a pool of slots: an allocation is a first-fit claim, and freeing an
     address is a release of the first match.
  §3 On the root port every address given out is 1, the entry of a lookup is
     the first one, and over any run the table refines the pool of slots
     (`run_slots`).
-/
import MidiSynth.Machine.Run
import MidiSynth.Machine.Slots
import MidiSynth.Usb.Transfer

namespace MidiSynth.Usb

open MidiSynth.Machine
open MidiSynth.Software (Byte)

/-! ## §1 The pool -/

/-- Where `epinfo` points: to the pool's own record, or to the table of the
MIDI driver. -/
inductive EpTable where
  | dev0ep
  | midi
  deriving DecidableEq, Repr

/-- `struct UsbDevice`. -/
structure UsbDevice where
  epinfo : EpTable
  devAddress : Byte
  epcount : Byte
  lowspeed : Bool
  deriving DecidableEq, Repr

/-- `USB_NUMDEVICES`, the entry of address 0 left out. -/
abbrev numAddresses : ℕ := 15

/-- The entry of address 0, and the first of the others. -/
abbrev rootIndex : Fin (numAddresses + 1) := 0

abbrev firstIndex : Fin (numAddresses + 1) := 1

abbrev AddressPool : Type := Fin (numAddresses + 1) → UsbDevice

namespace AddressPool

/-- `InitEntry`. -/
def initEntry : UsbDevice := ⟨.dev0ep, 0, 1, false⟩

/-- The constructor. -/
def fresh : AddressPool := fun _ => initEntry

/-- `FindAddressIndex`: the first entry from 1 on, or 0 if there is none. -/
def findAddressIndex (pool : AddressPool) (address : Byte) : Fin (numAddresses + 1) :=
  match first (fun i : Fin numAddresses => (pool i.succ).devAddress == address) with
  | some i => i.succ
  | none => 0

/-- `GetUsbDevicePtr`. -/
def getUsbDevicePtr (pool : AddressPool) (addr : Byte) : Option (Fin (numAddresses + 1)) :=
  if addr = 0 then some 0
  else
    let index := pool.findAddressIndex addr
    if index = 0 then none else some index

/-- `AllocAddress` for a device that is no hub. -/
def allocAddress (pool : AddressPool) (parent port : Byte) : Byte × AddressPool :=
  if parent &&& 0x80 ≠ 0 ∨ 7 < port then (0, pool)
  else
    let index := pool.findAddressIndex 0
    if index = 0 then (0, pool)
    else
      let addr : Byte := if parent = 0 then 1 else (parent &&& 7) <<< 3 ||| (port &&& 7)
      (addr, Function.update pool index { pool index with devAddress := addr })

/-- `FreeAddress`, in a pool without hubs. The address of the root hub empties
the whole pool. -/
def freeAddress (pool : AddressPool) (addr : Byte) : AddressPool :=
  if addr = 0x41 then fun i => if i = 0 then pool 0 else initEntry
  else
    let index := pool.findAddressIndex addr
    if index = 0 then pool else Function.update pool index initEntry

/-! ## §2 As a pool of slots -/

/-- The addresses given out. -/
def slots (pool : AddressPool) : Pool numAddresses Byte := fun i =>
  if (pool i.succ).devAddress = 0 then none else some (pool i.succ).devAddress

theorem slots_of_free {pool : AddressPool} {i : Fin numAddresses} (h : (pool i.succ).devAddress = 0) :
    pool.slots i = none := if_pos h

theorem slots_of_taken {pool : AddressPool} {i : Fin numAddresses}
    (h : (pool i.succ).devAddress ≠ 0) : pool.slots i = some (pool i.succ).devAddress := if_neg h

/-- How many entries are taken. -/
def taken (pool : AddressPool) : ℕ := Pool.count pool.slots (fun _ => true)

theorem findAddressIndex_eq_zero_iff {pool : AddressPool} {address : Byte} :
    pool.findAddressIndex address = 0 ↔ ∀ i : Fin numAddresses, (pool i.succ).devAddress ≠ address := by
  unfold findAddressIndex
  cases h : first (fun i : Fin numAddresses => (pool i.succ).devAddress == address) with
  | none =>
    rw [first_eq_none_iff] at h
    simpa using h
  | some i =>
    rw [first_eq_some_iff] at h
    simp only [Fin.succ_ne_zero, false_iff, not_forall, not_not]
    exact ⟨i, by simpa using h.1⟩

/-- What a scan that found an entry found. -/
theorem findAddressIndex_eq_succ_iff {pool : AddressPool} {address : Byte} {i : Fin numAddresses} :
    pool.findAddressIndex address = i.succ ↔
      (pool i.succ).devAddress = address ∧ ∀ j < i, (pool j.succ).devAddress ≠ address := by
  unfold findAddressIndex
  cases h : first (fun i : Fin numAddresses => (pool i.succ).devAddress == address) with
  | none =>
    rw [first_eq_none_iff] at h
    refine iff_of_false (Fin.succ_ne_zero i).symm fun hi => ?_
    simpa [hi.1] using h i
  | some k =>
    simp only [Fin.succ_inj]
    constructor
    · intro hk
      subst hk
      rw [first_eq_some_iff] at h
      simpa using h
    · intro hi
      have hfirst : first (fun i : Fin numAddresses => (pool i.succ).devAddress == address) = some i := by
        rw [first_eq_some_iff]
        simpa using hi
      exact Option.some.inj (h.symm.trans hfirst)

theorem slots_update (pool : AddressPool) (i : Fin numAddresses) (d : UsbDevice) :
    slots (Function.update pool i.succ d)
      = Function.update pool.slots i (if d.devAddress = 0 then none else some d.devAddress) := by
  funext j
  by_cases hj : j = i
  · subst hj
    simp [slots]
  · have hne : j.succ ≠ i.succ := fun h => hj (Fin.succ_inj.mp h)
    simp [slots, Function.update_of_ne hj, Function.update_of_ne hne]

/-- Rewriting an entry, but not its address. -/
theorem taken_update_same (pool : AddressPool) (i : Fin numAddresses) {d : UsbDevice}
    (hd : d.devAddress = (pool i.succ).devAddress) :
    taken (Function.update pool i.succ d) = pool.taken := by
  have hslots : slots (Function.update pool i.succ d) = pool.slots := by
    rw [slots_update, hd]
    exact Function.update_eq_self i pool.slots
  rw [taken, hslots, taken]

/-- On the root port, an allocation fails when every entry is taken, and else
claims the first free entry for address 1. -/
theorem allocAddress_cases (pool : AddressPool) :
    (pool.allocAddress 0 0 = (0, pool) ∧ ∀ i, pool.slots i ≠ none) ∨
      ∃ i : Fin numAddresses, (pool i.succ).devAddress = 0 ∧
        (∀ j < i, (pool j.succ).devAddress ≠ 0) ∧
        pool.allocAddress 0 0 = (1, Function.update pool i.succ { pool i.succ with devAddress := 1 }) := by
  have hguard : ¬ ((0 : Byte) &&& 0x80 ≠ 0 ∨ (7 : Byte) < 0) := by decide
  rw [allocAddress, if_neg hguard]
  rcases Fin.eq_zero_or_eq_succ (pool.findAddressIndex 0) with hnone | ⟨i, hi⟩
  · refine Or.inl ⟨if_pos hnone, fun i hi => ?_⟩
    rw [findAddressIndex_eq_zero_iff] at hnone
    rw [slots_of_taken (hnone i)] at hi
    cases hi
  · obtain ⟨hfree, hbefore⟩ := findAddressIndex_eq_succ_iff.mp hi
    refine Or.inr ⟨i, hfree, hbefore, ?_⟩
    simp only [hi, Fin.succ_ne_zero, if_false, if_true]

theorem allocAddress_slots (pool : AddressPool) :
    (pool.allocAddress 0 0).2.slots = pool.slots.claim 1 := by
  rcases pool.allocAddress_cases with ⟨halloc, hfull⟩ | ⟨i, hfree, hbefore, halloc⟩
  · rw [halloc]
    rcases Pool.claim_cases pool.slots 1 with ⟨-, hclaim⟩ | ⟨i, hnone, -, -⟩
    · exact hclaim.symm
    · exact absurd hnone (hfull i)
  · have hscan : first (fun j => (pool.slots j).isNone) = some i := by
      rw [first_eq_some_iff]
      refine ⟨by rw [slots_of_free hfree]; rfl, fun j hj => ?_⟩
      rw [slots_of_taken (hbefore j hj)]
      rfl
    rw [halloc, slots_update, Pool.claim, hscan]
    rfl

/-- The entries a scan for an address stops at. Address 0 is never given
out. -/
theorem slots_any {pool : AddressPool} {addr : Byte} (hne : addr ≠ 0) (i : Fin numAddresses) :
    (pool.slots i).any (· == addr) = ((pool i.succ).devAddress == addr) := by
  by_cases h0 : (pool i.succ).devAddress = 0
  · rw [slots_of_free h0, h0]
    exact (beq_eq_false_iff_ne.mpr hne.symm).symm
  · rw [slots_of_taken h0]
    rfl

theorem slots_any_zero (pool : AddressPool) (i : Fin numAddresses) :
    (pool.slots i).any (· == 0) = false := by
  by_cases h0 : (pool i.succ).devAddress = 0
  · rw [slots_of_free h0]
    rfl
  · rw [slots_of_taken h0]
    exact beq_eq_false_iff_ne.mpr h0

/-- Freeing address 0 empties an entry that is free. -/
theorem freeAddress_zero_slots (pool : AddressPool) : (pool.freeAddress 0).slots = pool.slots := by
  have hhub : ¬ (0 : Byte) = 0x41 := by decide
  rw [freeAddress, if_neg hhub]
  rcases Fin.eq_zero_or_eq_succ (pool.findAddressIndex 0) with hnone | ⟨i, hi⟩
  · simp only [hnone, if_true]
  · have hfree := (findAddressIndex_eq_succ_iff.mp hi).1
    simp only [hi, Fin.succ_ne_zero, if_false]
    rw [slots_update]
    refine Function.update_eq_self_iff.mpr ?_
    rw [slots_of_free hfree]
    rfl

/-- Freeing an address releases the first entry that has it. -/
theorem freeAddress_slots (pool : AddressPool) {addr : Byte} (hhub : addr ≠ 0x41) :
    (pool.freeAddress addr).slots = pool.slots.release (· == addr) := by
  by_cases hne : addr = 0
  · rcases pool.slots.release_cases (· == addr) with ⟨-, hnone⟩ | ⟨i, a, hi, ha, -, -⟩
    · rw [hnone, hne, freeAddress_zero_slots]
    · have hany := slots_any_zero pool i
      rw [hi, ← hne] at hany
      exact absurd (hany.symm.trans ha) nofun
  · rw [freeAddress, if_neg hhub, Pool.release, first_congr (slots_any hne)]
    unfold findAddressIndex
    cases h : first (fun i : Fin numAddresses => (pool i.succ).devAddress == addr) with
    | none => rfl
    | some i =>
      simp only [Fin.succ_ne_zero, if_false]
      rw [slots_update]
      rfl

/-- What the host does to the pool at the root port. -/
inductive PoolOp where
  | alloc
  | free (addr : Byte)
  deriving DecidableEq, Repr

def applyOp (pool : AddressPool) : PoolOp → AddressPool
  | .alloc => (pool.allocAddress 0 0).2
  | .free addr => pool.freeAddress addr

/-- The same on slots: a first-fit claim, or a release of the first match;
the address of the root hub releases everything. -/
def applySlots (slots : Pool numAddresses Byte) : PoolOp → Pool numAddresses Byte
  | .alloc => slots.claim 1
  | .free addr => if addr = 0x41 then fun _ => none else slots.release (· == addr)

theorem applyOp_slots (pool : AddressPool) (op : PoolOp) :
    (pool.applyOp op).slots = applySlots pool.slots op := by
  cases op with
  | alloc => exact allocAddress_slots pool
  | free addr =>
    rw [applySlots]
    split
    · rename_i hroot
      funext i
      rw [applyOp, freeAddress, if_pos hroot, slots, if_neg (Fin.succ_ne_zero i)]
      rfl
    · rename_i hhub
      exact freeAddress_slots pool hhub

/-- An allocation that succeeds takes one more entry, and one that fails finds
all fifteen taken. -/
theorem allocAddress_taken (pool : AddressPool) :
    ((pool.allocAddress 0 0).1 = 1 ∧ (pool.allocAddress 0 0).2.taken = pool.taken + 1) ∨
      ((pool.allocAddress 0 0) = (0, pool) ∧ pool.taken = numAddresses) := by
  rcases pool.allocAddress_cases with ⟨halloc, hfull⟩ | ⟨i, hfree, -, halloc⟩
  · refine Or.inr ⟨halloc, ?_⟩
    have hsome : ∀ i, (pool.slots i).any (fun _ => true) = true := by
      intro i
      obtain ⟨a, ha⟩ := Option.ne_none_iff_exists'.mp (hfull i)
      simp [ha]
    simp [taken, Pool.count, hsome]
  · refine Or.inl ⟨by rw [halloc], ?_⟩
    have hcount := Pool.count_update pool.slots (fun _ => true) i (some 1)
    rw [slots_of_free hfree] at hcount
    rw [halloc, taken, slots_update, taken]
    simpa using hcount

/-- Freeing an address that is in use frees its first entry. -/
theorem freeAddress_of_first {pool : AddressPool} {addr : Byte} {i : Fin numAddresses}
    (hhub : addr ≠ 0x41) (hi : (pool i.succ).devAddress = addr)
    (hbefore : ∀ j < i, (pool j.succ).devAddress ≠ addr) :
    pool.freeAddress addr = Function.update pool i.succ initEntry := by
  have hindex : pool.findAddressIndex addr = i.succ := findAddressIndex_eq_succ_iff.mpr ⟨hi, hbefore⟩
  rw [freeAddress, if_neg hhub]
  simp only [hindex, Fin.succ_ne_zero, if_false]

theorem taken_update_initEntry {pool : AddressPool} {i : Fin numAddresses}
    (hi : (pool i.succ).devAddress ≠ 0) :
    taken (Function.update pool i.succ initEntry) + 1 = pool.taken := by
  have hcount := Pool.count_update pool.slots (fun _ => true) i none
  rw [slots_of_taken hi] at hcount
  have hempty : (if initEntry.devAddress = 0 then none else some initEntry.devAddress) = none := rfl
  rw [taken, slots_update, hempty, taken]
  simpa using hcount

theorem taken_le (pool : AddressPool) : pool.taken ≤ numAddresses := by
  have hone : ∀ i ∈ Finset.univ, (if (pool.slots i).any (fun _ => true) then 1 else 0) ≤ 1 := by
    intro i _
    split <;> omega
  have hsum := Finset.sum_le_card_nsmul Finset.univ _ 1 hone
  simpa [taken, Pool.count] using hsum

/-! ## §3 The root port -/

/-- Without hubs: entry 0 is as the constructor left it, but for its speed,
and only address 1 is given out. -/
structure RootOnly (pool : AddressPool) : Prop where
  root : (pool 0).epinfo = .dev0ep ∧ (pool 0).devAddress = 0 ∧ (pool 0).epcount = 1
  addresses : ∀ i : Fin numAddresses, (pool i.succ).devAddress = 0 ∨ (pool i.succ).devAddress = 1

theorem fresh_rootOnly : fresh.RootOnly := ⟨⟨rfl, rfl, rfl⟩, fun _ => Or.inl rfl⟩

theorem fresh_taken : fresh.taken = 0 := by
  simp [taken, Pool.count, slots, fresh, initEntry]

/-- Rewriting an entry other than the first one. -/
theorem RootOnly.update {pool : AddressPool} (h : pool.RootOnly) (i : Fin numAddresses)
    {d : UsbDevice} (hd : d.devAddress = 0 ∨ d.devAddress = 1) :
    RootOnly (Function.update pool i.succ d) where
  root := by
    rw [Function.update_of_ne (Fin.succ_ne_zero i).symm]
    exact h.root
  addresses := fun j => by
    by_cases hj : j = i
    · subst hj
      rwa [Function.update_self]
    · rw [Function.update_of_ne fun hs => hj (Fin.succ_inj.mp hs)]
      exact h.addresses j

/-- Rewriting entry 0 but for what it says about the device there. -/
theorem RootOnly.update_root {pool : AddressPool} (h : pool.RootOnly) {d : UsbDevice}
    (hd : d.epinfo = .dev0ep ∧ d.devAddress = 0 ∧ d.epcount = 1) :
    RootOnly (Function.update pool 0 d) ∧ taken (Function.update pool 0 d) = pool.taken := by
  refine ⟨⟨by rwa [Function.update_self], fun i => ?_⟩, ?_⟩
  · rw [Function.update_of_ne (Fin.succ_ne_zero i)]
    exact h.addresses i
  · have hslots : slots (Function.update pool 0 d) = pool.slots := by
      funext i
      rw [slots, Function.update_of_ne (Fin.succ_ne_zero i), slots]
    rw [taken, hslots, taken]

/-- A lookup of address 1 finds entry 1 when it is taken. -/
theorem getUsbDevicePtr_one {pool : AddressPool} (h : (pool 1).devAddress = 1) :
    pool.getUsbDevicePtr 1 = some 1 := by
  have hindex : pool.findAddressIndex 1 = (0 : Fin numAddresses).succ :=
    findAddressIndex_eq_succ_iff.mpr ⟨h, fun j hj => absurd hj (Fin.not_lt_zero j)⟩
  have hne : ¬ (1 : Byte) = 0 := by decide
  rw [getUsbDevicePtr, if_neg hne]
  simp only [hindex, Fin.succ_ne_zero, if_false]
  rfl

/-- An allocation claims entry 1 when it is free. -/
theorem allocAddress_of_first_free {pool : AddressPool} (h : (pool 1).devAddress = 0) :
    pool.allocAddress 0 0 = (1, Function.update pool 1 { pool 1 with devAddress := 1 }) := by
  have hguard : ¬ ((0 : Byte) &&& 0x80 ≠ 0 ∨ (7 : Byte) < 0) := by decide
  have hindex : pool.findAddressIndex 0 = (0 : Fin numAddresses).succ :=
    findAddressIndex_eq_succ_iff.mpr ⟨h, fun j hj => absurd hj (Fin.not_lt_zero j)⟩
  rw [allocAddress, if_neg hguard]
  simp only [hindex, Fin.succ_ne_zero, if_false, if_true]
  rfl

/-- Whichever entry an allocation claims, entry 1 is taken afterwards. -/
theorem RootOnly.alloc {pool : AddressPool} (h : pool.RootOnly) :
    (pool.allocAddress 0 0 = (0, pool) ∧ pool.taken = numAddresses) ∨
      ∃ pool' : AddressPool, pool.allocAddress 0 0 = (1, pool') ∧ pool'.RootOnly ∧
        (pool' 1).devAddress = 1 ∧ pool'.taken = pool.taken + 1 ∧
        ((pool 1).devAddress = 1 → pool' 1 = pool 1) := by
  rcases pool.allocAddress_taken with ⟨-, htaken⟩ | hfull
  · rcases pool.allocAddress_cases with ⟨halloc, hall⟩ | ⟨i, hfree, hbefore, halloc⟩
    · rw [halloc] at htaken
      exact absurd htaken (Nat.ne_of_lt (Nat.lt_succ_self _))
    · refine Or.inr ⟨_, halloc, h.update i (Or.inr rfl), ?_, by rw [← htaken, halloc], ?_⟩
      · show (Function.update pool i.succ _ (0 : Fin numAddresses).succ).devAddress = 1
        by_cases hi : i = 0
        · rw [hi, Function.update_self]
        · have hpos : (0 : Fin numAddresses) < i := Fin.pos_iff_ne_zero.mpr hi
          rw [Function.update_of_ne fun hs => hi (Fin.succ_inj.mp hs).symm]
          exact (h.addresses 0).resolve_left (hbefore 0 hpos)
      · intro hone
        refine Function.update_of_ne (fun hs => ?_) _ _
        rw [← hs, hone] at hfree
        cases hfree
  · exact Or.inl hfull

/-- If an entry is taken, a lookup of address 1 finds one. -/
theorem RootOnly.exists_first {pool : AddressPool} (h : pool.RootOnly) (htaken : pool.taken ≠ 0) :
    ∃ i : Fin numAddresses, pool.findAddressIndex 1 = i.succ := by
  rcases Fin.eq_zero_or_eq_succ (pool.findAddressIndex 1) with hnone | hsome
  · rw [findAddressIndex_eq_zero_iff] at hnone
    refine absurd ?_ htaken
    have hempty : ∀ i, pool.slots i = none := fun i =>
      slots_of_free ((h.addresses i).resolve_right (hnone i))
    simp [taken, Pool.count, hempty]
  · exact hsome

/-- Giving back address 1 frees one entry. -/
theorem RootOnly.free_one {pool : AddressPool} (h : pool.RootOnly) (htaken : pool.taken ≠ 0) :
    (pool.freeAddress 1).RootOnly ∧ (pool.freeAddress 1).taken + 1 = pool.taken := by
  obtain ⟨i, hi⟩ := h.exists_first htaken
  obtain ⟨hone, hbefore⟩ := findAddressIndex_eq_succ_iff.mp hi
  rw [freeAddress_of_first (by decide) hone hbefore]
  refine ⟨h.update i (Or.inl rfl), taken_update_initEntry ?_⟩
  rw [hone]
  decide

/-- Whatever address is given back, no hub appears. -/
theorem RootOnly.free {pool : AddressPool} (h : pool.RootOnly) (addr : Byte) :
    (pool.freeAddress addr).RootOnly := by
  rw [freeAddress]
  split
  · exact ⟨h.root, fun i => Or.inl (by rw [if_neg (Fin.succ_ne_zero i)]; rfl)⟩
  · rcases Fin.eq_zero_or_eq_succ (pool.findAddressIndex addr) with hnone | ⟨i, hi⟩
    · simp only [hnone, if_true]
      exact h
    · simp only [hi, Fin.succ_ne_zero, if_false]
      exact h.update i (Or.inl rfl)

/-- Giving back address 0 frees nothing. -/
theorem RootOnly.free_zero {pool : AddressPool} (h : pool.RootOnly) :
    (pool.freeAddress 0).RootOnly ∧ (pool.freeAddress 0).taken = pool.taken :=
  ⟨h.free 0, by rw [taken, freeAddress_zero_slots, taken]⟩

theorem RootOnly.applyOp {pool : AddressPool} (h : pool.RootOnly) (op : PoolOp) :
    (pool.applyOp op).RootOnly := by
  cases op with
  | alloc =>
    rcases h.alloc with ⟨halloc, -⟩ | ⟨pool', halloc, hpool', -⟩
    · rw [AddressPool.applyOp, halloc]
      exact h
    · rw [AddressPool.applyOp, halloc]
      exact hpool'
  | free addr => exact h.free addr

/-- **The table refines a pool of fifteen slots**: over any sequence of
allocations and frees of any addresses, a table without hubs stays one, and
its addresses are those of the pool of slots. -/
theorem run_slots {pool : AddressPool} (h : pool.RootOnly) (ops : List PoolOp) :
    (run AddressPool.applyOp pool ops).RootOnly ∧
      (run AddressPool.applyOp pool ops).slots = run applySlots pool.slots ops :=
  ⟨run_induct (P := RootOnly) (fun _ op hpool => hpool.applyOp op) h ops,
    run_map applyOp_slots pool ops⟩

/-- Three devices, and the address given back twice: the two entries before
the last are free again. -/
theorem run_slots_three :
    let pool := run AddressPool.applyOp fresh [.alloc, .alloc, .alloc, .free 1, .free 1]
    pool.RootOnly ∧
      pool.slots = run applySlots fresh.slots [.alloc, .alloc, .alloc, .free 1, .free 1] ∧
      pool.slots 0 = none ∧ pool.slots 1 = none ∧ pool.slots 2 = some 1 := by
  obtain ⟨hpool, hslots⟩ := run_slots fresh_rootOnly [.alloc, .alloc, .alloc, .free 1, .free 1]
  exact ⟨hpool, hslots, by decide, by decide, by decide⟩

end AddressPool

end MidiSynth.Usb
