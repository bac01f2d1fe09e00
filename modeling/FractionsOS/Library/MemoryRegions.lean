import FractionsOS.Library.StackMemory

/-!
# Regions of memory

Objects of a 32-bit machine are regions of its memory; addresses wrap. A store
changes no byte outside the region it writes, and a number is read from the
bytes of its own region alone.
-/

namespace Library.MemoryRegions

open StackMemory

set_option autoImplicit false

def InRegion (base : UInt32) (size : Nat) (address : UInt32) : Prop := (address - base).toNat < size

instance (base : UInt32) (size : Nat) (address : UInt32) : Decidable (InRegion base size address) :=
  inferInstanceAs (Decidable (_ < _))

def byteAddress (base : UInt32) (offset : Nat) : UInt32 := base + UInt32.ofNat offset

def storeBytes (memory : Memory) (base : UInt32) (bytes : List UInt8) : Memory := fun address =>
  if InRegion base bytes.length address then bytes.getD (address - base).toNat 0
  else memory address

def loadNumber (memory : Memory) (address : UInt32) : Nat → Nat
  | 0 => 0
  | size + 1 => (memory address).toNat + 256 * loadNumber memory (address + 1) size

def littleEndian : List UInt8 → Nat
  | [] => 0
  | byte :: bytes => byte.toNat + 256 * littleEndian bytes

theorem byte_address_offset (base : UInt32) {offset : Nat} (small : offset < 2 ^ 32) :
    (byteAddress base offset - base).toNat = offset := by
  rw [byteAddress, add_sub_self]
  exact UInt32.toNat_ofNat_of_lt' small

theorem byte_address_in_region (base : UInt32) {offset size : Nat} (inside : offset < size)
    (small : size ≤ 2 ^ 32) : InRegion base size (byteAddress base offset) := by
  rw [InRegion, byte_address_offset base (Nat.lt_of_lt_of_le inside small)]
  exact inside

theorem byte_address_add (base : UInt32) (first second : Nat) :
    byteAddress (byteAddress base first) second = byteAddress base (first + second) := by
  unfold byteAddress
  rw [UInt32.add_assoc, UInt32.ofNat_add]

theorem single_byte_region (base address : UInt32) : InRegion base 1 address ↔ address = base := by
  constructor
  · intro inside
    have zero : address - base = 0 := UInt32.toNat_inj.mp (Nat.lt_one_iff.mp inside)
    rw [← UInt32.sub_add_cancel address base, zero, UInt32.zero_add]
  · rintro rfl
    rw [InRegion, UInt32.sub_self]
    exact Nat.zero_lt_one

theorem region_split (base address : UInt32) {first second : Nat} (small : first + second ≤ 2 ^ 32)
    (positive : 0 < second) :
    InRegion base (first + second) address ↔
      InRegion base first address ∨ InRegion (byteAddress base first) second address := by
  have moved : address - byteAddress base first = (address - base) - UInt32.ofNat first := by
    unfold byteAddress
    grind
  have value : (UInt32.ofNat first).toNat = first := UInt32.toNat_ofNat_of_lt' (by
    change first < 2 ^ 32
    omega)
  have bound := (address - base).toNat_lt
  unfold InRegion
  rw [moved]
  generalize address - base = distance at bound ⊢
  rw [UInt32.toNat_sub, value]
  omega

theorem regions_apart {left right address : UInt32} {leftSize rightSize : Nat}
    (above : leftSize ≤ (right - left).toNat) (below : rightSize ≤ (left - right).toNat)
    (inside : InRegion left leftSize address) : ¬InRegion right rightSize address := by
  intro both
  unfold InRegion at inside both
  rcases Nat.le_total (address - right).toNat (address - left).toNat with ordered | ordered
  · have distance : right - left = (address - left) - (address - right) := by
      grind
    rw [distance, UInt32.toNat_sub_of_le _ _ (UInt32.le_iff_toNat_le.mpr ordered)] at above
    omega
  · have distance : left - right = (address - right) - (address - left) := by
      grind
    rw [distance, UInt32.toNat_sub_of_le _ _ (UInt32.le_iff_toNat_le.mpr ordered)] at below
    omega

theorem load_number_same {first second : Memory} {address : UInt32} {size : Nat}
    (same : ∀ offset, offset < size →
      first (byteAddress address offset) = second (byteAddress address offset)) :
    loadNumber first address size = loadNumber second address size := by
  induction size generalizing address with
  | zero => rfl
  | succ size induction =>
      have head := same 0 (Nat.zero_lt_succ size)
      have tail : ∀ offset, offset < size →
          first (byteAddress (address + 1) offset) = second (byteAddress (address + 1) offset) := by
        intro offset inside
        have next := same (1 + offset) (by omega)
        rw [← byte_address_add] at next
        exact next
      have zero : byteAddress address 0 = address := UInt32.add_zero address
      rw [zero] at head
      rw [loadNumber, loadNumber, head, induction tail]

theorem load_number_bytes (memory : Memory) (base : UInt32) (offset size : Nat) :
    loadNumber memory (byteAddress base offset) size =
      littleEndian ((List.range size).map fun i => memory (byteAddress base (offset + i))) := by
  induction size generalizing offset with
  | zero => rfl
  | succ size induction =>
      have next : byteAddress base offset + 1 = byteAddress base (offset + 1) :=
        byte_address_add base offset 1
      rw [List.range_succ_eq_map, List.map_cons, List.map_map, loadNumber, littleEndian, next,
        induction]
      simp only [Function.comp_def, Nat.add_assoc, Nat.add_comm 1, Nat.add_zero]

theorem little_endian_lt (bytes : List UInt8) : littleEndian bytes < 256 ^ bytes.length := by
  induction bytes with
  | nil => exact Nat.one_pos
  | cons byte bytes induction =>
      have small := byte.toNat_lt
      rw [littleEndian, List.length_cons, Nat.pow_succ]
      omega

theorem load_word_same {first second : Memory} {address : UInt32}
    (same : ∀ byte, InRegion address 4 byte → first byte = second byte) :
    loadWord first address = loadWord second address := by
  have bytes : ∀ offset : UInt32, offset.toNat < 4 →
      first (address + offset) = second (address + offset) := by
    intro offset small
    apply same
    rw [InRegion, add_sub_self]
    exact small
  have start := bytes 0 (by decide)
  rw [UInt32.add_zero] at start
  unfold loadWord
  rw [start, bytes 1 (by decide), bytes 2 (by decide), bytes 3 (by decide)]

theorem store_bytes_inside (memory : Memory) {base address : UInt32} {bytes : List UInt8}
    (inside : InRegion base bytes.length address) :
    storeBytes memory base bytes address = bytes.getD (address - base).toNat 0 := if_pos inside

theorem store_bytes_outside (memory : Memory) {base address : UInt32} {bytes : List UInt8}
    (outside : ¬InRegion base bytes.length address) :
    storeBytes memory base bytes address = memory address := if_neg outside

theorem store_word_outside (memory : Memory) {base address : UInt32} (word : UInt32)
    (outside : ¬InRegion base 4 address) : storeWord memory base word address = memory address :=
  if_neg outside

def KeepsRegion (before after : Memory) (base : UInt32) (size : Nat) : Prop :=
  ∀ address, InRegion base size address → after address = before address

section Keeps

variable {first second third : Memory} {base : UInt32} {size : Nat}

theorem keeps_region_trans (early : KeepsRegion first second base size)
    (late : KeepsRegion second third base size) : KeepsRegion first third base size :=
  fun address inside => (late address inside).trans (early address inside)

theorem keeps_region_word (kept : KeepsRegion first second base 4) :
    loadWord second base = loadWord first base := load_word_same kept

theorem keeps_region_number (kept : KeepsRegion first second base size) (small : size ≤ 2 ^ 32)
    {offset length : Nat} (inside : offset + length ≤ size) :
    loadNumber second (byteAddress base offset) length =
      loadNumber first (byteAddress base offset) length := by
  apply load_number_same
  intro index below
  rw [byte_address_add]
  exact kept _ (byte_address_in_region base (by omega) small)

end Keeps

end Library.MemoryRegions
