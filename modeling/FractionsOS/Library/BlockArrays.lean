import Mathlib.Data.List.FinRange
import Mathlib.Algebra.GroupWithZero.Nat

/-!
# Arrays of blocks

A store of several drives, each an unbounded array of blocks of `size` words,
and the flat numbering of its words that a transfer counts through.
-/

namespace Library.BlockArrays

set_option autoImplicit false

section Store

variable {Drive Word : Type} {size : Nat}

def BlockStore (Drive Word : Type) (size : Nat) : Type := Drive → Nat → Fin size → Word

inductive Request (Drive Word : Type) where
  | read (drive : Drive) (first count : Nat)
  | write (drive : Drive) (first count : Nat) (buffer : Nat → Word)

namespace BlockStore

def read (store : BlockStore Drive Word size) (drive : Drive) (first count : Nat) : List Word :=
  (List.range count).flatMap fun block => (List.finRange size).map (store drive (first + block))

variable [DecidableEq Drive]

def write (store : BlockStore Drive Word size) (drive : Drive) (first count : Nat)
    (buffer : Nat → Word) : BlockStore Drive Word size := fun other block word =>
  if other = drive ∧ first ≤ block ∧ block < first + count then
    buffer (size * (block - first) + word)
  else store other block word

def serve (store : BlockStore Drive Word size) :
    Request Drive Word → List Word × BlockStore Drive Word size
  | .read drive first count => (store.read drive first count, store)
  | .write drive first count buffer => ([], store.write drive first count buffer)

def serveAll (store : BlockStore Drive Word size) :
    List (Request Drive Word) → List (List Word × BlockStore Drive Word size)
  | [] => []
  | request :: requests => store.serve request :: serveAll (store.serve request).2 requests

end BlockStore

section Flat

variable (size) in
def ofFlat (flat : Drive → Nat → Word) : BlockStore Drive Word size :=
  fun drive block word => flat drive (size * block + word)

def flatRead (flat : Drive → Nat → Word) (drive : Drive) (address count : Nat) : List Word :=
  (List.range count).map fun index => flat drive (address + index)

theorem flat_read_succ (flat : Drive → Nat → Word) (drive : Drive) (address count : Nat) :
    flatRead flat drive address (count + 1) =
      flat drive address :: flatRead flat drive (address + 1) count := by
  unfold flatRead
  rw [List.range_succ_eq_map, List.map_cons, List.map_map]
  congr 1
  apply List.map_congr_left
  intro index _
  exact congrArg (flat drive) (by omega)

theorem flat_read_add (flat : Drive → Nat → Word) (drive : Drive) (address first second : Nat) :
    flatRead flat drive address (first + second) =
      flatRead flat drive address first ++ flatRead flat drive (address + first) second := by
  unfold flatRead
  rw [List.range_add, List.map_append, List.map_map]
  congr 1
  apply List.map_congr_left
  intro index _
  exact congrArg (flat drive) (Nat.add_assoc _ _ _).symm

theorem flat_read_block (flat : Drive → Nat → Word) (drive : Drive) (block : Nat) :
    flatRead flat drive (size * block) size =
      (List.finRange size).map (ofFlat size flat drive block) := by
  unfold flatRead
  rw [← List.map_coe_finRange_eq_range, List.map_map]
  rfl

theorem flat_read_blocks (flat : Drive → Nat → Word) (drive : Drive) (first count : Nat) :
    flatRead flat drive (size * first) (size * count) =
      (ofFlat size flat).read drive first count := by
  induction count with
  | zero => rfl
  | succ count induction =>
      rw [Nat.mul_succ, flat_read_add, induction, ← Nat.mul_add, flat_read_block]
      unfold BlockStore.read
      rw [List.range_succ, List.flatMap_append, List.flatMap_singleton]

variable [DecidableEq Drive]

def flatSet (flat : Drive → Nat → Word) (drive : Drive) (address : Nat) (word : Word) :
    Drive → Nat → Word := fun other index =>
  if other = drive ∧ index = address then word else flat other index

def flatWrite (flat : Drive → Nat → Word) (drive : Drive) (address : Nat) :
    List Word → Drive → Nat → Word
  | [] => flat
  | word :: words => flatWrite (flatSet flat drive address word) drive (address + 1) words

theorem flat_write_outside (flat : Drive → Nat → Word) (drive other : Drive) (address index : Nat)
    (words : List Word)
    (outside : ¬(other = drive ∧ address ≤ index ∧ index < address + words.length)) :
    flatWrite flat drive address words other index = flat other index := by
  induction words generalizing flat address with
  | nil => rfl
  | cons word words induction =>
      rw [List.length_cons] at outside
      rw [flatWrite, induction _ _ fun inside => outside ⟨inside.1, by omega, by omega⟩]
      apply if_neg
      rintro ⟨same, rfl⟩
      exact outside ⟨same, by omega, by omega⟩

theorem flat_write_inside (flat : Drive → Nat → Word) (drive : Drive) (address : Nat)
    (words : List Word) (index : Nat) (inside : index < words.length) :
    flatWrite flat drive address words drive (address + index) = words[index] := by
  induction words generalizing flat address index with
  | nil => cases inside
  | cons word words induction =>
      cases index with
      | zero =>
          rw [flatWrite, flat_write_outside _ _ _ _ _ _ fun within => by omega]
          exact if_pos ⟨rfl, rfl⟩
      | succ index =>
          rw [flatWrite, show address + (index + 1) = address + 1 + index by omega]
          exact induction _ _ _ (Nat.lt_of_succ_lt_succ inside)

theorem flat_write_blocks (flat : Drive → Nat → Word) (drive : Drive) (first count : Nat)
    (buffer : Nat → Word) :
    ofFlat size (flatWrite flat drive (size * first) ((List.range (size * count)).map buffer)) =
      (ofFlat size flat).write drive first count buffer := by
  funext other block word
  unfold ofFlat BlockStore.write
  by_cases inside : other = drive ∧ first ≤ block ∧ block < first + count
  · rw [if_pos inside]
    rcases inside with ⟨rfl, above, below⟩
    have position : size * block + word = size * first + (size * (block - first) + word) := by
      rw [← Nat.add_assoc, ← Nat.mul_add, Nat.add_sub_cancel' above]
    have last : size * (block - first) + size ≤ size * count := by
      rw [← Nat.mul_succ]
      exact Nat.mul_le_mul_left size (by omega)
    have within : size * (block - first) + word <
        ((List.range (size * count)).map buffer).length := by
      rw [List.length_map, List.length_range]
      exact Nat.lt_of_lt_of_le (Nat.add_lt_add_left word.isLt _) last
    rw [position, flat_write_inside _ _ _ _ _ within, List.getElem_map, List.getElem_range]
  · rw [if_neg inside]
    apply flat_write_outside
    rw [List.length_map, List.length_range, ← Nat.mul_add]
    rintro ⟨same, above, below⟩
    have fits := word.isLt
    apply inside
    refine ⟨same, ?_, ?_⟩
    · have notBefore : size * first < size * (block + 1) := by
        rw [Nat.mul_succ]
        omega
      exact Nat.lt_succ_iff.mp (Nat.lt_of_mul_lt_mul_left notBefore)
    · exact Nat.lt_of_mul_lt_mul_left (Nat.lt_of_le_of_lt (Nat.le_add_right _ _) below)

end Flat

section Pieces

namespace BlockStore

theorem read_add (store : BlockStore Drive Word size) (drive : Drive) (first upper lower : Nat) :
    store.read drive first (upper + lower) =
      store.read drive first upper ++ store.read drive (first + upper) lower := by
  unfold read
  rw [List.range_add, List.flatMap_append, List.flatMap_map]
  simp only [Nat.add_assoc]

variable [DecidableEq Drive]

theorem write_nothing (store : BlockStore Drive Word size) (drive : Drive) (first : Nat)
    (buffer : Nat → Word) : store.write drive first 0 buffer = store := by
  funext other block word
  exact if_neg (by omega)

theorem write_add (store : BlockStore Drive Word size) (drive : Drive) (first upper lower : Nat)
    (buffer : Nat → Word) :
    store.write drive first (upper + lower) buffer =
      (store.write drive first upper buffer).write drive (first + upper) lower
        (fun index => buffer (size * upper + index)) := by
  funext other block word
  unfold write
  by_cases below : other = drive ∧ first + upper ≤ block ∧ block < first + upper + lower
  · have place : size * (block - first) + word =
        size * upper + (size * (block - (first + upper)) + word) := by
      rw [← Nat.add_assoc, ← Nat.mul_add]
      congr 2
      omega
    rw [if_pos ⟨below.1, by omega, by omega⟩, if_pos below, place]
  · rw [if_neg below]
    by_cases above : other = drive ∧ first ≤ block ∧ block < first + upper
    · rw [if_pos above, if_pos ⟨above.1, above.2.1, by omega⟩]
    · rw [if_neg above, if_neg]
      rintro ⟨same, started, ended⟩
      by_cases early : block < first + upper
      · exact above ⟨same, started, early⟩
      · exact below ⟨same, Nat.le_of_not_lt early, by omega⟩

theorem read_written (store : BlockStore Drive Word size) (drive : Drive) (first count : Nat)
    (buffer : Nat → Word) :
    (store.write drive first count buffer).read drive first count =
      (List.range (size * count)).map buffer := by
  have block : ∀ index, index < count →
      (List.finRange size).map (store.write drive first count buffer drive (first + index)) =
        (List.range size).map fun word => buffer (size * index + word) := by
    intro index inside
    rw [← List.map_coe_finRange_eq_range, List.map_map]
    apply List.map_congr_left
    intro word _
    unfold write
    rw [if_pos ⟨rfl, Nat.le_add_right first index, by omega⟩, Nat.add_sub_cancel_left]
    rfl
  have blocks : (store.write drive first count buffer).read drive first count =
      (List.range count).flatMap fun index =>
        (List.range size).map fun word => buffer (size * index + word) := by
    apply List.flatMap_congr
    intro index inside
    exact block index (List.mem_range.mp inside)
  rw [blocks]
  clear block blocks
  induction count with
  | zero => rfl
  | succ count induction =>
      rw [List.range_succ, List.flatMap_append, induction, List.flatMap_singleton, Nat.mul_succ,
        List.range_add, List.map_append, List.map_map]
      rfl

def transact (store : BlockStore Drive Word size) :
    List (Request Drive Word) → List Word × BlockStore Drive Word size
  | [] => ([], store)
  | request :: requests =>
      let rest := (store.serve request).2.transact requests
      ((store.serve request).1 ++ rest.1, rest.2)

theorem transact_append (store : BlockStore Drive Word size)
    (first second : List (Request Drive Word)) :
    store.transact (first ++ second) =
      ((store.transact first).1 ++ ((store.transact first).2.transact second).1,
        ((store.transact first).2.transact second).2) := by
  induction first generalizing store with
  | nil => rfl
  | cons request first induction =>
      rw [List.cons_append, transact, induction, transact, List.append_assoc]

/-! A piece of a transfer goes on where the one before it ended. -/

def writePieces (size : Nat) (drive : Drive) : Nat → (Nat → Word) → List Nat →
    List (Request Drive Word)
  | _, _, [] => []
  | first, buffer, count :: counts =>
      .write drive first count buffer ::
        writePieces size drive (first + count) (fun index => buffer (size * count + index)) counts

def readPieces (drive : Drive) : Nat → List Nat → List (Request Drive Word)
  | _, [] => []
  | first, count :: counts =>
      .read drive first count :: readPieces drive (first + count) counts

theorem write_in_pieces (store : BlockStore Drive Word size) (drive : Drive) (first : Nat)
    (buffer : Nat → Word) (counts : List Nat) :
    store.transact (writePieces size drive first buffer counts) =
      ([], store.write drive first counts.sum buffer) := by
  induction counts generalizing store first buffer with
  | nil =>
      rw [List.sum_nil, write_nothing]
      rfl
  | cons count counts induction =>
      rw [writePieces, transact, List.sum_cons, write_add]
      exact congrArg (fun rest : List Word × BlockStore Drive Word size => ([] ++ rest.1, rest.2))
        (induction (store.write drive first count buffer) (first + count) _)

theorem read_in_pieces (store : BlockStore Drive Word size) (drive : Drive) (first : Nat)
    (counts : List Nat) :
    store.transact (readPieces drive first counts) =
      (store.read drive first counts.sum, store) := by
  induction counts generalizing first with
  | nil => rfl
  | cons count counts induction =>
      have rest := induction (first + count)
      rw [readPieces, transact, List.sum_cons, read_add]
      change (_ ++ (store.transact (readPieces drive (first + count) counts)).1,
        (store.transact (readPieces drive (first + count) counts)).2) = _
      rw [rest]
      rfl

theorem pieces_round_trip (store : BlockStore Drive Word size) (drive : Drive) (first : Nat)
    (buffer : Nat → Word) {written read : List Nat} (same : read.sum = written.sum) :
    store.transact (writePieces size drive first buffer written ++ readPieces drive first read) =
      ((List.range (size * written.sum)).map buffer,
        store.write drive first written.sum buffer) := by
  rw [transact_append, write_in_pieces, read_in_pieces, same, read_written]
  rfl

def Writes (drive : Drive) (block : Nat) : Request Drive Word → Prop
  | .read _ _ _ => False
  | .write other first count _ => other = drive ∧ first ≤ block ∧ block < first + count

theorem serve_untouched (store : BlockStore Drive Word size) {drive : Drive} {block : Nat}
    {request : Request Drive Word} (untouched : ¬Writes drive block request) (word : Fin size) :
    (store.serve request).2 drive block word = store drive block word := by
  cases request with
  | read other first count => rfl
  | write other first count buffer =>
      apply if_neg
      rintro ⟨same, started, ended⟩
      exact untouched ⟨same.symm, started, ended⟩

theorem transact_untouched (store : BlockStore Drive Word size) {drive : Drive} {block : Nat}
    {requests : List (Request Drive Word)}
    (untouched : ∀ request ∈ requests, ¬Writes drive block request) (word : Fin size) :
    (store.transact requests).2 drive block word = store drive block word := by
  induction requests generalizing store with
  | nil => rfl
  | cons request requests induction =>
      have later := induction (store.serve request).2
        fun other member => untouched other (List.mem_cons_of_mem request member)
      exact later.trans (serve_untouched store (untouched request List.mem_cons_self) word)

def Reaches (drive : Drive) (block : Nat) : Request Drive Word → Prop
  | .read other first count => other = drive ∧ first ≤ block ∧ block < first + count
  | .write other first count _ => other = drive ∧ first ≤ block ∧ block < first + count

omit [DecidableEq Drive] in
theorem read_same {store other : BlockStore Drive Word size} {drive : Drive} {first count : Nat}
    (same : ∀ block, first ≤ block → block < first + count →
      ∀ word, store drive block word = other drive block word) :
    store.read drive first count = other.read drive first count := by
  apply List.flatMap_congr
  intro index member
  have below := List.mem_range.mp member
  apply List.map_congr_left
  intro word _
  exact same (first + index) (Nat.le_add_right _ _) (Nat.add_lt_add_left below _) word

def Agree (region : Drive → Nat → Prop) (store other : BlockStore Drive Word size) : Prop :=
  ∀ drive block, region drive block → ∀ word, store drive block word = other drive block word

section Regions

variable {region : Drive → Nat → Prop} {store other : BlockStore Drive Word size}
  {request : Request Drive Word}

/-- A request inside the region is answered alike. -/
theorem agree_served (agree : Agree region store other)
    (inside : ∀ drive block, Reaches drive block request → region drive block) :
    (store.serve request).1 = (other.serve request).1 ∧
      Agree region (store.serve request).2 (other.serve request).2 := by
  cases request with
  | read drive first count =>
      refine ⟨?_, agree⟩
      apply read_same
      intro block started ended
      exact agree drive block (inside _ _ ⟨rfl, started, ended⟩)
  | write drive first count buffer =>
      refine ⟨rfl, ?_⟩
      intro another block within word
      change write store _ _ _ _ _ _ _ = write other _ _ _ _ _ _ _
      unfold write
      split_ifs
      · rfl
      · exact agree another block within word

theorem agree_untouched (agree : Agree region store other)
    (outside : ∀ drive block, region drive block → ¬Writes drive block request) :
    Agree region (store.serve request).2 other := by
  intro drive block within word
  rw [serve_untouched store (outside drive block within) word]
  exact agree drive block within word

end Regions

end BlockStore

end Pieces

end Store

end Library.BlockArrays
