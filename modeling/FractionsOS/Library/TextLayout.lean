import Mathlib.Data.List.Induction
import Mathlib.Tactic.Linarith

/-!
# Rows of a text on a page of fixed width

A text is split at its newlines and every line is cut into rows of `width`
items; an empty line still takes one row. The layout is a function of the text
alone. The lemmas below say what one more item does to it, which is all a
writer that keeps a cursor has to follow.
-/

namespace Library.TextLayout

set_option autoImplicit false

variable {Item : Type*}

/-- The rows of one line. Row `row` holds the items from `row * width` on, and
the last row is the only one that may be short or empty. -/
def cutRows (width : Nat) (line : List Item) : List (List Item) :=
  (List.range ((line.length - 1) / width + 1)).map
    fun row => (line.drop (row * width)).take width

def layoutRows (width : Nat) (newline : Item → Bool) (text : List Item) : List (List Item) :=
  (text.splitOnP newline).flatMap (cutRows width)

def itemAt (rows : List (List Item)) (row column : Nat) : Option Item :=
  (rows[row]?).bind fun shown => shown[column]?

theorem row_append_item {width row : Nat} {line : List Item}
    (inside : (row + 1) * width ≤ line.length) (item : Item) :
    ((line ++ [item]).drop (row * width)).take width = (line.drop (row * width)).take width := by
  rw [Nat.add_mul, Nat.one_mul] at inside
  rw [List.drop_append_of_le_length (by omega), List.take_append_of_le_length]
  simp only [List.length_drop]
  omega

theorem rows_append_item {width full : Nat} {line : List Item}
    (inside : full * width ≤ line.length) (item : Item) :
    (List.range full).map (fun row => ((line ++ [item]).drop (row * width)).take width) =
      (List.range full).map fun row => (line.drop (row * width)).take width := by
  apply List.map_congr_left
  intro row member
  apply row_append_item
  have below : row + 1 ≤ full := List.mem_range.mp member
  exact (Nat.mul_le_mul_right width below).trans inside

theorem cut_rows_shape (width : Nat) (line : List Item) (positive : 0 < width) :
    ∃ rows last, cutRows width line = rows ++ [last] ∧ last.length ≤ width ∧
      ∀ item, cutRows width (line ++ [item]) =
        if last.length < width then rows ++ [last ++ [item]] else rows ++ [last] ++ [[item]] := by
  let full := (line.length - 1) / width
  have fullBound : full * width ≤ line.length := by
    have product : full * width ≤ line.length - 1 := Nat.div_mul_le_self _ _
    omega
  have shortTail : line.length ≤ full * width + width := by
    have product : line.length - 1 < width * full + width :=
      Nat.lt_mul_div_succ (line.length - 1) positive
    have commuted : width * full = full * width := Nat.mul_comm width full
    omega
  have lastLength : ((line.drop (full * width)).take width).length = line.length - full * width := by
    simp only [List.length_take, List.length_drop]
    omega
  refine ⟨(List.range full).map fun row => (line.drop (row * width)).take width,
    (line.drop (full * width)).take width, ?_, ?_, ?_⟩
  · simp only [cutRows, List.range_succ, List.map_append, List.map_cons, List.map_nil, full]
  · exact List.length_take_le _ _
  · intro item
    have earlierRows := rows_append_item fullBound item
    rw [lastLength]
    split_ifs with room
    · have sameCount : ((line ++ [item]).length - 1) / width = full := by
        apply Nat.div_eq_of_lt_le
        · simpa using fullBound
        · rw [Nat.add_mul, Nat.one_mul]
          simp only [List.length_append, List.length_singleton]
          omega
      have lastRow : ((line ++ [item]).drop (full * width)).take width =
          (line.drop (full * width)).take width ++ [item] := by
        rw [List.drop_append_of_le_length fullBound, List.take_of_length_le, List.take_of_length_le]
        · simp only [List.length_drop]
          omega
        · simp only [List.length_append, List.length_drop, List.length_singleton]
          omega
      simp only [cutRows, sameCount, List.range_succ, List.map_append, List.map_cons, List.map_nil,
        earlierRows, lastRow]
    · have exactFit : line.length = (full + 1) * width := by
        rw [Nat.add_mul, Nat.one_mul]
        omega
      have nextCount : ((line ++ [item]).length - 1) / width = full + 1 := by
        simp only [List.length_append, List.length_singleton, Nat.add_sub_cancel, exactFit]
        exact Nat.mul_div_cancel _ positive
      have newRow : ((line ++ [item]).drop ((full + 1) * width)).take width = [item] := by
        rw [← exactFit, List.drop_left]
        exact List.take_of_length_le (by simp only [List.length_singleton]; omega)
      simp only [cutRows, nextCount, List.range_succ, List.map_append, List.map_cons, List.map_nil,
        earlierRows, newRow, row_append_item (le_of_eq exactFit.symm)]

theorem cut_rows_full {width : Nat} (line : List Item) (full : line.length = width)
    (positive : 0 < width) : cutRows width line = [line] := by
  have count : (line.length - 1) / width = 0 := Nat.div_eq_of_lt (by omega)
  simp [cutRows, count, List.take_of_length_le full.le]

theorem split_append_separator (newline : Item → Bool) (text : List Item) (item : Item)
    (separator : newline item = true) :
    (text ++ [item]).splitOnP newline = text.splitOnP newline ++ [[]] := by
  rw [List.splitOnP_append_cons text [] separator, List.splitOnP_nil]

theorem split_append_item (newline : Item → Bool) (text : List Item) :
    ∃ lines last, text.splitOnP newline = lines ++ [last] ∧
      ∀ item, newline item = false →
        (text ++ [item]).splitOnP newline = lines ++ [last ++ [item]] := by
  induction text with
  | nil =>
      refine ⟨[], [], List.splitOnP_nil, ?_⟩
      intro item ordinary
      simp [List.splitOnP_cons_eq_if_modifyHead, ordinary, List.splitOnP_nil]
  | cons head tail induction =>
      obtain ⟨lines, last, shape, extend⟩ := induction
      cases separator : newline head with
      | true =>
          refine ⟨[] :: lines, last, ?_, ?_⟩
          · simp [List.splitOnP_cons_eq_if_modifyHead, separator, shape]
          · intro item ordinary
            simp [List.splitOnP_cons_eq_if_modifyHead, separator, extend item ordinary]
      | false =>
          cases lines with
          | nil =>
              refine ⟨[], head :: last, ?_, ?_⟩
              · simp [List.splitOnP_cons_eq_if_modifyHead, separator, shape]
              · intro item ordinary
                simp [List.splitOnP_cons_eq_if_modifyHead, separator, extend item ordinary]
          | cons first others =>
              refine ⟨(head :: first) :: others, last, ?_, ?_⟩
              · simp [List.splitOnP_cons_eq_if_modifyHead, separator, shape]
              · intro item ordinary
                simp [List.splitOnP_cons_eq_if_modifyHead, separator, extend item ordinary]

/-- The two ways a text can grow: a newline opens an empty row, any other item
joins the last row if that row has room and opens a row of its own otherwise. -/
theorem layout_rows_shape (width : Nat) (newline : Item → Bool) (text : List Item)
    (positive : 0 < width) :
    ∃ rows last, layoutRows width newline text = rows ++ [last] ∧ last.length ≤ width ∧
      ∀ item, layoutRows width newline (text ++ [item]) =
        if newline item = true then rows ++ [last] ++ [[]]
        else if last.length < width then rows ++ [last ++ [item]]
        else rows ++ [last] ++ [[item]] := by
  obtain ⟨lines, lastLine, split, extend⟩ := split_append_item newline text
  obtain ⟨rows, last, cut, bound, grow⟩ := cut_rows_shape width lastLine positive
  have whole : layoutRows width newline text = lines.flatMap (cutRows width) ++ rows ++ [last] := by
    simp only [layoutRows, split, List.flatMap_append, List.flatMap_singleton, cut, List.append_assoc]
  refine ⟨lines.flatMap (cutRows width) ++ rows, last, whole, bound, ?_⟩
  intro item
  cases separator : newline item with
  | true =>
      have emptyLine : cutRows width ([] : List Item) = [[]] := by simp [cutRows]
      rw [if_pos rfl, ← whole]
      simp only [layoutRows, split_append_separator newline text item separator,
        List.flatMap_append, List.flatMap_singleton, emptyLine]
  | false =>
      rw [if_neg Bool.false_ne_true]
      simp only [layoutRows, extend item separator, List.flatMap_append, List.flatMap_singleton,
        grow item]
      split_ifs <;> simp only [List.append_assoc]

section Cursor

variable (width : Nat) (newline : Item → Bool)

@[simp] theorem layout_rows_nil : layoutRows width newline ([] : List Item) = [[]] := by
  simp [layoutRows, cutRows, List.splitOnP_nil]

def cursorRow (text : List Item) : Nat := (layoutRows width newline text).length - 1

/-- The number of items in that row. It is `width` after a full row: the next
item, not this one, moves the writer to the following row. -/
def cursorColumn (text : List Item) : Nat :=
  ((layoutRows width newline text).getLastD []).length

def nextCell (text : List Item) : Nat × Nat :=
  if cursorColumn width newline text < width then
    (cursorRow width newline text, cursorColumn width newline text)
  else (cursorRow width newline text + 1, 0)

variable {width newline}

@[simp] theorem cursor_row_nil : cursorRow width newline [] = 0 := by
  simp [cursorRow]

@[simp] theorem cursor_column_nil : cursorColumn width newline [] = 0 := by
  simp [cursorColumn]

theorem cursor_after_newline (text : List Item) (item : Item) (positive : 0 < width)
    (separator : newline item = true) :
    cursorRow width newline (text ++ [item]) = cursorRow width newline text + 1 ∧
      cursorColumn width newline (text ++ [item]) = 0 := by
  obtain ⟨rows, last, shape, -, grow⟩ := layout_rows_shape width newline text positive
  simp [cursorRow, cursorColumn, shape, grow, separator]

theorem cursor_after_item (text : List Item) (item : Item) (positive : 0 < width)
    (ordinary : newline item = false) :
    cursorRow width newline (text ++ [item]) = (nextCell width newline text).1 ∧
      cursorColumn width newline (text ++ [item]) = (nextCell width newline text).2 + 1 := by
  obtain ⟨rows, last, shape, -, grow⟩ := layout_rows_shape width newline text positive
  by_cases room : last.length < width <;>
    simp [cursorRow, cursorColumn, nextCell, shape, grow, ordinary, room]

theorem next_cell_column_lt (text : List Item) (positive : 0 < width) :
    (nextCell width newline text).2 < width := by
  unfold nextCell
  split_ifs with room
  · exact room
  · exact positive

theorem item_at_snoc (rows : List (List Item)) (last : List Item) (row column : Nat) :
    itemAt (rows ++ [last]) row column =
      if row = rows.length then last[column]? else itemAt rows row column := by
  rcases Nat.lt_trichotomy row rows.length with earlier | same | later
  · simp [itemAt, List.getElem?_append_left earlier, earlier.ne]
  · simp [itemAt, same]
  · have beyond : (rows ++ [last]).length ≤ row := by
      simp only [List.length_append, List.length_singleton]
      omega
    simp [itemAt, List.getElem?_eq_none beyond, List.getElem?_eq_none later.le, later.ne']

theorem item_at_out_of_rows (rows : List (List Item)) (row column : Nat)
    (beyond : rows.length ≤ row) : itemAt rows row column = none := by
  simp [itemAt, List.getElem?_eq_none beyond]

theorem item_at_row_lt (rows : List (List Item)) (row column : Nat) (item : Item)
    (shown : itemAt rows row column = some item) : row < rows.length := by
  by_contra beyond
  rw [item_at_out_of_rows rows row column (Nat.le_of_not_lt beyond)] at shown
  cases shown

theorem item_at_nil (row column : Nat) :
    itemAt (layoutRows width newline []) row column = none := by
  rw [layout_rows_nil, ← List.nil_append [[]], item_at_snoc]
  split_ifs
  · simp
  · exact item_at_out_of_rows [] row column (Nat.zero_le _)

theorem item_at_newline (text : List Item) (item : Item) (positive : 0 < width)
    (separator : newline item = true) (row column : Nat) :
    itemAt (layoutRows width newline (text ++ [item])) row column =
      itemAt (layoutRows width newline text) row column := by
  obtain ⟨rows, last, shape, -, grow⟩ := layout_rows_shape width newline text positive
  rw [grow, if_pos separator, ← shape, item_at_snoc]
  split_ifs with fresh
  · rw [item_at_out_of_rows _ row column (le_of_eq fresh.symm)]
    simp
  · rfl

/-- One more item changes the layout in exactly one cell. -/
theorem item_at_item (text : List Item) (item : Item) (positive : 0 < width)
    (ordinary : newline item = false) (row column : Nat) :
    itemAt (layoutRows width newline (text ++ [item])) row column =
      if (row, column) = nextCell width newline text then some item
      else itemAt (layoutRows width newline text) row column := by
  obtain ⟨rows, last, shape, -, grow⟩ := layout_rows_shape width newline text positive
  have position : nextCell width newline text =
      if last.length < width then (rows.length, last.length) else (rows.length + 1, 0) := by
    simp [nextCell, cursorRow, cursorColumn, shape]
  rw [grow, if_neg (by simp [ordinary]), position, shape]
  by_cases room : last.length < width
  · simp only [if_pos room, item_at_snoc, Prod.mk.injEq]
    by_cases sameRow : row = rows.length
    · simp only [sameRow, if_true, true_and, List.getElem?_append]
      rcases Nat.lt_trichotomy column last.length with earlier | same | later
      · simp [earlier, earlier.ne]
      · simp [same]
      · simp [later.not_gt, later.ne', Nat.sub_ne_zero_of_lt later]
    · simp [sameRow]
  · simp only [if_neg room]
    rw [item_at_snoc (rows ++ [last]) [item]]
    simp only [List.length_append, List.length_singleton, Prod.mk.injEq]
    by_cases newRow : row = rows.length + 1
    · rw [item_at_out_of_rows (rows ++ [last]) row column (by simp [newRow])]
      simp only [newRow, if_true, true_and]
      cases column <;> simp
    · simp [newRow]

theorem item_at_next_cell (text : List Item) (positive : 0 < width) :
    itemAt (layoutRows width newline text) (nextCell width newline text).1
      (nextCell width newline text).2 = none := by
  obtain ⟨rows, last, shape, -, -⟩ := layout_rows_shape width newline text positive
  by_cases room : last.length < width
  · simp [nextCell, cursorRow, cursorColumn, shape, room, item_at_snoc]
  · simp [nextCell, cursorRow, cursorColumn, shape, room, item_at_snoc,
      item_at_out_of_rows rows (rows.length + 1) 0 (by omega)]

theorem item_at_extended (text rest : List Item) (positive : 0 < width) (row column : Nat)
    (item : Item) (shown : itemAt (layoutRows width newline text) row column = some item) :
    itemAt (layoutRows width newline (text ++ rest)) row column = some item := by
  induction rest using List.reverseRecOn with
  | nil => simpa using shown
  | append_singleton rest next induction =>
      rw [← List.append_assoc]
      cases separator : newline next with
      | true => rw [item_at_newline _ next positive separator, induction]
      | false =>
          rw [item_at_item _ next positive separator, if_neg, induction]
          intro same
          have vacant : itemAt (layoutRows width newline (text ++ rest))
              (nextCell width newline (text ++ rest)).1 (nextCell width newline (text ++ rest)).2 = none :=
            item_at_next_cell (text ++ rest) positive
          rw [← same] at vacant
          simp [vacant] at induction

end Cursor

end Library.TextLayout
