import FractionsOS.Video.Vga

/-!
# Where the console puts a text

The cursor that `vga_write_string` carries from call to call is the cursor of
the layout of all text written so far, reduced to 32 bits. Wrapping is lazy: a
full row leaves the column at 80 until the next byte decides. Both results
below, the bound on the stored indices and the contents of the screen, rest on
that one relation.
-/

namespace FractionsOS.Vga

open Library Library.TextLayout

set_option autoImplicit false

abbrev rowAfter (text : List Glyph) : Nat := cursorRow vgaWidth.toNat isNewline text

abbrev columnAfter (text : List Glyph) : Nat := cursorColumn vgaWidth.toNat isNewline text

abbrev cellAfter (text : List Glyph) : Nat × Nat := nextCell vgaWidth.toNat isNewline text

/-- The index a row and column have in `vga_buffer`, in the 32-bit arithmetic
of `vga_write_string`. -/
def storeIndex (row column : Nat) : Nat := (row * vgaWidth.toNat + column) % 2 ^ 32

structure Follows (state : VgaState) (text : List Glyph) : Prop where
  row : state.vgaRow = UInt32.ofNat (rowAfter text)
  column : state.vgaColumn.toNat = columnAfter text

theorem vga_width_value : vgaWidth.toNat = 80 := rfl

theorem vga_width_positive : 0 < vgaWidth.toNat := by decide

theorem follows_boot (screen : Nat → UInt16) : Follows (bootState screen) [] where
  row := by simp [rowAfter, bootState]
  column := by simp [columnAfter, bootState]

theorem follows_congr {state other : VgaState} {text : List Glyph} (follows : Follows state text)
    (row : other.vgaRow = state.vgaRow) (column : other.vgaColumn = state.vgaColumn) :
    Follows other text where
  row := by rw [row, follows.row]
  column := by rw [column, follows.column]

theorem write_newline (state : VgaState) (text : List Glyph) (color : UInt8)
    (follows : Follows state text) :
    Follows (vgaWriteByte state newlineByte) (text ++ [(newlineByte, color)]) ∧
      (vgaWriteByte state newlineByte).vgaBuffer = state.vgaBuffer ∧
      (vgaWriteByte state newlineByte).vgaColor = state.vgaColor := by
  have separator : isNewline (newlineByte, color) = true := rfl
  have cursor := cursor_after_newline text (newlineByte, color) vga_width_positive separator
  constructor
  · constructor
    · simp [vgaWriteByte, rowAfter, cursor.1, follows.row, UInt32.ofNat_add]
    · simp [vgaWriteByte, columnAfter, cursor.2]
  · exact ⟨rfl, rfl⟩

/-- The cursor position `vga_write_string` stores at, after its lazy wrap. -/
theorem wrapped_cursor (state : VgaState) (text : List Glyph) (follows : Follows state text) :
    (if state.vgaColumn ≥ vgaWidth then
        { state with vgaColumn := 0, vgaRow := state.vgaRow + 1 }
      else state) =
      { state with
        vgaRow := UInt32.ofNat (cellAfter text).1
        vgaColumn := UInt32.ofNat (cellAfter text).2 } := by
  have column : state.vgaColumn = UInt32.ofNat (columnAfter text) := by
    rw [← follows.column, UInt32.ofNat_toNat]
  have full : state.vgaColumn ≥ vgaWidth ↔ ¬columnAfter text < vgaWidth.toNat := by
    rw [ge_iff_le, UInt32.le_iff_toNat_le, follows.column, Nat.not_lt]
  by_cases room : columnAfter text < vgaWidth.toNat
  · have place : cellAfter text = (rowAfter text, columnAfter text) := if_pos room
    rw [if_neg (fun wrap => full.mp wrap room), place]
    rw [← follows.row, ← column]
  · have place : cellAfter text = (rowAfter text + 1, 0) := if_neg room
    rw [if_pos (full.mpr room), place, follows.row, UInt32.ofNat_add]
    rfl

theorem write_glyph (state : VgaState) (text : List Glyph) (c : UInt8)
    (follows : Follows state text) (ordinary : c ≠ newlineByte) :
    Follows (vgaWriteByte state c) (text ++ [(c, state.vgaColor)]) ∧
      (vgaWriteByte state c).vgaBuffer =
        state.vgaBuffer.store (storeIndex (cellAfter text).1 (cellAfter text).2)
          (vgaEntry state.vgaColor c) ∧
      (vgaWriteByte state c).vgaColor = state.vgaColor := by
  have item : isNewline (c, state.vgaColor) = false := by simpa [isNewline] using ordinary
  have cursor : rowAfter (text ++ [(c, state.vgaColor)]) = (cellAfter text).1 ∧
      columnAfter (text ++ [(c, state.vgaColor)]) = (cellAfter text).2 + 1 :=
    cursor_after_item text (c, state.vgaColor) vga_width_positive item
  have inRow : (cellAfter text).2 < 80 := next_cell_column_lt text vga_width_positive
  have index : (UInt32.ofNat (cellAfter text).1 * vgaWidth +
      UInt32.ofNat (cellAfter text).2).toNat =
        storeIndex (cellAfter text).1 (cellAfter text).2 := by
    simp only [UInt32.toNat_add, UInt32.toNat_mul, UInt32.toNat_ofNat', storeIndex,
      vga_width_value]
    omega
  have body : vgaWriteByte state c =
      { state with
        vgaRow := UInt32.ofNat (cellAfter text).1
        vgaColumn := UInt32.ofNat (cellAfter text).2 + 1
        vgaBuffer := state.vgaBuffer.store (storeIndex (cellAfter text).1 (cellAfter text).2)
          (vgaEntry state.vgaColor c) } := by
    rw [vgaWriteByte, if_neg ordinary, wrapped_cursor state text follows]
    simp only [index]
  rw [body]
  constructor
  · constructor
    · rw [cursor.1]
    · rw [cursor.2, UInt32.toNat_add, UInt32.toNat_ofNat', UInt32.toNat_one]
      omega
  · exact ⟨rfl, rfl⟩

structure Blanked (first last : Nat) (before after : VgaState) : Prop where
  row : after.vgaRow = before.vgaRow
  column : after.vgaColumn = before.vgaColumn
  color : after.vgaColor = before.vgaColor
  cells : ∀ index, after.vgaBuffer.cells index =
    if first ≤ index ∧ index < last then vgaEntry before.vgaColor spaceByte
    else before.vgaBuffer.cells index
  trace : ∃ stored, after.vgaBuffer.trace = stored ++ before.vgaBuffer.trace ∧
    ∀ index ∈ stored, index < last

theorem blanked_nothing (first : Nat) (state : VgaState) : Blanked first first state state where
  row := rfl
  column := rfl
  color := rfl
  cells index := by
    rw [if_neg]
    omega
  trace := ⟨[], rfl, by simp⟩

theorem blanked_join {first middle last : Nat} {before between after : VgaState}
    (ordered : first ≤ middle ∧ middle ≤ last) (left : Blanked first middle before between)
    (right : Blanked middle last between after) : Blanked first last before after where
  row := right.row.trans left.row
  column := right.column.trans left.column
  color := right.color.trans left.color
  cells index := by
    rw [right.cells, left.cells, left.color]
    split_ifs <;> first | rfl | omega
  trace := by
    obtain ⟨storedLeft, traceLeft, boundLeft⟩ := left.trace
    obtain ⟨storedRight, traceRight, boundRight⟩ := right.trace
    refine ⟨storedRight ++ storedLeft, by rw [traceRight, traceLeft, List.append_assoc], ?_⟩
    intro index member
    rcases List.mem_append.mp member with fromRight | fromLeft
    · exact boundRight index fromRight
    · exact (boundLeft index fromLeft).trans_le ordered.2

theorem blanked_store (state : VgaState) (index : Nat) :
    Blanked index (index + 1) state
      { state with
        vgaBuffer := state.vgaBuffer.store index (vgaEntry state.vgaColor spaceByte) } where
  row := rfl
  column := rfl
  color := rfl
  cells other := by
    rw [TracedMemory.store_cells]
    split_ifs <;> first | rfl | omega
  trace := ⟨[index], rfl, by simp⟩

theorem blanked_loop (body : VgaState → Nat → VgaState) (first width : Nat)
    (pass : ∀ state k, Blanked (first + k * width) (first + (k + 1) * width) state (body state k))
    (count : Nat) (state : VgaState) :
    Blanked first (first + count * width) state ((List.range count).foldl body state) := by
  induction count with
  | zero => simpa using blanked_nothing first state
  | succ count induction =>
      rw [List.range_succ, List.foldl_append, List.foldl_cons, List.foldl_nil]
      apply blanked_join _ induction (pass _ count)
      rw [Nat.add_mul]
      omega

theorem blanked_row (state : VgaState) (y : Nat) :
    Blanked (y * 80) (y * 80 + 80) state (vgaClearRow state y) := by
  apply blanked_loop (fun state x =>
    { state with
      vgaBuffer := state.vgaBuffer.store (y * vgaWidth.toNat + x)
        (vgaEntry state.vgaColor spaceByte) }) (y * 80) 1 _ 80
  intro state x
  simpa only [Nat.mul_one, vga_width_value, Nat.add_assoc] using blanked_store state (y * 80 + x)

def initColor : UInt8 := colorLightGrey ||| (colorBlack <<< 4)

def blankCell : UInt16 := vgaEntry initColor spaceByte

/-- `vga_init` blanks the page and sets the colour. It leaves the cursor where
it was. -/
theorem vga_init_blanks (state : VgaState) :
    Blanked 0 2000 (vgaSetColor state colorLightGrey colorBlack) (vgaInit state) := by
  apply blanked_loop vgaClearRow 0 80 _ 25
  intro state y
  have next : 0 + (y + 1) * 80 = y * 80 + 80 := by omega
  rw [next, Nat.zero_add]
  exact blanked_row state y

theorem vga_init_color (state : VgaState) : (vgaInit state).vgaColor = initColor :=
  (vga_init_blanks state).color

theorem vga_init_cells (state : VgaState) (index : Nat) :
    (vgaInit state).vgaBuffer.cells index =
      if index < 2000 then blankCell else state.vgaBuffer.cells index := by
  rw [(vga_init_blanks state).cells]
  simp only [Nat.zero_le, true_and]
  rfl

theorem follows_init {state : VgaState} {text : List Glyph} (follows : Follows state text) :
    Follows (vgaInit state) text :=
  follows_congr follows (vga_init_blanks state).row (vga_init_blanks state).column

abbrev ScreenRelation := TracedMemory UInt16 → List Glyph → Prop

/-- What a relation needs so that every string written keeps it. -/
structure KeptByText (related : ScreenRelation) : Prop where
  newline : ∀ buffer text color, related buffer text →
    related buffer (text ++ [(newlineByte, color)])
  glyph : ∀ buffer text c color, c ≠ newlineByte → related buffer text →
    related (buffer.store (storeIndex (cellAfter text).1 (cellAfter text).2) (vgaEntry color c))
      (text ++ [(c, color)])

theorem string_keeps {related : ScreenRelation} (kept : KeptByText related) (bytes : List UInt8)
    (state : VgaState) (text : List Glyph) (follows : Follows state text)
    (holds : related state.vgaBuffer text) :
    Follows (bytes.foldl vgaWriteByte state) (text ++ bytes.map fun c => (c, state.vgaColor)) ∧
      related (bytes.foldl vgaWriteByte state).vgaBuffer
        (text ++ bytes.map fun c => (c, state.vgaColor)) ∧
      (bytes.foldl vgaWriteByte state).vgaColor = state.vgaColor := by
  induction bytes generalizing state text with
  | nil => simpa using ⟨follows, holds⟩
  | cons c bytes induction =>
      have split : text ++ (c :: bytes).map (fun byte => (byte, state.vgaColor)) =
          (text ++ [(c, state.vgaColor)]) ++ bytes.map fun byte => (byte, state.vgaColor) := by
        simp
      rw [split, List.foldl_cons]
      by_cases newline : c = newlineByte
      · subst newline
        have written := write_newline state text state.vgaColor follows
        have related := kept.newline _ _ state.vgaColor holds
        rw [← written.2.1] at related
        simpa only [written.2.2] using induction _ _ written.1 related
      · have written := write_glyph state text c follows newline
        have related := kept.glyph _ _ c state.vgaColor newline holds
        rw [← written.2.1] at related
        simpa only [written.2.2] using induction _ _ written.1 related

/-- The run lemma. `clears` is asked for only when the run clears the screen. -/
theorem run_keeps {related : ScreenRelation} (kept : KeptByText related) (calls : List VgaCall)
    (clears : VgaCall.init ∈ calls → ∀ state text, related state.vgaBuffer text →
      related (vgaInit state).vgaBuffer text)
    (state : VgaState) (text : List Glyph) (follows : Follows state text)
    (holds : related state.vgaBuffer text) :
    Follows (run state calls) (text ++ textOfRun state.vgaColor calls) ∧
      related (run state calls).vgaBuffer (text ++ textOfRun state.vgaColor calls) := by
  induction calls generalizing state text with
  | nil => simpa [run, textOfRun] using ⟨follows, holds⟩
  | cons call calls induction =>
      have later := induction fun member => clears (List.mem_cons_of_mem _ member)
      have split : run state (call :: calls) = run (step state call) calls := rfl
      rw [split, textOfRun, ← List.append_assoc]
      cases call with
      | init =>
          rw [textOfCall, List.append_nil]
          have cleared := later (vgaInit state) text (follows_init follows)
            (clears List.mem_cons_self state text holds)
          rw [vga_init_color] at cleared
          exact cleared
      | setColor fg bg =>
          rw [textOfCall, List.append_nil]
          exact later (vgaSetColor state fg bg) text (follows_congr follows rfl rfl) holds
      | writeString data =>
          have written := string_keeps kept (stringBytes data) state text follows holds
          have onward := later _ _ written.1 written.2.1
          rw [written.2.2] at onward
          simpa only [step, write_string_eq_fold, colorAfter, textOfCall] using onward

/-- The cells of the page a text shows something in are the cells stored to,
up to the cells of the screen itself. -/
def StoresMatch : ScreenRelation := fun buffer text =>
  (∀ index ∈ buffer.trace, index < 2000 ∨
    ∃ row column glyph, glyphAt text row column = some glyph ∧ index = storeIndex row column) ∧
  ∀ row column glyph, glyphAt text row column = some glyph → storeIndex row column ∈ buffer.trace

theorem stores_match_kept : KeptByText StoresMatch where
  newline buffer text color holds := by
    have same : ∀ row column, glyphAt (text ++ [(newlineByte, color)]) row column =
        glyphAt text row column := item_at_newline text _ vga_width_positive rfl
    simpa only [StoresMatch, same] using holds
  glyph buffer text c color ordinary holds := by
    have item : isNewline (c, color) = false := by simpa [isNewline] using ordinary
    have grown : ∀ row column, glyphAt (text ++ [(c, color)]) row column =
        if (row, column) = cellAfter text then some (c, color) else glyphAt text row column :=
      item_at_item text _ vga_width_positive item
    have vacant : glyphAt text (cellAfter text).1 (cellAfter text).2 = none :=
      item_at_next_cell text vga_width_positive
    constructor
    · intro index member
      rcases List.mem_cons.mp member with fresh | earlier
      · right
        exact ⟨_, _, (c, color), by rw [grown, if_pos rfl], fresh⟩
      · rcases holds.1 index earlier with inside | ⟨row, column, glyph, shown, place⟩
        · exact Or.inl inside
        · right
          have other : (row, column) ≠ cellAfter text := by
            intro same
            rw [← same] at vacant
            simp [vacant] at shown
          exact ⟨row, column, glyph, by rw [grown, if_neg other, shown], place⟩
    · intro row column glyph shown
      rw [grown] at shown
      by_cases fresh : (row, column) = cellAfter text
      · rw [← fresh]
        exact List.mem_cons_self
      · rw [if_neg fresh] at shown
        exact List.mem_cons_of_mem _ (holds.2 row column glyph shown)

theorem stores_match_init (state : VgaState) (text : List Glyph)
    (holds : StoresMatch state.vgaBuffer text) : StoresMatch (vgaInit state).vgaBuffer text := by
  obtain ⟨stored, trace, bound⟩ := (vga_init_blanks state).trace
  constructor
  · intro index member
    rw [trace] at member
    rcases List.mem_append.mp member with fresh | earlier
    · exact Or.inl (bound index fresh)
    · exact holds.1 index earlier
  · intro row column glyph shown
    rw [trace]
    exact List.mem_append_right _ (holds.2 row column glyph shown)

/-- In every run from the boot state all stores hit the screen exactly when the
text of the run, laid out from the top left corner, shows nothing outside it.
The index wraps at `2 ^ 32`, and so does the condition. -/
theorem vga_stores_on_screen_iff (screen : Nat → UInt16) (calls : List VgaCall) :
    (∀ index ∈ (run (bootState screen) calls).vgaBuffer.trace, index < 2000) ↔
      ∀ row column glyph, glyphAt (textOfRun 0 calls) row column = some glyph →
        (row * 80 + column) % 2 ^ 32 < 2000 := by
  have start : StoresMatch (bootState screen).vgaBuffer [] := by
    constructor
    · intro index member
      cases member
    · intro row column glyph shown
      rw [glyphAt, rowsOf, item_at_nil] at shown
      cases shown
  have reached := (run_keeps stores_match_kept calls (fun _ => stores_match_init)
    (bootState screen) [] (follows_boot screen) start).2
  rw [List.nil_append] at reached
  constructor
  · intro onScreen row column glyph shown
    exact onScreen _ (reached.2 row column glyph shown)
  · intro fits index member
    rcases reached.1 index member with inside | ⟨row, column, glyph, shown, place⟩
    · exact inside
    · rw [place]
      exact fits row column glyph shown

def taskLines (count : Nat) : List VgaCall :=
  List.replicate count (.writeString [84, 49, 10])

theorem vga_stores_leave_screen :
    ¬∀ (screen : Nat → UInt16) (calls : List VgaCall),
      ∀ index ∈ (run (bootState screen) calls).vgaBuffer.trace, index < 2000 := by
  intro onScreen
  have outside := onScreen (fun _ => 0) (taskLines 26) 2000 (by decide +kernel)
  exact absurd outside (by decide)

def glyphCell (glyph : Glyph) : UInt16 := (glyph.2.toUInt16 <<< 8) ||| glyph.1.toUInt16

def FitsScreen (text : List Glyph) : Prop :=
  ∀ row column glyph, glyphAt text row column = some glyph → row < 25

/-- The page a text describes, every cell without a glyph being blank. -/
def pageCell (text : List Glyph) (row column : Nat) : UInt16 :=
  match glyphAt text row column with
  | some glyph => glyphCell glyph
  | none => blankCell

theorem promoted_ascii (c : UInt8) (ascii : c ≤ 127) :
    c.toInt8.toInt32.toUInt32 = c.toUInt32 := by
  apply UInt32.eq_of_toBitVec_eq
  have positive : c.toBitVec.msb = false := by
    rw [UInt8.le_iff_toNat_le] at ascii
    rw [BitVec.msb_eq_decide]
    simp only [UInt8.toNat_toBitVec, decide_eq_false_iff_not, Nat.not_le] at ascii ⊢
    exact Nat.lt_succ_of_le ascii
  simp only [Int32.toBitVec_toUInt32, Int8.toBitVec_toInt32, UInt8.toBitVec_toInt8,
    UInt8.toBitVec_toUInt32]
  exact BitVec.signExtend_eq_setWidth_of_msb_false positive

theorem entry_of_ascii (color c : UInt8) (ascii : c ≤ 127) :
    vgaEntry color c = glyphCell (c, color) := by
  rw [vgaEntry, promoted_ascii c ascii]
  apply UInt16.eq_of_toBitVec_eq
  ext bit bound
  simp [glyphCell]

def ShowsPage : ScreenRelation := fun buffer text =>
  FitsScreen text → (∀ glyph ∈ text, glyph.1 ≤ 127) → ∀ row column, row < 25 → column < 80 →
    buffer.cells (row * 80 + column) = pageCell text row column

theorem shows_page_kept : KeptByText ShowsPage where
  newline buffer text color holds := by
    have same : ∀ row column, glyphAt (text ++ [(newlineByte, color)]) row column =
        glyphAt text row column := item_at_newline text _ vga_width_positive rfl
    intro fits ascii row column inRows inColumns
    simp only [FitsScreen, same] at fits
    simp only [pageCell, same]
    exact holds fits (fun glyph member => ascii glyph (List.mem_append_left _ member)) row column
      inRows inColumns
  glyph buffer text c color ordinary holds := by
    have item : isNewline (c, color) = false := by simpa [isNewline] using ordinary
    have grown : ∀ row column, glyphAt (text ++ [(c, color)]) row column =
        if (row, column) = cellAfter text then some (c, color) else glyphAt text row column :=
      item_at_item text _ vga_width_positive item
    intro fits ascii row column inRows inColumns
    have freshRow : (cellAfter text).1 < 25 :=
      fits (cellAfter text).1 (cellAfter text).2 (c, color) (by rw [grown, if_pos rfl])
    have freshColumn : (cellAfter text).2 < 80 := next_cell_column_lt text vga_width_positive
    have fitsBefore : FitsScreen text := by
      intro row column glyph shown
      exact fits row column glyph (item_at_extended text _ vga_width_positive row column glyph shown)
    have index : storeIndex (cellAfter text).1 (cellAfter text).2 =
        (cellAfter text).1 * 80 + (cellAfter text).2 := by
      rw [storeIndex, vga_width_value]
      omega
    rw [TracedMemory.store_cells, index, pageCell, grown]
    by_cases fresh : (row, column) = cellAfter text
    · rw [if_pos (by rw [← fresh]), if_pos fresh]
      exact entry_of_ascii color c (ascii (c, color) (by simp))
    · have elsewhere : row * 80 + column ≠ (cellAfter text).1 * 80 + (cellAfter text).2 := by
        intro same
        apply fresh
        apply Prod.ext <;> simp only <;> omega
      rw [if_neg elsewhere, if_neg fresh]
      exact holds fitsBefore (fun glyph member => ascii glyph (List.mem_append_left _ member))
        row column inRows inColumns

theorem shows_page_blank (state : VgaState) : ShowsPage (vgaInit state).vgaBuffer [] := by
  intro fits ascii row column inRows inColumns
  rw [vga_init_cells, if_pos (by omega), pageCell, glyphAt, rowsOf, item_at_nil]

theorem text_of_run_ascii (calls : List VgaCall) (color : UInt8)
    (ascii : ∀ data, VgaCall.writeString data ∈ calls → ∀ c ∈ data, c ≤ 127) :
    ∀ glyph ∈ textOfRun color calls, glyph.1 ≤ 127 := by
  induction calls generalizing color with
  | nil => simp [textOfRun]
  | cons call calls induction =>
      intro glyph member
      rw [textOfRun] at member
      rcases List.mem_append.mp member with here | later
      · cases call with
        | init => simp [textOfCall] at here
        | setColor fg bg => simp [textOfCall] at here
        | writeString data =>
            obtain ⟨c, inString, same⟩ := List.mem_map.mp here
            rw [← same]
            exact ascii data List.mem_cons_self c (List.takeWhile_subset _ inString)
      · exact induction _ (fun data member => ascii data (List.mem_cons_of_mem _ member))
          glyph later

theorem fits_of_row_count (text : List Glyph) (count : (rowsOf text).length ≤ 25) :
    FitsScreen text := by
  intro row column glyph shown
  have inRows := item_at_row_lt (rowsOf text) row column glyph shown
  omega

theorem screen_shows_page (screen : Nat → UInt16) (calls : List VgaCall)
    (noInit : VgaCall.init ∉ calls) (ascii : ∀ glyph ∈ textOfRun initColor calls, glyph.1 ≤ 127)
    (fits : FitsScreen (textOfRun initColor calls)) (row column : Nat)
    (inRows : row < 25) (inColumns : column < 80) :
    (run (vgaInit (bootState screen)) calls).vgaBuffer.cells (row * 80 + column) =
      pageCell (textOfRun initColor calls) row column := by
  have start := shows_page_blank (bootState screen)
  have reached := (run_keeps shows_page_kept calls (fun member => absurd member noInit)
    (vgaInit (bootState screen)) [] (follows_init (follows_boot screen)) start).2
  rw [List.nil_append, vga_init_color] at reached
  exact reached fits ascii row column inRows inColumns

/-- The boot-time `vga_init` followed by any calls that write ASCII text which
fits: the screen is the page of the text. Other calls with the same text leave
the same screen, and a line of exactly 80 bytes takes one row, its newline
adding none. -/
theorem vga_text_layout (screen : Nat → UInt16) (calls : List VgaCall)
    (noInit : VgaCall.init ∉ calls)
    (ascii : ∀ data, VgaCall.writeString data ∈ calls → ∀ c ∈ data, 1 ≤ c ∧ c ≤ 127)
    (fits : FitsScreen (textOfRun initColor calls)) :
    (∀ row column, row < 25 → column < 80 →
      (run (vgaInit (bootState screen)) calls).vgaBuffer.cells (row * 80 + column) =
        pageCell (textOfRun initColor calls) row column) ∧
    (∀ others, VgaCall.init ∉ others →
      textOfRun initColor others = textOfRun initColor calls →
      ∀ row column, row < 25 → column < 80 →
        (run (vgaInit (bootState screen)) others).vgaBuffer.cells (row * 80 + column) =
          (run (vgaInit (bootState screen)) calls).vgaBuffer.cells (row * 80 + column)) ∧
    ∀ line : List Glyph, line.length = 80 → cutRows vgaWidth.toNat line = [line] := by
  have asciiText := text_of_run_ascii calls initColor
    fun data member c inData => (ascii data member c inData).2
  have shown := screen_shows_page screen calls noInit asciiText fits
  constructor
  · exact shown
  constructor
  · intro others noInitOthers sameText row column inRows inColumns
    rw [shown row column inRows inColumns, ← sameText]
    apply screen_shows_page screen others noInitOthers _ _ row column inRows inColumns
    · rw [sameText]
      exact asciiText
    · rw [sameText]
      exact fits
  · intro line full
    exact cut_rows_full line full vga_width_positive

/-- Two lines in two colours, the newline of the first one in a call of its own. -/
theorem vga_text_layout_two_lines :
    (run (vgaInit (bootState fun _ => 0))
      [.writeString [65], .writeString [10], .setColor 4 1, .writeString [66]]).vgaBuffer.cells
        (1 * 80 + 0) = pageCell [(65, 7), (10, 7), (66, 20)] 1 0 :=
  (vga_text_layout (fun _ => 0)
    [.writeString [65], .writeString [10], .setColor 4 1, .writeString [66]] (by decide)
    (by simp) (fits_of_row_count _ (by decide))).1 1 0 (by decide) (by decide)

end FractionsOS.Vga
