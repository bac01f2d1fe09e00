import FractionsOS.Video.VgaLayout

/-!
# What `vga_init` forgets

Two consoles that agree on screen, cursor and colour answer all calls alike. `vga_init`
brings any console to the blank screen in the colour of the boot state, with the cursor
where it was.
-/

namespace FractionsOS.Vga

open Library Library.TextLayout

set_option autoImplicit false

structure SameConsole (first second : VgaState) : Prop where
  cells : ∀ index, first.vgaBuffer.cells index = second.vgaBuffer.cells index
  row : first.vgaRow = second.vgaRow
  column : first.vgaColumn = second.vgaColumn
  color : first.vgaColor = second.vgaColor

section Calls

variable {first second : VgaState}

theorem same_after_byte (same : SameConsole first second) (c : UInt8) :
    SameConsole (vgaWriteByte first c) (vgaWriteByte second c) := by
  rcases first with ⟨buffer, row, column, color⟩
  rcases second with ⟨otherBuffer, otherRow, otherColumn, otherColor⟩
  rcases same with ⟨cells, sameRow, sameColumn, sameColor⟩
  dsimp only at cells sameRow sameColumn sameColor
  subst sameRow sameColumn sameColor
  have stored : ∀ index (value : UInt16) other,
      (buffer.store index value).cells other = (otherBuffer.store index value).cells other := by
    intro index value other
    rw [TracedMemory.store_cells, TracedMemory.store_cells, cells]
  unfold vgaWriteByte
  split_ifs
  · exact ⟨cells, rfl, rfl, rfl⟩
  · exact ⟨stored _ _, rfl, rfl, rfl⟩
  · exact ⟨stored _ _, rfl, rfl, rfl⟩

theorem vga_init_cursor (state : VgaState) :
    (vgaInit state).vgaRow = state.vgaRow ∧ (vgaInit state).vgaColumn = state.vgaColumn := by
  have blanks := vga_init_blanks state
  exact ⟨blanks.row, blanks.column⟩

theorem same_after_init (same : SameConsole first second) :
    SameConsole (vgaInit first) (vgaInit second) := by
  constructor
  · intro index
    rw [vga_init_cells, vga_init_cells, same.cells]
  · rw [(vga_init_cursor first).1, (vga_init_cursor second).1, same.row]
  · rw [(vga_init_cursor first).2, (vga_init_cursor second).2, same.column]
  · rw [vga_init_color, vga_init_color]

theorem same_after_step (same : SameConsole first second) (call : VgaCall) :
    SameConsole (step first call) (step second call) := by
  cases call with
  | init => exact same_after_init same
  | setColor fg bg => exact ⟨same.cells, same.row, same.column, rfl⟩
  | writeString data =>
      rw [step, step, write_string_eq_fold, write_string_eq_fold]
      generalize stringBytes data = bytes
      induction bytes generalizing first second with
      | nil => exact same
      | cons c bytes induction => exact induction (same_after_byte same c)

theorem run_nil (state : VgaState) : run state [] = state := rfl

theorem same_after_run (same : SameConsole first second) (calls : List VgaCall) :
    SameConsole (run first calls) (run second calls) := by
  induction calls generalizing first second with
  | nil => exact same
  | cons call calls induction => exact induction (same_after_step same call)

end Calls

def KeepsOutside (screen : Nat → UInt16) : ScreenRelation := fun buffer _ =>
  ∀ index, 2000 ≤ index → index ∉ buffer.trace → buffer.cells index = screen index

theorem keeps_outside_kept (screen : Nat → UInt16) : KeptByText (KeepsOutside screen) where
  newline _ _ _ holds := holds
  glyph buffer text c color _ holds := by
    intro index outside unstored
    rw [TracedMemory.store_trace, List.mem_cons, not_or] at unstored
    rw [TracedMemory.store_cells, if_neg unstored.1]
    exact holds index outside unstored.2

theorem keeps_outside_init {screen : Nat → UInt16} {state : VgaState} {text : List Glyph}
    (holds : KeepsOutside screen state.vgaBuffer text) :
    KeepsOutside screen (vgaInit state).vgaBuffer text := by
  obtain ⟨stored, trace, -⟩ := (vga_init_blanks state).trace
  intro index outside unstored
  rw [trace, List.mem_append, not_or] at unstored
  rw [vga_init_cells, if_neg (Nat.not_lt.mpr outside)]
  exact holds index outside unstored.2

/-- Where a run leaves the cursor, and the cells behind the screen if it stayed on it. -/
theorem history_reached (screen : Nat → UInt16) (history : List VgaCall) :
    Follows (run (bootState screen) history) (textOfRun 0 history) ∧
      KeepsOutside screen (run (bootState screen) history).vgaBuffer (textOfRun 0 history) := by
  have start : KeepsOutside screen (bootState screen).vgaBuffer [] := fun _ _ _ => rfl
  exact run_keeps (keeps_outside_kept screen) history (fun _ _ _ => keeps_outside_init)
    (bootState screen) [] (follows_boot screen) start

/-- After any history on the screen, `vga_init` brings the console back to where all output
goes on as from the boot state exactly when the cursor stands at the top left corner. -/
theorem init_resets_iff (screen : Nat → UInt16) (history : List VgaCall)
    (onScreen : ∀ index ∈ (run (bootState screen) history).vgaBuffer.trace, index < 2000) :
    (∀ later, SameConsole (run (vgaInit (run (bootState screen) history)) later)
        (run (vgaInit (bootState screen)) later)) ↔
      rowAfter (textOfRun 0 history) % 2 ^ 32 = 0 ∧ columnAfter (textOfRun 0 history) = 0 := by
  obtain ⟨follows, outside⟩ := history_reached screen history
  have cursor := vga_init_cursor (run (bootState screen) history)
  have bootCursor := vga_init_cursor (bootState screen)
  have topLeft : (bootState screen).vgaRow.toNat = 0 ∧ (bootState screen).vgaColumn.toNat = 0 :=
    ⟨rfl, rfl⟩
  have rowValue : (run (bootState screen) history).vgaRow.toNat =
      rowAfter (textOfRun 0 history) % 2 ^ 32 := by
    rw [follows.row, UInt32.toNat_ofNat']
  constructor
  · intro resets
    have same := resets []
    rw [run_nil, run_nil] at same
    have sameRow := same.row
    have sameColumn := same.column
    rw [cursor.1, bootCursor.1, ← UInt32.toNat_inj, topLeft.1, rowValue] at sameRow
    rw [cursor.2, bootCursor.2, ← UInt32.toNat_inj, topLeft.2, follows.column] at sameColumn
    exact ⟨sameRow, sameColumn⟩
  · rintro ⟨firstRow, firstColumn⟩ later
    apply same_after_run
    constructor
    · intro index
      rw [vga_init_cells, vga_init_cells]
      by_cases inside : index < 2000
      · rw [if_pos inside, if_pos inside]
      · rw [if_neg inside, if_neg inside]
        exact outside index (Nat.le_of_not_lt inside) fun stored => inside (onScreen index stored)
    · rw [cursor.1, bootCursor.1, ← UInt32.toNat_inj, topLeft.1, rowValue]
      exact firstRow
    · rw [cursor.2, bootCursor.2, ← UInt32.toNat_inj, topLeft.2, follows.column]
      exact firstColumn
    · rw [vga_init_color, vga_init_color]

theorem init_resets_colors :
    (∀ later, SameConsole
        (run (vgaInit (run (bootState fun _ => 0) [.setColor 1 2, .writeString [72, 105]])) later)
        (run (vgaInit (bootState fun _ => 0)) later)) ↔
      rowAfter (textOfRun 0 [.setColor 1 2, .writeString [72, 105]]) % 2 ^ 32 = 0 ∧
        columnAfter (textOfRun 0 [.setColor 1 2, .writeString [72, 105]]) = 0 :=
  init_resets_iff (fun _ => 0) [.setColor 1 2, .writeString [72, 105]] (by decide)

/-- One newline before `vga_init`, and nothing after it. -/
theorem newline_survives_init :
    ¬∀ (screen : Nat → UInt16) (history later : List VgaCall), VgaCall.init ∉ history →
      (∀ index ∈ (run (bootState screen) history).vgaBuffer.trace, index < 2000) →
      SameConsole (run (vgaInit (run (bootState screen) history)) later)
        (run (vgaInit (bootState screen)) later) := by
  intro resets
  have same := resets (fun _ => 0) [.writeString [10]] [] (by decide) (by decide)
  rw [run_nil, run_nil] at same
  have row := same.row
  rw [(vga_init_cursor _).1, (vga_init_cursor _).1] at row
  exact absurd row (by decide)

end FractionsOS.Vga
