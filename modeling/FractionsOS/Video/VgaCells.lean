import FractionsOS.Video.VgaLayout
import Mathlib.Data.List.TakeWhile

/-!
# Characters and colours in the cells

Each byte of text that is not a newline is stored in one cell, so the stores of a run and
the bytes of its text go together, the latest ones first. A byte from `0x80` on is a
negative `char`, and its sign covers the colour.
-/

namespace FractionsOS.Vga

open Library

set_option autoImplicit false

/-- The sign of a negative byte fills the half of the entry that is the colour's. -/
theorem entry_of_negative (color c : UInt8) (negative : 128 ≤ c) :
    vgaEntry color c = glyphCell (c, 255) := by
  have sign : c.toBitVec.msb = true := by
    rw [UInt8.le_iff_toNat_le] at negative
    rw [BitVec.msb_eq_decide]
    exact decide_eq_true negative
  have covered : ∀ bit, (inside : bit < 16) → (0xFF00#16)[bit] = decide (8 ≤ bit) := by
    decide
  apply UInt16.eq_of_toBitVec_eq
  ext bit bound
  have inside : bit < 32 := by omega
  by_cases low : bit < 8
  · have below : ¬8 ≤ bit := Nat.not_le.mpr low
    simp [vgaEntry, glyphCell, BitVec.getElem_signExtend, covered, inside, low, below]
  · have above : 8 ≤ bit := Nat.le_of_not_lt low
    simp [vgaEntry, glyphCell, BitVec.getLsbD_signExtend, covered, inside, sign, low, above]

theorem glyph_cell_color (c color : UInt8) : (glyphCell (c, color) >>> 8).toUInt8 = color := by
  apply UInt8.eq_of_toBitVec_eq
  ext bit bound
  have inside : 8 + bit < 16 := by omega
  have small : bit < 16 := by omega
  simp [glyphCell, inside, small, BitVec.getLsbD_eq_getElem bound]

/-- An entry keeps a byte and a colour apart unless the sign of the byte covers the
colour. -/
theorem entry_is_cell_iff (color c : UInt8) :
    vgaEntry color c = glyphCell (c, color) ↔ c ≤ 127 ∨ color = 255 := by
  by_cases ascii : c ≤ 127
  · exact iff_of_true (entry_of_ascii color c ascii) (Or.inl ascii)
  have negative : 128 ≤ c := by
    rw [UInt8.le_iff_toNat_le] at ascii ⊢
    exact Nat.lt_of_not_le ascii
  rw [entry_of_negative color c negative, or_iff_right ascii]
  constructor
  · intro same
    have high := congrArg (fun cell : UInt16 => (cell >>> 8).toUInt8) same
    rw [glyph_cell_color, glyph_cell_color] at high
    exact high.symm
  · intro white
    rw [white]

def consoleAt (screen : Nat → UInt16) (row column : UInt32) (color : UInt8) : VgaState where
  vgaBuffer := { cells := screen, trace := [] }
  vgaRow := row
  vgaColumn := column
  vgaColor := color

def shownGlyphs (text : List Glyph) : List Glyph := text.filter fun glyph => !isNewline glyph

/-- The cells stored to, each with the byte and the attribute it was written for, latest
first. -/
def writtenCells (buffer : TracedMemory UInt16) (text : List Glyph) : List (Nat × Glyph) :=
  buffer.trace.zip (shownGlyphs text).reverse

/-- Every cell written holds the byte last written to it and the attribute of that byte. -/
def CellsApart (buffer : TracedMemory UInt16) (text : List Glyph) : Prop :=
  ∀ index glyph, (writtenCells buffer text).lookup index = some glyph →
    buffer.cells index = glyphCell glyph

/-- The attribute has the bits that the sign of the byte brings. -/
def Unspoiled (glyph : Glyph) : Prop := glyph.1 ≤ 127 ∨ glyph.2 = 255

/-- There are as many stores as bytes to show. -/
def InStep (state : VgaState) (text : List Glyph) : Prop :=
  state.vgaBuffer.trace.length = (shownGlyphs text).length

theorem shown_glyphs_newline (text : List Glyph) (color : UInt8) :
    shownGlyphs (text ++ [(newlineByte, color)]) = shownGlyphs text := by
  rw [shownGlyphs, List.filter_append]
  exact List.append_nil _

theorem shown_glyphs_byte (text : List Glyph) {c : UInt8} (ordinary : c ≠ newlineByte)
    (color : UInt8) : shownGlyphs (text ++ [(c, color)]) = shownGlyphs text ++ [(c, color)] := by
  have shown : isNewline (c, color) = false := by simpa [isNewline] using ordinary
  rw [shownGlyphs, List.filter_append, List.filter_singleton, shown]
  rfl

theorem written_cells_store (buffer : TracedMemory UInt16) (text : List Glyph) {c : UInt8}
    (ordinary : c ≠ newlineByte) (color : UInt8) (index : Nat) (value : UInt16) :
    writtenCells (buffer.store index value) (text ++ [(c, color)]) =
      (index, (c, color)) :: writtenCells buffer text := by
  rw [writtenCells, shown_glyphs_byte text ordinary, List.reverse_append]
  rfl

/-- What a byte of text does to the console, wherever the cursor is. -/
theorem write_byte_stores (state : VgaState) (c : UInt8) :
    (vgaWriteByte state c).vgaColor = state.vgaColor ∧
      if c = newlineByte then (vgaWriteByte state c).vgaBuffer = state.vgaBuffer
      else ∃ index, (vgaWriteByte state c).vgaBuffer =
        state.vgaBuffer.store index (vgaEntry state.vgaColor c) := by
  by_cases newline : c = newlineByte
  · rw [if_pos newline, vgaWriteByte, if_pos newline]
    exact ⟨rfl, rfl⟩
  · rw [if_neg newline, vgaWriteByte, if_neg newline]
    by_cases full : state.vgaColumn ≥ vgaWidth
    · rw [if_pos full]
      exact ⟨rfl, _, rfl⟩
    · rw [if_neg full]
      exact ⟨rfl, _, rfl⟩

theorem write_byte_in_step {state : VgaState} {text : List Glyph} (inStep : InStep state text)
    (c : UInt8) : InStep (vgaWriteByte state c) (text ++ [(c, state.vgaColor)]) := by
  have stores := (write_byte_stores state c).2
  unfold InStep at inStep ⊢
  by_cases newline : c = newlineByte
  · rw [if_pos newline] at stores
    rw [stores, newline, shown_glyphs_newline]
    exact inStep
  · rw [if_neg newline] at stores
    obtain ⟨index, stored⟩ := stores
    rw [stored, shown_glyphs_byte text newline, List.length_append, ← inStep]
    rfl

theorem write_byte_apart {state : VgaState} {text : List Glyph}
    (apart : CellsApart state.vgaBuffer text) (c : UInt8)
    (unspoiled : c ≠ newlineByte → Unspoiled (c, state.vgaColor)) :
    CellsApart (vgaWriteByte state c).vgaBuffer (text ++ [(c, state.vgaColor)]) := by
  have stores := (write_byte_stores state c).2
  by_cases newline : c = newlineByte
  · rw [if_pos newline] at stores
    unfold CellsApart writtenCells at apart ⊢
    rw [stores, newline, shown_glyphs_newline]
    exact apart
  · rw [if_neg newline] at stores
    obtain ⟨place, stored⟩ := stores
    intro index glyph latest
    rw [stored, written_cells_store _ text newline, List.lookup_cons] at latest
    rw [stored, TracedMemory.store_cells]
    by_cases here : index = place
    · rw [if_pos here]
      rw [beq_iff_eq.mpr here] at latest
      rw [← Option.some.inj latest]
      exact (entry_is_cell_iff state.vgaColor c).mpr (unspoiled newline)
    · rw [if_neg here]
      rw [beq_eq_false_iff_ne.mpr here] at latest
      exact apart index glyph latest

theorem write_string_color (state : VgaState) (bytes : List UInt8) :
    (bytes.foldl vgaWriteByte state).vgaColor = state.vgaColor := by
  induction bytes generalizing state with
  | nil => rfl
  | cons c bytes induction =>
      rw [List.foldl_cons, induction]
      exact (write_byte_stores state c).1

theorem step_color (state : VgaState) (call : VgaCall) :
    (step state call).vgaColor = colorAfter state.vgaColor call := by
  cases call with
  | init => exact vga_init_color state
  | setColor fg bg => rfl
  | writeString data =>
      rw [step, write_string_eq_fold]
      exact write_string_color state _

theorem run_color (state : VgaState) (calls : List VgaCall) :
    (run state calls).vgaColor = calls.foldl colorAfter state.vgaColor := by
  induction calls generalizing state with
  | nil => rfl
  | cons call calls induction =>
      rw [List.foldl_cons, ← step_color]
      exact induction (step state call)

theorem run_append (state : VgaState) (first second : List VgaCall) :
    run state (first ++ second) = run (run state first) second := List.foldl_append

theorem text_of_run_append (color : UInt8) (first second : List VgaCall) :
    textOfRun color (first ++ second) =
      textOfRun color first ++ textOfRun (first.foldl colorAfter color) second := by
  induction first generalizing color with
  | nil => rfl
  | cons call first induction =>
      rw [List.cons_append, textOfRun, textOfRun, induction, List.append_assoc]
      rfl

structure KeptByBytes (allowed : Glyph → Prop) (related : VgaState → List Glyph → Prop) :
    Prop where
  byte : ∀ state text c, allowed (c, state.vgaColor) → related state text →
    related (vgaWriteByte state c) (text ++ [(c, state.vgaColor)])
  color : ∀ state text fg bg, related state text → related (vgaSetColor state fg bg) text

section Kept

variable {allowed : Glyph → Prop} {related : VgaState → List Glyph → Prop}

theorem bytes_keep (kept : KeptByBytes allowed related) (bytes : List UInt8) {state : VgaState}
    {text : List Glyph} (holds : related state text)
    (each : ∀ c ∈ bytes, allowed (c, state.vgaColor)) :
    related (bytes.foldl vgaWriteByte state) (text ++ bytes.map fun c => (c, state.vgaColor)) := by
  induction bytes generalizing state text with
  | nil =>
      rw [List.map_nil, List.append_nil]
      exact holds
  | cons c bytes induction =>
      have same := (write_byte_stores state c).1
      have first := kept.byte state text c (each c List.mem_cons_self) holds
      have rest := induction first (by
        rw [same]
        exact fun other member => each other (List.mem_cons_of_mem c member))
      rw [same, List.append_assoc] at rest
      exact rest

theorem calls_keep (kept : KeptByBytes allowed related) (calls : List VgaCall)
    (noInit : VgaCall.init ∉ calls) {state : VgaState} {text : List Glyph}
    (holds : related state text) (each : ∀ glyph ∈ textOfRun state.vgaColor calls, allowed glyph) :
    related (run state calls) (text ++ textOfRun state.vgaColor calls) := by
  induction calls generalizing state text with
  | nil =>
      rw [textOfRun, List.append_nil]
      exact holds
  | cons call calls induction =>
      rw [List.mem_cons, not_or] at noInit
      rw [textOfRun] at each ⊢
      have here := fun glyph member => each glyph (List.mem_append_left _ member)
      have later := fun glyph member => each glyph (List.mem_append_right _ member)
      rw [← step_color] at later ⊢
      rw [← List.append_assoc]
      refine induction noInit.2 ?_ later
      cases call with
      | init => exact absurd rfl noInit.1
      | setColor fg bg =>
          rw [textOfCall, List.append_nil]
          exact kept.color state text fg bg holds
      | writeString data =>
          rw [step, write_string_eq_fold]
          apply bytes_keep kept _ holds
          intro c member
          exact here (c, state.vgaColor) (List.mem_map_of_mem member)

end Kept

theorem in_step_kept : KeptByBytes (fun _ => True) InStep where
  byte _ _ c _ inStep := write_byte_in_step inStep c
  color _ _ _ _ inStep := inStep

theorem apart_kept : KeptByBytes (fun glyph => isNewline glyph = false → Unspoiled glyph)
    fun state text => CellsApart state.vgaBuffer text where
  byte state _ c unspoiled apart := write_byte_apart apart c fun ordinary =>
    unspoiled (by simpa [isNewline] using ordinary)
  color _ _ _ _ apart := apart

/-- What a run has done behind some call of it, or behind some byte of one. -/
def InitialPart (part calls : List VgaCall) : Prop :=
  part <+: calls ∨ ∃ earlier data bytes, earlier ++ [.writeString data] <+: calls ∧
    bytes <+: data ∧ part = earlier ++ [.writeString bytes]

theorem string_bytes_initial {bytes data : List UInt8} (initial : bytes <+: data) :
    stringBytes bytes <+: stringBytes data := by
  obtain ⟨more, rfl⟩ := initial
  rw [stringBytes, stringBytes, List.takeWhile_append]
  split_ifs with whole
  · rw [(List.takeWhile_prefix _).eq_of_length whole]
    exact List.prefix_append _ _
  · exact List.prefix_refl _

theorem text_of_string (color : UInt8) (data : List UInt8) :
    textOfRun color [.writeString data] = (stringBytes data).map fun c => (c, color) :=
  List.append_nil _

theorem part_text {part calls : List VgaCall} (initial : InitialPart part calls) (color : UInt8) :
    textOfRun color part <+: textOfRun color calls := by
  rcases initial with ⟨later, rfl⟩ | ⟨earlier, data, bytes, ⟨later, rfl⟩, inString, rfl⟩
  · rw [text_of_run_append]
    exact List.prefix_append _ _
  · rw [List.append_assoc, text_of_run_append, text_of_run_append, text_of_run_append,
      text_of_string, text_of_string]
    apply (List.prefix_append_right_inj _).mpr
    exact ((string_bytes_initial inString).map _).trans (List.prefix_append _ _)

theorem part_without_init {part calls : List VgaCall} (initial : InitialPart part calls)
    (noInit : VgaCall.init ∉ calls) : VgaCall.init ∉ part := by
  rcases initial with whole | ⟨earlier, data, bytes, whole, -, rfl⟩
  · exact fun member => noInit (whole.subset member)
  · intro member
    rcases List.mem_append.mp member with before | last
    · exact noInit (whole.subset (List.mem_append_left _ before))
    · cases List.mem_singleton.mp last

theorem part_behind {part calls : List VgaCall} (initial : InitialPart part calls)
    (call : VgaCall) : InitialPart (call :: part) (call :: calls) := by
  rcases initial with whole | ⟨earlier, data, bytes, whole, inString, rfl⟩
  · exact Or.inl (List.cons_prefix_cons.mpr ⟨rfl, whole⟩)
  · exact Or.inr ⟨call :: earlier, data, bytes, List.cons_prefix_cons.mpr ⟨rfl, whole⟩, inString, rfl⟩

theorem glyph_ends_part {calls : List VgaCall} {color : UInt8} {glyph : Glyph}
    (member : glyph ∈ textOfRun color calls) :
    ∃ earlier bytes, InitialPart (earlier ++ [.writeString (bytes ++ [glyph.1])]) calls ∧
      (∀ c ∈ bytes ++ [glyph.1], c ≠ 0) ∧ glyph.2 = earlier.foldl colorAfter color := by
  induction calls generalizing color with
  | nil => cases member
  | cons call calls induction =>
      rw [textOfRun] at member
      rcases List.mem_append.mp member with here | later
      · cases call with
        | init => cases here
        | setColor fg bg => cases here
        | writeString data =>
            obtain ⟨c, inString, rfl⟩ := List.mem_map.mp here
            obtain ⟨bytes, after, split⟩ := List.append_of_mem inString
            have initial : bytes ++ [c] <+: stringBytes data := by
              rw [split]
              exact ⟨after, by simp⟩
            refine ⟨[], bytes, Or.inr ⟨[], data, bytes ++ [c], ?_, ?_, rfl⟩, ?_, rfl⟩
            · exact ⟨calls, rfl⟩
            · exact initial.trans (List.takeWhile_prefix _)
            · intro other inside
              simpa using List.mem_takeWhile_imp (initial.subset inside)
      · obtain ⟨earlier, bytes, initial, nonzero, color⟩ := induction later
        exact ⟨call :: earlier, bytes, part_behind initial call, nonzero, color⟩

theorem run_in_step (screen : Nat → UInt16) (row column : UInt32) (color : UInt8)
    (calls : List VgaCall) (noInit : VgaCall.init ∉ calls) :
    InStep (run (consoleAt screen row column color) calls) (textOfRun color calls) := by
  have start : InStep (consoleAt screen row column color) [] := rfl
  exact calls_keep in_step_kept calls noInit start fun _ _ => trivial

/-- In every state of a run there is one store for each byte to show, and all cells written
hold their byte and its attribute exactly when the run writes no byte from `0x80` on but in the
attribute `0xFF`. -/
theorem cells_apart_iff (screen : Nat → UInt16) (row column : UInt32) (color : UInt8)
    (calls : List VgaCall) (noInit : VgaCall.init ∉ calls) :
    (∀ part, InitialPart part calls →
      InStep (run (consoleAt screen row column color) part) (textOfRun color part) ∧
        CellsApart (run (consoleAt screen row column color) part).vgaBuffer
          (textOfRun color part)) ↔
      ∀ glyph ∈ textOfRun color calls, isNewline glyph = false → Unspoiled glyph := by
  constructor
  · intro apart glyph member ordinary
    obtain ⟨earlier, bytes, initial, nonzero, inEffect⟩ := glyph_ends_part member
    have newest : glyph.1 ≠ newlineByte := by simpa [isNewline] using ordinary
    have whole : stringBytes (bytes ++ [glyph.1]) = bytes ++ [glyph.1] := by
      apply List.takeWhile_eq_self_iff.mpr
      intro c inside
      simpa using nonzero c inside
    -- the console before the byte, and the store that it makes
    let before := bytes.foldl vgaWriteByte (run (consoleAt screen row column color) earlier)
    have attributeBefore : before.vgaColor = glyph.2 := by
      rw [inEffect, write_string_color, run_color]
      rfl
    have stores := (write_byte_stores before glyph.1).2
    rw [if_neg newest, attributeBefore] at stores
    obtain ⟨index, stored⟩ := stores
    have ran : run (consoleAt screen row column color)
        (earlier ++ [.writeString (bytes ++ [glyph.1])]) = vgaWriteByte before glyph.1 := by
      rw [run_append, run, List.foldl_cons, List.foldl_nil, step, write_string_eq_fold, whole,
        List.foldl_append]
      rfl
    have text : textOfRun color (earlier ++ [.writeString (bytes ++ [glyph.1])]) =
        (textOfRun color earlier ++ bytes.map fun c => (c, glyph.2)) ++ [glyph] := by
      rw [text_of_run_append, text_of_string, whole, List.map_append, ← inEffect,
        List.append_assoc]
      rfl
    have held := (apart _ initial).2 index glyph
    rw [ran, text, stored, written_cells_store _ _ newest, List.lookup_cons_self,
      TracedMemory.store_cells, if_pos rfl] at held
    exact (entry_is_cell_iff glyph.2 glyph.1).mp (held rfl)
  · intro unspoiled part initial
    have start : CellsApart (consoleAt screen row column color).vgaBuffer [] := by
      intro index glyph latest
      cases latest
    have noInitPart := part_without_init initial noInit
    refine ⟨run_in_step screen row column color part noInitPart, ?_⟩
    apply calls_keep apart_kept part noInitPart start
    intro glyph member
    exact unspoiled glyph ((part_text initial color).subset member)

theorem cells_apart_letter :
    (∀ part, InitialPart part [.setColor 4 1, .writeString [65]] →
      InStep (run (consoleAt (fun _ => 0) 0 0 7) part) (textOfRun 7 part) ∧
        CellsApart (run (consoleAt (fun _ => 0) 0 0 7) part).vgaBuffer (textOfRun 7 part)) ↔
      ∀ glyph ∈ textOfRun 7 [.setColor 4 1, .writeString [65]],
        isNewline glyph = false → Unspoiled glyph :=
  cells_apart_iff (fun _ => 0) 0 0 7 [.setColor 4 1, .writeString [65]] (by decide)

/-- A single byte `0x80` in light grey. -/
theorem high_byte_spoils_color :
    ¬∀ (screen : Nat → UInt16) (calls : List VgaCall), VgaCall.init ∉ calls →
      (∀ index ∈ (run (bootState screen) calls).vgaBuffer.trace, index < 2000) →
      CellsApart (run (bootState screen) calls).vgaBuffer (textOfRun 0 calls) := by
  intro apart
  have cell := apart (fun _ => 0) [.setColor 7 0, .writeString [128]] (by decide) (by decide) 0
    (128, 7) (by decide)
  exact absurd cell (by decide)

end FractionsOS.Vga
