import FractionsOS.Video.PrintkText
import FractionsOS.Video.VgaLayout

/-!
# Formatted text on the screen

`printk` hands at most 255 bytes of an expansion to the console. A run that mixes its calls
with those of the console shows the page of the texts, one behind the other, and a format
may be cut into several calls.
-/

namespace FractionsOS.Vga

open Library

set_option autoImplicit false

section Call

variable {format : Nat → UInt8} {args : Nat → List UInt8}

theorem finished_prints {pieces : List Piece} {stack : Nat → UInt8} {final : PrintkState}
    (expanded : Expanded format args pieces final) {budget : Nat}
    (ran : printkLoop format args budget (printkStart stack) = (true, final)) :
    Prints format args stack budget (expand args pieces 0) (argumentsIn pieces) := by
  have ended : printkBuffer format args stack budget =
      (true, { final with buffer := final.buffer.store final.i 0 }) := by
    rw [printkBuffer, ran]
    rfl
  have text : PrintkState.text { final with buffer := final.buffer.store final.i 0 } =
      expand args pieces 0 := by
    rw [← expanded.stored.cells, PrintkState.text, PrintkState.text]
    apply List.map_congr_left
    intro index inside
    rw [TracedMemory.store_cells, if_neg (Nat.ne_of_lt (List.mem_range.mp inside))]
  constructor
  · rw [ended, spells_append]
    refine ⟨spells_list final.i text, ?_, trivial⟩
    rw [← stored_index expanded.stored, Nat.zero_add, TracedMemory.store_cells, if_pos rfl]
  · exact expand_nonzero args pieces 0
  · rw [ended]
    exact expanded.taken
  · intro console
    rw [printk, ended, ← text]
    rfl

/-- A format of whole pieces is printed up to the piece before which 255 bytes are full. -/
theorem consists_prints {format : FormatString} {pieces : List Piece}
    (consists : format.Consists pieces) (args : Nat → List UInt8) (stack : Nat → UInt8) :
    ∃ done rest, pieces = done ++ rest ∧ EachBegins args done ∧
      (rest = [] ∨ 255 ≤ (expand args done 0).length) ∧
      ∀ budget, pieces.length < budget →
        Prints format.cells args stack budget (expand args done 0) (argumentsIn done) := by
  have spelled : Spells format.cells (printkStart stack).fmt (formatBytes pieces ++ [0]) := by
    change Spells format.cells 0 _
    rw [spells_append, Nat.zero_add, consists.whole]
    exact ⟨consists.spelled, format.terminated, trivial⟩
  have start : Expanded format.cells args [] (printkStart stack) := expanded_start stack
  rcases loop_finishes pieces start (by simp [EachBegins]) spelled with
    ⟨done, rest, final, same, expanded, begins, stops, runs⟩
  rw [List.nil_append] at expanded begins stops
  refine ⟨done, rest, same, begins, stops, ?_⟩
  intro budget enough
  exact finished_prints expanded (runs budget enough)

end Call

/-- A call of `printk` that stays inside its buffer, over whatever the stack holds. -/
structure PrintRequest where
  format : FormatString
  pieces : List Piece
  consists : format.Consists pieces
  args : Nat → List UInt8
  stack : Nat → UInt8
  fit : ArgumentsFit format.cells args

def PrintRequest.text (request : PrintRequest) : List UInt8 :=
  (expand request.args request.pieces 0).take 255

theorem request_prints (request : PrintRequest) :
    ∃ taken, ∀ budget, request.pieces.length < budget →
      Prints request.format.cells request.args request.stack budget request.text taken := by
  rcases consists_prints request.consists request.args request.stack with
    ⟨done, rest, same, begins, stops, prints⟩
  have spelled : Spells request.format.cells 0 (formatBytes done) := by
    have whole := request.consists.spelled
    rw [same, formatBytes, List.flatMap_append, spells_append] at whole
    exact whole.1
  have inside : (expand request.args done 0).length ≤ 255 := by
    apply expansion_fits request.fit spelled
    intro earlier last ending
    exact begins earlier last [] ending
  have text : request.text = expand request.args done 0 := by
    rw [PrintRequest.text, same, expand_append]
    rcases stops with rfl | full
    · rw [expand, List.append_nil, List.take_of_length_le inside]
    · exact List.take_left' (Nat.le_antisymm inside full)
  rw [text]
  exact ⟨argumentsIn done, prints⟩

inductive ConsoleCall where
  | vga (call : VgaCall)
  | print (request : PrintRequest)

def ConsoleCall.onVga : ConsoleCall → VgaCall
  | .vga call => call
  | .print request => .writeString request.text

def consoleStep (budget : Nat) (console : VgaState) : ConsoleCall → Option VgaState
  | .vga call => some (step console call)
  | .print request => printk request.format.cells request.args request.stack budget console

def runConsole (budget : Nat) (console : VgaState) (calls : List ConsoleCall) : Option VgaState :=
  calls.foldlM (consoleStep budget) console

theorem console_runs (calls : List ConsoleCall) :
    ∃ enough, ∀ budget, enough ≤ budget → ∀ console,
      runConsole budget console calls = some (run console (calls.map ConsoleCall.onVga)) := by
  induction calls with
  | nil => exact ⟨0, fun _ _ _ => rfl⟩
  | cons call calls induction =>
      rcases induction with ⟨enough, runs⟩
      cases call with
      | vga call =>
          refine ⟨enough, ?_⟩
          intro budget large console
          exact runs budget large (step console call)
      | print request =>
          rcases request_prints request with ⟨taken, prints⟩
          refine ⟨max enough (request.pieces.length + 1), ?_⟩
          intro budget large console
          have here := (prints budget (by omega)).console console
          rw [runConsole, List.foldlM_cons, consoleStep, here]
          exact runs budget (by omega) (vgaWriteString console request.text)

/-- After the boot-time `vga_init`, strings, colours and formatted text in any order show
the page of all texts, each expansion cut behind its 255th byte. -/
theorem console_shows_page (screen : Nat → UInt16) (calls : List ConsoleCall)
    (noInit : VgaCall.init ∉ calls.map ConsoleCall.onVga)
    (ascii : ∀ glyph ∈ textOfRun initColor (calls.map ConsoleCall.onVga), glyph.1 ≤ 127)
    (fits : FitsScreen (textOfRun initColor (calls.map ConsoleCall.onVga))) :
    ∃ enough, ∀ budget, enough ≤ budget →
      ∃ final, runConsole budget (vgaInit (bootState screen)) calls = some final ∧
        ∀ row column, row < 25 → column < 80 → final.vgaBuffer.cells (row * 80 + column) =
          pageCell (textOfRun initColor (calls.map ConsoleCall.onVga)) row column := by
  rcases console_runs calls with ⟨enough, runs⟩
  refine ⟨enough, ?_⟩
  intro budget large
  refine ⟨_, runs budget large _, ?_⟩
  intro row column inRows inColumns
  exact screen_shows_page screen _ noInit ascii fits row column inRows inColumns

theorem piece_unique {format : Nat → UInt8} {offset : Nat} {piece other : Piece}
    (here : Spells format offset piece.bytes) (there : Spells format offset other.bytes) :
    piece = other := by
  cases piece with
  | literal c ordinary =>
      cases other with
      | literal other _ =>
          have same : c = other := here.1.symm.trans there.1
          subst same
          rfl
      | directive other => exact absurd (here.1.symm.trans there.1) ordinary.2
  | directive c =>
      cases other with
      | literal other ordinary => exact absurd (there.1.symm.trans here.1) ordinary.2
      | directive other => exact congrArg Piece.directive (here.2.1.symm.trans there.2.1)

theorem pieces_unique {format : Nat → UInt8} {offset : Nat} {pieces all : List Piece}
    (begun : Spells format offset (formatBytes pieces))
    (whole : Spells format offset (formatBytes all ++ [0])) : ∃ rest, all = pieces ++ rest := by
  induction pieces generalizing offset all with
  | nil => exact ⟨all, rfl⟩
  | cons piece pieces induction =>
      rw [formatBytes, List.flatMap_cons, spells_append] at begun
      have more := piece_not_end begun.1
      cases all with
      | nil => exact absurd whole.1 more
      | cons first all =>
          rw [formatBytes, List.flatMap_cons, List.append_assoc, spells_append] at whole
          have same := piece_unique whole.1 begun.1
          subst same
          rcases induction begun.2 whole.2 with ⟨rest, later⟩
          exact ⟨rest, congrArg (List.cons first) later⟩

theorem short_fits {format : FormatString} {pieces : List Piece}
    (consists : format.Consists pieces) {args : Nat → List UInt8}
    (short : (expand args pieces 0).length ≤ 255) : ArgumentsFit format.cells args := by
  intro begun spelled _
  have whole : Spells format.cells 0 (formatBytes pieces ++ [0]) := by
    rw [spells_append, Nat.zero_add, consists.whole]
    exact ⟨consists.spelled, format.terminated, trivial⟩
  rcases pieces_unique spelled whole with ⟨rest, same⟩
  rw [same, expand_append, List.length_append] at short
  omega

theorem letters_consist : letterFormat.Consists letterPieces :=
  ⟨⟨rfl, rfl, rfl, rfl, trivial⟩, rfl⟩

def letterRequest : PrintRequest where
  format := letterFormat
  pieces := letterPieces
  consists := letters_consist
  args _ := [65, 66]
  stack _ := 0
  fit := short_fits letters_consist (by decide)

theorem console_shows_page_letters :
    let calls := [.print letterRequest, .vga (.setColor 4 1), .print letterRequest]
    let text := textOfRun initColor (calls.map ConsoleCall.onVga)
    ∃ enough, ∀ budget, enough ≤ budget →
      ∃ final, runConsole budget (vgaInit (bootState fun _ => 0)) calls = some final ∧
        ∀ row column, row < 25 → column < 80 →
          final.vgaBuffer.cells (row * 80 + column) = pageCell text row column := by
  intro calls text
  have ascii : (text.all fun glyph => glyph.1 ≤ 127) = true := by decide
  apply console_shows_page (fun _ => 0) calls (by decide)
  · exact fun glyph member => of_decide_eq_true (List.all_eq_true.mp ascii glyph member)
  · exact fits_of_row_count text (by decide)

/-- A part of a format as a format of its own, and what the stack holds when it is printed. -/
structure FormatPart where
  format : FormatString
  pieces : List Piece
  consists : format.Consists pieces
  stack : Nat → UInt8

/-- One call for each part, with the arguments that the parts before it have left. -/
def printParts (args : Nat → List UInt8) (budget : Nat) (console : VgaState) :
    List FormatPart → Option VgaState
  | [] => some console
  | part :: parts =>
      (printk part.format.cells args part.stack budget console).bind fun console =>
        printParts (fun n => args (argumentsIn part.pieces + n)) budget console parts

theorem expand_shifted (args : Nat → List UInt8) (pieces : List Piece) (before taken : Nat) :
    expand args pieces (before + taken) = expand (fun n => args (before + n)) pieces taken := by
  induction pieces generalizing taken with
  | nil => rfl
  | cons piece pieces induction => rw [expand, expand, Nat.add_assoc, induction]

theorem short_prints {format : FormatString} {pieces : List Piece}
    (consists : format.Consists pieces) {args : Nat → List UInt8}
    (short : (expand args pieces 0).length ≤ 255) (stack : Nat → UInt8) {budget : Nat}
    (enough : pieces.length < budget) (console : VgaState) :
    printk format.cells args stack budget console =
      some (vgaWriteString console (expand args pieces 0)) := by
  let request : PrintRequest := ⟨format, pieces, consists, args, stack, short_fits consists short⟩
  rcases request_prints request with ⟨taken, prints⟩
  have printed := (prints budget enough).console console
  rw [PrintRequest.text, List.take_of_length_le short] at printed
  exact printed

theorem write_string_append (console : VgaState) {first : List UInt8}
    (nonzero : ∀ c ∈ first, c ≠ 0) (second : List UInt8) :
    vgaWriteString console (first ++ second) =
      vgaWriteString (vgaWriteString console first) second := by
  have whole : stringBytes first = first :=
    List.takeWhile_eq_self_iff.mpr fun c member => decide_eq_true (nonzero c member)
  have joined : stringBytes (first ++ second) = first ++ stringBytes second :=
    List.takeWhile_append_of_pos fun c member => decide_eq_true (nonzero c member)
  rw [write_string_eq_fold, joined, List.foldl_append, write_string_eq_fold, write_string_eq_fold,
    whole]

/-- A format printed in one call or in parts, one call for each, leaves the same console. -/
theorem printk_in_parts (parts : List FormatPart) (format : FormatString)
    (joined : format.Consists (parts.flatMap FormatPart.pieces)) (args : Nat → List UInt8)
    (short : (expand args (parts.flatMap FormatPart.pieces) 0).length ≤ 255)
    (stack : Nat → UInt8) (console : VgaState) :
    ∀ budget, (parts.flatMap FormatPart.pieces).length < budget →
      ∃ final, printk format.cells args stack budget console = some final ∧
        printParts args budget console parts = some final := by
  intro budget enough
  refine ⟨_, short_prints joined short stack enough console, ?_⟩
  clear joined
  induction parts generalizing args console with
  | nil => rfl
  | cons part parts induction =>
      rw [List.flatMap_cons] at short enough ⊢
      rw [expand_append, Nat.zero_add, List.length_append] at short
      rw [List.length_append] at enough
      have fits : (expand args part.pieces 0).length ≤ 255 := by omega
      have passes : part.pieces.length < budget := by omega
      have later : expand args (parts.flatMap FormatPart.pieces) (argumentsIn part.pieces) =
          expand (fun n => args (argumentsIn part.pieces + n)) (parts.flatMap FormatPart.pieces) 0 :=
        expand_shifted args _ (argumentsIn part.pieces) 0
      rw [later] at short
      have rest := induction _ (Nat.le_of_add_left_le short)
        (vgaWriteString console (expand args part.pieces 0)) (by omega)
      rw [printParts, short_prints part.consists fits part.stack passes, Option.bind_some, rest,
        expand_append, Nat.zero_add, later,
        write_string_append console (expand_nonzero args part.pieces 0)]

theorem letter_a : (97 : UInt8) ≠ 0 ∧ (97 : UInt8) ≠ percentByte := by decide

theorem letter_b : (98 : UInt8) ≠ 0 ∧ (98 : UInt8) ≠ percentByte := by decide

def letterParts : List FormatPart :=
  [{ format := ⟨fun offset => [97, percentByte, stringByte].getD offset 0, 3, rfl, by decide⟩
     pieces := [.literal 97 letter_a, .directive stringByte]
     consists := ⟨⟨rfl, rfl, rfl, trivial⟩, rfl⟩
     stack := fun _ => 0 },
   { format := ⟨fun offset => [98].getD offset 0, 1, rfl, by decide⟩
     pieces := [.literal 98 letter_b]
     consists := ⟨⟨rfl, trivial⟩, rfl⟩
     stack := fun _ => 1 }]

theorem printk_in_parts_letters :
    ∃ final,
      printk letterFormat.cells (fun _ => [65, 66]) (fun _ => 0) 4 (bootState fun _ => 0) =
        some final ∧
      printParts (fun _ => [65, 66]) 4 (bootState fun _ => 0) letterParts = some final :=
  printk_in_parts letterParts letterFormat letters_consist (fun _ => [65, 66]) (by decide)
    (fun _ => 0) (bootState fun _ => 0) 4 (by decide)

end FractionsOS.Vga
