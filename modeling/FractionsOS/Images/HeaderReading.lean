import FractionsOS.Images.Encode
import FractionsOS.Library.CHeader

/-!
# Reading the encoder's headers back

The header of an image, cut into its lines, read as C: its macros and the array
it declares are those the encoder was given.
-/

namespace FractionsOS.Encode

open Library.Numerals Library.CHeader

set_option autoImplicit false

theorem upper_word_char : ∀ code : Fin 128, isWordChar (Char.ofNat code) = true →
    isWordChar (Char.ofNat code).toUpper = true := by
  decide

theorem newline_not_in_word {alphabet : Alphabet} {text : List Char}
    (word : ∀ c ∈ text, alphabet.wordChar c = true) : '\n' ∉ text := by
  intro member
  have newline := word _ member
  rw [alphabet.ascii '\n' (by decide) (by decide)] at newline
  exact absurd newline (by decide)

theorem upper_word_chars {name : List Char} (isWord : ∀ c ∈ name, isWordChar c = true) :
    ∀ c ∈ name.map Char.toUpper, isWordChar c = true := by
  intro c member
  rcases List.mem_map.mp member with ⟨lower, original, rfl⟩
  have upper := upper_word_char ⟨lower.toNat, word_char_is_ascii (isWord lower original)⟩
  rw [Char.ofNat_toNat] at upper
  exact upper (isWord lower original)

def macroName (upper : List Char) (suffix : String) : List Char := upper ++ suffix.toList

section Header

variable (upper filename : List Char) (image : RgbaImage)

def openingLines : List (List Char) :=
  ["#ifndef ".toList ++ macroName upper "_H",
    "#define ".toList ++ macroName upper "_H",
    [],
    "#include <stdint.h>".toList,
    [],
    "#define ".toList ++ (macroName upper "_WIDTH" ++ ' ' :: numeral 10 image.width),
    "#define ".toList ++ (macroName upper "_HEIGHT" ++ ' ' :: numeral 10 image.height),
    [],
    "static const uint64_t ".toList ++ (filename ++ "[] = \x7b".toList)]

def closingLines : List (List Char) := ["\x7d;".toList, [], "#endif".toList]

def headerLines : List (List Char) :=
  openingLines upper filename image ++ (List.range image.height).map (rowText image) ++ closingLines

theorem text_is_lines :
    headerText upper filename image = (headerLines upper filename image).flatMap line := by
  simp only [headerText, headerLines, openingLines, closingLines, macroName,
    List.flatMap_append, List.flatMap_cons, List.flatMap_nil, List.flatMap_map, List.append_assoc,
    List.cons_append, List.nil_append, List.append_nil, -String.reduceToList]

theorem macro_name_is_word {alphabet : Alphabet} {upper : List Char}
    (upperWord : ∀ c ∈ upper, alphabet.wordChar c = true) (suffix : String)
    (suffixWord : IsWord .basic suffix.toList) : IsWord alphabet (macroName upper suffix) := by
  constructor
  · intro empty
    exact suffixWord.1 (List.append_eq_nil_iff.mp empty).2
  · intro c member
    rcases List.mem_append.mp member with named | suffixed
    · exact upperWord c named
    · exact (basic_is_word suffixWord).2 c suffixed

theorem newline_not_in_append {left right : List Char} (first : '\n' ∉ left)
    (second : '\n' ∉ right) : '\n' ∉ left ++ right := by
  rw [List.mem_append]
  rintro (member | member)
  · exact first member
  · exact second member

theorem row_text_newline (y : Nat) : '\n' ∉ rowText image y := by
  intro member
  rcases List.mem_append.mp member with indent | pixels
  · exact absurd indent (by decide)
  · rcases List.mem_flatMap.mp pixels with ⟨x, -, pixel⟩
    rcases List.mem_append.mp pixel with hex | comma
    · exact @newline_not_in_word .basic _ (hexadecimal_is_word 8 _).2 hex
    · exact absurd comma (by decide)

variable {alphabet : Alphabet} {upper filename} (isWord : IsWord alphabet filename)
  (upperWord : ∀ c ∈ upper, alphabet.wordChar c = true)

include isWord upperWord

theorem header_lines_single : ∀ text ∈ headerLines upper filename image, '\n' ∉ text := by
  have guard := newline_not_in_word (macro_name_is_word upperWord "_H" (by decide)).2
  have width := newline_not_in_word (macro_name_is_word upperWord "_WIDTH" (by decide)).2
  have height := newline_not_in_word (macro_name_is_word upperWord "_HEIGHT" (by decide)).2
  have numeralText : ∀ number, '\n' ∉ ' ' :: numeral 10 number := fun number =>
    List.not_mem_cons_of_ne_of_not_mem (by decide)
      (@newline_not_in_word .basic _ (decimal_is_word number).2)
  have name := newline_not_in_word isWord.2
  unfold headerLines openingLines closingLines
  simp only [List.forall_mem_append, List.forall_mem_cons, List.forall_mem_map,
    -String.reduceToList]
  refine ⟨⟨⟨?_, ?_, by decide, by decide, by decide, ?_, ?_, by decide, ?_, by decide⟩, ?_⟩,
    by decide, by decide, by decide, by decide⟩
  · exact newline_not_in_append (by decide) guard
  · exact newline_not_in_append (by decide) guard
  · exact newline_not_in_append (by decide) (newline_not_in_append width (numeralText _))
  · exact newline_not_in_append (by decide) (newline_not_in_append height (numeralText _))
  · exact newline_not_in_append (by decide) (newline_not_in_append name (by decide))
  · exact fun y _ => row_text_newline image y

omit isWord upperWord

variable (upper filename)

def declaratorTokens : List Token :=
  [.word "static".toList, .word "const".toList, .word "uint64_t".toList, .word filename,
    .mark '[', .mark ']', .mark '=', .mark '{']

def openingTokens : List (List Token) :=
  [[.mark '#', .word "ifndef".toList, .word (macroName upper "_H")],
    [.mark '#', .word "define".toList, .word (macroName upper "_H")],
    [],
    [.mark '#', .word "include".toList, .mark '<', .word "stdint".toList, .mark '.',
      .word "h".toList, .mark '>'],
    [],
    [.mark '#', .word "define".toList, .word (macroName upper "_WIDTH"),
      .word (numeral 10 image.width)],
    [.mark '#', .word "define".toList, .word (macroName upper "_HEIGHT"),
      .word (numeral 10 image.height)],
    [],
    declaratorTokens filename]

def pixelTokens (y x : Nat) : List Token :=
  [.word (hexText (colorOf (image.pixels.getD (y * image.width + x) default))), .mark ',']

def rowTokens (y : Nat) : List Token := (List.range image.width).flatMap (pixelTokens image y)

def closingTokens : List (List Token) :=
  [[.mark '}', .mark ';'], [], [.mark '#', .word "endif".toList]]

theorem lex_after_directive (literal directive : List Char)
    (same : literal = '#' :: (directive ++ [' '])) (word : IsWord .basic directive)
    (text : List Char) :
    lexLine alphabet (literal ++ text) = .mark '#' :: .word directive :: lexLine alphabet text := by
  rw [same, List.cons_append, List.append_assoc, List.singleton_append,
    lex_directive (basic_is_word word)]

theorem lex_macro_number {name : List Char} (word : IsWord alphabet name) (number : Nat) :
    lexLine alphabet (name ++ ' ' :: numeral 10 number) =
      [.word name, .word (numeral 10 number)] := by
  rw [lexLine, lex_word_space word, lex_word_end (basic_is_word (decimal_is_word number))]

theorem lex_three_words (first second third : List Char) (firstWord : IsWord alphabet first)
    (secondWord : IsWord alphabet second) (thirdWord : IsWord alphabet third) (text : List Char) :
    lexLine alphabet (first ++ ' ' :: (second ++ ' ' :: (third ++ [' '])) ++ text) =
      .word first :: .word second :: .word third :: lexLine alphabet text := by
  rw [lexLine, List.append_assoc, List.cons_append, lex_word_space firstWord, List.append_assoc,
    List.cons_append, lex_word_space secondWord, List.append_assoc, List.singleton_append,
    lex_word_space thirdWord]
  rfl

theorem lex_literal (text : List Char) (portable : IsPortable text) (tokens : List Token)
    (lexed : lexLine .basic text = tokens) : lexLine alphabet text = tokens := by
  rw [lexLine, lex_portable text portable]
  exact lexed

theorem lex_array_opening (word : IsWord alphabet filename) :
    lexLine alphabet ("static const uint64_t ".toList ++ (filename ++ "[] = \x7b".toList)) =
      declaratorTokens filename := by
  have qualifiers : "static const uint64_t ".toList =
      "static".toList ++ ' ' :: ("const".toList ++ ' ' :: ("uint64_t".toList ++ [' '])) := by
    decide
  have marks : lexLine alphabet "] = \x7b".toList = [.mark ']', .mark '=', .mark '{'] :=
    lex_literal _ (by decide) _ (by decide)
  have name : lexLine alphabet (filename ++ "[] = \x7b".toList) =
      [.word filename, .mark '[', .mark ']', .mark '=', .mark '{'] :=
    (lex_word_mark word (by decide) "] = \x7b".toList).trans
      (congrArg (fun tokens => .word filename :: .mark '[' :: tokens) marks)
  have words := lex_three_words "static".toList "const".toList "uint64_t".toList
    (@basic_is_word alphabet _ (by decide)) (basic_is_word (by decide)) (basic_is_word (by decide))
    (filename ++ "[] = \x7b".toList)
  rw [name] at words
  exact (congrArg (fun text => lexLine alphabet (text ++ (filename ++ "[] = \x7b".toList)))
    qualifiers).trans words

theorem lex_pixels (y : Nat) (columns : List Nat) :
    lexFrom alphabet [] (columns.flatMap (pixelText image y)) =
      columns.flatMap (pixelTokens image y) := by
  induction columns with
  | nil => rfl
  | cons x columns induction =>
      rw [List.flatMap_cons, List.flatMap_cons, ← induction, pixelText, List.append_assoc,
        List.cons_append, List.cons_append, List.nil_append, hexText,
        lex_word_mark (basic_is_word (hexadecimal_is_word 8 _)) (by decide), lex_space]
      rfl

theorem lex_row (y : Nat) : lexLine alphabet (rowText image y) = rowTokens image y := by
  have blank : ∀ text, lexFrom alphabet [] (' ' :: text) = lexFrom alphabet [] text := lex_space []
  rw [lexLine, rowText, List.cons_append, List.cons_append, List.cons_append, List.cons_append,
    List.nil_append, blank, blank, blank, blank, lex_pixels, rowTokens]

variable {upper filename}

include isWord upperWord

theorem lex_opening :
    (openingLines upper filename image).map (lexLine alphabet) =
      openingTokens upper filename image := by
  have guard := macro_name_is_word upperWord "_H" (by decide)
  have width := macro_name_is_word upperWord "_WIDTH" (by decide)
  have height := macro_name_is_word upperWord "_HEIGHT" (by decide)
  have guardLine : lexLine alphabet (macroName upper "_H") = [.word (macroName upper "_H")] :=
    lex_word_end guard
  have ifndef := @lex_after_directive alphabet "#ifndef ".toList "ifndef".toList (by decide)
    (by decide)
  have define := @lex_after_directive alphabet "#define ".toList "define".toList (by decide)
    (by decide)
  have included : lexLine alphabet "#include <stdint.h>".toList =
      [.mark '#', .word "include".toList, .mark '<', .word "stdint".toList, .mark '.',
        .word "h".toList, .mark '>'] :=
    lex_literal _ (by decide) _ (by decide)
  have empty : lexLine alphabet [] = [] := rfl
  simp only [openingLines, openingTokens, List.map_cons, List.map_nil, ifndef, define, guardLine,
    lex_macro_number width, lex_macro_number height, included, empty,
    lex_array_opening filename isWord, -String.reduceToList]

theorem lex_header :
    (headerLines upper filename image).map (lexLine alphabet) =
      openingTokens upper filename image ++ (List.range image.height).map (rowTokens image) ++
        closingTokens := by
  have rows : ((List.range image.height).map (rowText image)).map (lexLine alphabet) =
      (List.range image.height).map (rowTokens image) := by
    rw [List.map_map]
    apply List.map_congr_left
    intro y _
    exact lex_row image y
  have closing : closingLines.map (lexLine alphabet) = closingTokens := by
    have ends : lexLine alphabet "\x7d;".toList = [.mark '}', .mark ';'] :=
      lex_literal _ (by decide) _ (by decide)
    have endif : lexLine alphabet "#endif".toList = [.mark '#', .word "endif".toList] :=
      lex_literal _ (by decide) _ (by decide)
    have empty : lexLine alphabet [] = [] := rfl
    rw [closingLines, List.map_cons, List.map_cons, List.map_cons, List.map_nil, ends, empty, endif,
      closingTokens]
  rw [headerLines, List.map_append, List.map_append, lex_opening image isWord upperWord, rows,
    closing]

/-- The tokens of the lines of a header, the text after the last line included. -/
theorem header_tokens :
    ((headerText upper filename image).splitOn '\n').map (lexLine alphabet) =
      openingTokens upper filename image ++
        ((List.range image.height).map (rowTokens image) ++ (closingTokens ++ [[]])) := by
  have split : (headerText upper filename image).splitOn '\n' =
      headerLines upper filename image ++ [[]] := by
    rw [text_is_lines]
    exact split_lines _ (header_lines_single image isWord upperWord)
  have empty : [[]].map (lexLine alphabet) = [[]] := rfl
  rw [split, List.map_append, lex_header image isWord upperWord, empty, List.append_assoc,
    List.append_assoc]

omit isWord upperWord

variable (upper filename)

def declarationTokens : List Token :=
  declaratorTokens filename ++
    (((List.range image.height).map (rowTokens image)).flatten ++ [.mark '}', .mark ';'])

def headerMacros : List (List Char × List Token) :=
  [(macroName upper "_HEIGHT", [.word (numeral 10 image.height)]),
    (macroName upper "_WIDTH", [.word (numeral 10 image.width)]),
    (macroName upper "_H", [])]

theorem read_opening :
    (openingTokens upper filename image).foldl readLine Reading.start =
      ⟨headerMacros upper image, declaratorTokens filename, 0⟩ := by
  rfl

theorem row_plain (y : Nat) : IsPlain (rowTokens image y) := by
  unfold IsPlain rowTokens
  cases List.range image.width with
  | nil => exact nofun
  | cons x columns =>
      intro directive
      cases directive

theorem read_closing (macros : List (List Char × List Token)) (tokens : List Token) :
    (closingTokens ++ [[]]).foldl readLine ⟨macros, tokens, 0⟩ =
      ⟨macros, tokens ++ [.mark '}', .mark ';'], 0⟩ := by
  change Reading.mk macros (tokens ++ [.mark '}', .mark ';'] ++ [] ++ []) 0 = _
  rw [List.append_nil, List.append_nil]

theorem rows_plain : ∀ tokens ∈ (List.range image.height).map (rowTokens image),
    IsPlain tokens := by
  intro tokens row
  rcases List.mem_map.mp row with ⟨y, -, rfl⟩
  exact row_plain image y

theorem read_header {upper filename : List Char} (isWord : IsWord .basic filename)
    (upperWord : ∀ c ∈ upper, isWordChar c = true) :
    readText (headerText upper filename image) =
      ⟨headerMacros upper image, declarationTokens filename image, 0⟩ := by
  have rows := read_plain_lines ⟨headerMacros upper image, declaratorTokens filename, 0⟩ rfl _
    (rows_plain image)
  rw [readText, header_tokens image isWord upperWord, List.foldl_append, read_opening,
    List.foldl_append, rows, read_closing, declarationTokens, List.append_assoc]

end Header

end FractionsOS.Encode
