import FractionsOS.Library.DataLayout
import FractionsOS.Library.Numerals

/-!
# Reading C headers

As much of C as a header of macros and constant arrays needs: lines of words and
marks, the guard and `#define` directives, integer constants, and declarations of
`static const` arrays with their initialisers. Macros are recorded, not expanded.
-/

namespace Library.CHeader

open Library.DataLayout Library.Numerals

set_option autoImplicit false

inductive Token where
  | word (text : List Char)
  | mark (c : Char)
  /-- The declarations of an included header. -/
  | header (name : List Char)
  deriving DecidableEq, Repr

def isWordChar (c : Char) : Bool := c.isAlphanum || c == '_'

def isBlank (c : Char) : Bool := c == ' ' || c == '\t'

/-- The characters that words are made of. Compilers agree on those of ASCII but for the
dollar sign. -/
structure Alphabet where
  wordChar : Char → Bool
  ascii : ∀ c : Char, c.toNat < 128 → c ≠ '$' → wordChar c = isWordChar c

def Alphabet.basic : Alphabet := ⟨isWordChar, fun _ _ _ => rfl⟩

def wordTokens (text : List Char) : List Token := if text = [] then [] else [.word text]

section Lexing

variable (alphabet : Alphabet)

/-- The tokens of a line, with the characters of a word that has begun. -/
def lexFrom (begun : List Char) : List Char → List Token
  | [] => wordTokens begun
  | c :: text =>
      if alphabet.wordChar c then lexFrom (begun ++ [c]) text
      else wordTokens begun ++ ((if isBlank c then [] else [.mark c]) ++ lexFrom [] text)

def lexLine (line : List Char) : List Token := lexFrom alphabet [] line

def IsWord (text : List Char) : Prop := text ≠ [] ∧ ∀ c ∈ text, alphabet.wordChar c = true

instance (text : List Char) : Decidable (IsWord alphabet text) :=
  decidable_of_iff (text ≠ [] ∧ text.all alphabet.wordChar = true)
    (and_congr_right fun _ => List.all_eq_true)

end Lexing

/-- A word of ASCII characters that C takes for a name. -/
def IsIdentifier (text : List Char) : Prop :=
  IsWord .basic text ∧ (text.head?.all fun c => !c.isDigit) = true

instance (text : List Char) : Decidable (IsIdentifier text) :=
  inferInstanceAs (Decidable (_ ∧ _))

section Lexing

variable {alphabet : Alphabet}

theorem word_char_is_ascii {c : Char} (word : isWordChar c = true) : c.toNat < 128 := by
  unfold isWordChar Char.isAlphanum Char.isAlpha Char.isUpper Char.isLower Char.isDigit at word
  simp only [Bool.or_eq_true, Bool.and_eq_true, decide_eq_true_eq, beq_iff_eq, ge_iff_le,
    UInt32.le_iff_toNat_le] at word
  change c.val.toNat < 128
  rcases word with ((upper | lower) | digit) | rfl
  · exact Nat.lt_of_le_of_lt upper.2 (by decide)
  · exact Nat.lt_of_le_of_lt lower.2 (by decide)
  · exact Nat.lt_of_le_of_lt digit.2 (by decide)
  · decide

theorem basic_word_chars {text : List Char} (basic : ∀ c ∈ text, isWordChar c = true) :
    ∀ c ∈ text, alphabet.wordChar c = true := by
  intro c member
  have word := basic c member
  rw [alphabet.ascii c (word_char_is_ascii word) (by rintro rfl; cases word)]
  exact word

theorem basic_is_word {text : List Char} (basic : IsWord .basic text) : IsWord alphabet text :=
  ⟨basic.1, basic_word_chars basic.2⟩

/-- Characters that all compilers take for the same. -/
def IsPortable (text : List Char) : Prop := ∀ c ∈ text, c.toNat < 128 ∧ c ≠ '$'

instance (text : List Char) : Decidable (IsPortable text) :=
  List.decidableBAll (fun c : Char => c.toNat < 128 ∧ c ≠ '$') text

theorem lex_portable (text : List Char) (portable : IsPortable text) (begun : List Char) :
    lexFrom alphabet begun text = lexFrom .basic begun text := by
  induction text generalizing begun with
  | nil => rfl
  | cons c text induction =>
      have rest := induction fun other member => portable other (List.mem_cons_of_mem c member)
      have first := portable c List.mem_cons_self
      have same : alphabet.wordChar c = Alphabet.basic.wordChar c :=
        alphabet.ascii c first.1 first.2
      rw [lexFrom, lexFrom, same, rest, rest]

theorem lex_word_chars (word : List Char) (chars : ∀ c ∈ word, alphabet.wordChar c = true)
    (begun text : List Char) :
    lexFrom alphabet begun (word ++ text) = lexFrom alphabet (begun ++ word) text := by
  induction word generalizing begun with
  | nil => rw [List.nil_append, List.append_nil]
  | cons c word induction =>
      have rest := induction (fun other member => chars other (List.mem_cons_of_mem c member))
        (begun ++ [c])
      rw [List.cons_append, lexFrom, if_pos (chars c List.mem_cons_self), rest, List.append_assoc,
        List.singleton_append]

def headerMarks : List Char := ['#', '<', '>', '.', '[', ']', '=', '\x7b', '\x7d', ';', ',']

theorem lex_mark {c : Char} (mark : c ∈ headerMarks) (begun text : List Char) :
    lexFrom alphabet begun (c :: text) =
      wordTokens begun ++ .mark c :: lexFrom alphabet [] text := by
  have plain : ∀ c ∈ headerMarks, c.toNat < 128 ∧ c ≠ '$' ∧ isWordChar c = false ∧
      isBlank c = false := by
    simp only [headerMarks, List.forall_mem_cons, List.not_mem_nil, false_imp_iff, implies_true]
    decide
  rcases plain c mark with ⟨ascii, dollar, notWord, notBlank⟩
  rw [lexFrom, alphabet.ascii c ascii dollar, notWord, notBlank]
  rfl

theorem lex_space (begun text : List Char) :
    lexFrom alphabet begun (' ' :: text) = wordTokens begun ++ lexFrom alphabet [] text := by
  have notWord : alphabet.wordChar ' ' = false := alphabet.ascii ' ' (by decide) (by decide)
  rw [lexFrom, notWord]
  rfl

theorem word_tokens_of_word {text : List Char} (word : IsWord alphabet text) :
    wordTokens text = [.word text] := if_neg word.1

theorem lex_word_space {word : List Char} (isWord : IsWord alphabet word) (text : List Char) :
    lexFrom alphabet [] (word ++ ' ' :: text) = .word word :: lexFrom alphabet [] text := by
  rw [lex_word_chars word isWord.2, lex_space, List.nil_append, word_tokens_of_word isWord]
  rfl

theorem lex_word_mark {word : List Char} (isWord : IsWord alphabet word) {c : Char}
    (mark : c ∈ headerMarks) (text : List Char) :
    lexFrom alphabet [] (word ++ c :: text) =
      .word word :: .mark c :: lexFrom alphabet [] text := by
  rw [lex_word_chars word isWord.2, lex_mark mark, List.nil_append, word_tokens_of_word isWord]
  rfl

theorem lex_word_end {word : List Char} (isWord : IsWord alphabet word) :
    lexFrom alphabet [] word = [.word word] := by
  have lexed := lex_word_chars word isWord.2 [] []
  rw [List.append_nil, List.nil_append] at lexed
  rw [lexed, lexFrom, word_tokens_of_word isWord]

theorem lex_directive {directive : List Char} (isWord : IsWord alphabet directive)
    (text : List Char) :
    lexLine alphabet ('#' :: (directive ++ ' ' :: text)) =
      .mark '#' :: .word directive :: lexLine alphabet text := by
  have hash : '#' ∈ headerMarks := by decide
  rw [lexLine, lex_mark hash, lex_word_space isWord]
  rfl

end Lexing

structure Reading where
  /-- The macros defined, the last one first. -/
  macros : List (List Char × List Token)
  tokens : List Token
  /-- How many conditional blocks are open of which the outermost is left out. -/
  skipping : Nat

def Reading.start : Reading := ⟨[], [], 0⟩

def Reading.defined (reading : Reading) (name : List Char) : Bool :=
  (reading.macros.lookup name).isSome

def readIfndef (reading : Reading) : List Token → Reading
  | .word name :: _ =>
      if 0 < reading.skipping then { reading with skipping := reading.skipping + 1 }
      else if reading.defined name then { reading with skipping := 1 }
      else reading
  | _ => reading

def readDefine (reading : Reading) : List Token → Reading
  | .word name :: body =>
      if 0 < reading.skipping then reading
      else { reading with macros := (name, body) :: reading.macros }
  | _ => reading

/-- `#include` lines bring nothing that is read here. -/
def readDirective (reading : Reading) (directive : List Char) (line : List Token) : Reading :=
  if directive = "ifndef".toList then readIfndef reading line
  else if directive = "define".toList then readDefine reading line
  else if directive = "endif".toList then { reading with skipping := reading.skipping - 1 }
  else reading

def readLine (reading : Reading) : List Token → Reading
  | .mark '#' :: .word directive :: line => readDirective reading directive line
  | line =>
      if 0 < reading.skipping then reading else { reading with tokens := reading.tokens ++ line }

def readText (text : List Char) : Reading :=
  ((text.splitOn '\n').map (lexLine .basic)).foldl readLine Reading.start

def IsPlain (line : List Token) : Prop := line.head? ≠ some (.mark '#')

theorem read_plain_line (reading : Reading) (active : reading.skipping = 0) {line : List Token}
    (plain : IsPlain line) :
    readLine reading line = { reading with tokens := reading.tokens ++ line } := by
  unfold readLine
  split
  · exact absurd rfl plain
  · rw [if_neg (by rw [active]; exact Nat.lt_irrefl 0)]

theorem read_plain_lines (reading : Reading) (active : reading.skipping = 0)
    (lines : List (List Token)) (plain : ∀ line ∈ lines, IsPlain line) :
    lines.foldl readLine reading = { reading with tokens := reading.tokens ++ lines.flatten } := by
  induction lines generalizing reading with
  | nil =>
      rw [List.flatten_nil, List.append_nil]
      rfl
  | cons line lines induction =>
      have rest := induction { reading with tokens := reading.tokens ++ line } active
        fun other member => plain other (List.mem_cons_of_mem line member)
      rw [List.foldl_cons, read_plain_line reading active (plain line List.mem_cons_self), rest,
        List.flatten_cons, List.append_assoc]

/-- A text of complete lines is read line by line. -/
theorem split_lines (lines : List (List Char)) (single : ∀ line ∈ lines, '\n' ∉ line) :
    (lines.flatMap fun line => line ++ ['\n']).splitOn '\n' = lines ++ [[]] := by
  induction lines with
  | nil => rfl
  | cons line lines induction =>
      have rest := induction fun other member => single other (List.mem_cons_of_mem line member)
      rw [List.flatMap_cons, List.append_assoc, List.singleton_append,
        List.splitOn_append_cons_self_of_not_mem (single line List.mem_cons_self), rest]
      rfl

def constant : List Char → Option Nat
  | '0' :: 'x' :: digits => readNumeral 16 digits
  | '0' :: digit :: digits => readNumeral 8 (digit :: digits)
  | text => readNumeral 10 text

/-- Hexadecimal constants of a fixed width, as printed by `0x%0nX`. -/
theorem constant_hexadecimal (width number : Nat) :
    constant ('0' :: 'x' :: paddedNumeral width 16 number) = some number :=
  read_padded_written (by decide) (by decide) width number

theorem constant_decimal (number : Nat) : constant (numeral 10 number) = some number := by
  rcases Nat.eq_zero_or_pos number with zero | positive
  · rw [zero]
    rfl
  · have read : readNumeral 10 (numeral 10 number) = some number :=
      read_numeral_written (by decide) (by decide) number
    obtain ⟨c, text, written, notZero⟩ : ∃ c text, numeral 10 number = c :: text ∧ c ≠ '0' :=
      numeral_head positive (by decide) (by decide)
    rw [written] at read ⊢
    unfold constant
    split
    · rename_i same
      exact absurd (List.cons.inj same).1 notZero
    · rename_i same
      exact absurd (List.cons.inj same).1 notZero
    · exact read

theorem digit_is_word_char : ∀ digit, digit < 16 → isWordChar (digitChar digit) = true := by
  decide

theorem numeral_word_chars {base : Nat} (least : 1 < base) (few : base ≤ 16) (number : Nat) :
    ∀ c ∈ numeral base number, isWordChar c = true := by
  intro c member
  rcases List.mem_map.mp member with ⟨digit, isDigit, rfl⟩
  exact digit_is_word_char digit (Nat.lt_of_lt_of_le (digits_of_valid least number digit isDigit) few)

theorem decimal_is_word (number : Nat) : IsWord .basic (numeral 10 number) :=
  ⟨numeral_nonempty number, numeral_word_chars (by decide) (by decide) number⟩

theorem hexadecimal_is_word (width number : Nat) :
    IsWord .basic ('0' :: 'x' :: paddedNumeral width 16 number) := by
  refine ⟨List.cons_ne_nil _ _, ?_⟩
  intro c member
  rcases List.mem_cons.mp member with rfl | member
  · decide
  rcases List.mem_cons.mp member with rfl | member
  · decide
  rcases List.mem_append.mp member with zeros | digits
  · rw [List.eq_of_mem_replicate zeros]
    decide
  · exact numeral_word_chars (by decide) (by decide) number c digits

structure ArrayDeclaration where
  elementType : List Char
  name : List Char
  initialisers : List Nat
  deriving DecidableEq, Repr

def readInitialisers : List Token → Option (List Nat × List Token)
  | .mark '}' :: .mark ';' :: rest => some ([], rest)
  | .word text :: .mark '}' :: .mark ';' :: rest =>
      (constant text).map fun value => ([value], rest)
  | .word text :: .mark ',' :: rest =>
      (constant text).bind fun value =>
        (readInitialisers rest).map fun read => (value :: read.1, read.2)
  | _ => none

def readDeclaration : List Token → Option (ArrayDeclaration × List Token)
  | .word storage :: .word qualifier :: .word elementType :: .word name ::
      .mark '[' :: .mark ']' :: .mark '=' :: .mark '{' :: rest =>
      if storage = "static".toList ∧ qualifier = "const".toList then
        (readInitialisers rest).map fun read => (⟨elementType, name, read.1⟩, read.2)
      else none
  | _ => none

def readLiterals : List Token → Option (List (List Char) × List Token)
  | .mark '}' :: .mark ';' :: rest => some ([], rest)
  | .word text :: .mark '}' :: .mark ';' :: rest => some ([text], rest)
  | .word text :: .mark ',' :: rest =>
      (readLiterals rest).map fun read => (text :: read.1, read.2)
  | _ => none

theorem read_literals_written (texts : List (List Char)) (rest : List Token) :
    readLiterals
        ((texts.flatMap fun text => [.word text, .mark ',']) ++ .mark '}' :: .mark ';' :: rest) =
      some (texts, rest) := by
  induction texts with
  | nil => rfl
  | cons text texts induction =>
      rw [List.flatMap_cons, List.append_assoc, List.cons_append, List.cons_append,
        List.nil_append, readLiterals, induction, Option.map_some]

theorem read_initialisers_of_literals (tokens : List Token) {texts : List (List Char)}
    {values : List Nat} {rest : List Token} (literals : readLiterals tokens = some (texts, rest))
    (constants : texts.map constant = values.map some) :
    readInitialisers tokens = some (values, rest) := by
  induction tokens using readLiterals.induct generalizing texts values with
  | case1 remaining =>
      rw [readLiterals] at literals
      cases literals
      rw [List.map_eq_nil_iff.mp constants.symm]
      rfl
  | case2 text remaining =>
      rw [readLiterals] at literals
      cases literals
      rcases List.map_eq_cons_iff.mp constants.symm with ⟨value, others, rfl, first, last⟩
      rw [List.map_eq_nil_iff.mp last, readInitialisers, ← first, Option.map_some]
  | case3 text remaining induction =>
      rw [readLiterals, Option.map_eq_some_iff] at literals
      rcases literals with ⟨read, inner, same⟩
      cases same
      rcases List.map_eq_cons_iff.mp constants.symm with ⟨value, others, rfl, first, last⟩
      rw [readInitialisers, ← first, Option.bind_some, induction inner last.symm, Option.map_some]
  | case4 tokens noEnd noLast noNext =>
      rw [readLiterals] at literals
      · cases literals
      · exact noEnd
      · exact noLast
      · exact noNext

theorem read_initialisers_written (texts : List (List Char)) (values : List Nat)
    (constants : texts.map constant = values.map some) (rest : List Token) :
    readInitialisers
        ((texts.flatMap fun text => [.word text, .mark ',']) ++ .mark '}' :: .mark ';' :: rest) =
      some (values, rest) :=
  read_initialisers_of_literals _ (read_literals_written texts rest) constants

/-- The literals of a declaration of the given name that is all there is. -/
def arrayLiterals (name : List Char) : List Token → Option (List (List Char))
  | .word storage :: .word qualifier :: .word _ :: .word declared ::
      .mark '[' :: .mark ']' :: .mark '=' :: .mark '{' :: rest =>
      if storage = "static".toList ∧ qualifier = "const".toList ∧ declared = name then
        match readLiterals rest with
        | some (texts, []) => some texts
        | _ => none
      else none
  | _ => none

theorem array_literals_written (elementType name : List Char) (texts : List (List Char))
    (tokens : List Token) (literals : readLiterals tokens = some (texts, [])) :
    arrayLiterals name
        (.word "static".toList :: .word "const".toList :: .word elementType :: .word name ::
          .mark '[' :: .mark ']' :: .mark '=' :: .mark '{' :: tokens) =
      some texts := by
  rw [arrayLiterals, if_pos ⟨rfl, rfl, rfl⟩, literals]

theorem read_declaration_written (elementType name : List Char) (values : List Nat)
    (tokens rest : List Token) (initialisers : readInitialisers tokens = some (values, rest)) :
    readDeclaration
        (.word "static".toList :: .word "const".toList :: .word elementType :: .word name ::
          .mark '[' :: .mark ']' :: .mark '=' :: .mark '{' :: tokens) =
      some (⟨elementType, name, values⟩, rest) := by
  rw [readDeclaration, if_pos ⟨rfl, rfl⟩, initialisers, Option.map_some]

def Reading.number (reading : Reading) (name : List Char) : Option Nat :=
  match reading.macros.lookup name with
  | some [.word text] => constant text
  | _ => none

def elementSize (elementType : List Char) : Option Nat :=
  if elementType = "uint8_t".toList then some 1
  else if elementType = "uint16_t".toList then some 2
  else if elementType = "uint32_t".toList then some 4
  else if elementType = "uint64_t".toList then some 8
  else none

/-- The bytes of the array of a header that declares nothing else. -/
def Reading.object (reading : Reading) (name : List Char) : Option (List UInt8) :=
  match readDeclaration reading.tokens with
  | some (declaration, []) =>
      if declaration.name = name then
        (elementSize declaration.elementType).map fun size => arrayBytes size declaration.initialisers
      else none
  | _ => none

end Library.CHeader
