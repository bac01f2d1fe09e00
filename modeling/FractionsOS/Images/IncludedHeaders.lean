import FractionsOS.Images.CompiledImage
import FractionsOS.Library.CFiles

/-!
# Headers included together

A C file that includes the headers of several images has the array of each of them,
unless one header is skipped for another's guard or an array is named as a macro.
-/

namespace FractionsOS.Encode

open Library.CHeader Library.Numerals

set_option autoImplicit false

/-- Python's `str.upper`, of which only the part on ASCII texts is given. -/
structure StrUpper where
  upper : List Char → List Char
  ascii : ∀ text, (∀ c ∈ text, c.toNat < 128) → upper text = text.map Char.toUpper

/-- The Python that writes headers and the compiler that reads them. In upper case a text is
no shorter, and a name still has characters of names only. -/
structure Toolchain where
  python : StrUpper
  compiler : Compiler
  longer : ∀ text, text.length ≤ (python.upper text).length
  words : ∀ name, compiler.Name name →
    ∀ c ∈ python.upper name, compiler.alphabet.wordChar c = true

def macroSuffixes : List String := ["_H", "_WIDTH", "_HEIGHT"]

theorem macro_name_letter (upper : List Char) {suffix : String}
    (member : suffix ∈ macroSuffixes) : 'H' ∈ macroName upper suffix := by
  have letter : ∀ suffix ∈ macroSuffixes, 'H' ∈ suffix.toList := by decide
  exact List.mem_append_right _ (letter suffix member)

theorem macro_name_longer {upper filename : List Char} (longer : filename.length ≤ upper.length)
    {suffix : String} (member : suffix ∈ macroSuffixes) : filename ≠ macroName upper suffix := by
  intro same
  have nonempty : ∀ suffix ∈ macroSuffixes, 0 < suffix.toList.length := by decide
  have lengths := congrArg List.length same
  rw [macroName, List.length_append] at lengths
  have positive := nonempty suffix member
  omega

theorem macro_kind {one other : List Char} {suffix kind : String} (member : suffix ∈ macroSuffixes)
    (memberKind : kind ∈ macroSuffixes) (same : one ++ suffix.toList = other ++ kind.toList) :
    suffix = kind := by
  have endings : ∀ suffix ∈ macroSuffixes, ∀ kind ∈ macroSuffixes,
      suffix.toList.reverse.take 2 = kind.toList.reverse.take 2 → suffix = kind := by
    decide
  have long : ∀ suffix ∈ macroSuffixes, 2 ≤ suffix.toList.reverse.length := by decide
  have ends := congrArg (fun name => name.reverse.take 2) same
  simp only [List.reverse_append] at ends
  rw [List.take_append_of_le_length (long suffix member),
    List.take_append_of_le_length (long kind memberKind)] at ends
  exact endings suffix member kind memberKind ends

theorem macro_in_common {one other : List Char} {suffix kind : String}
    (member : suffix ∈ macroSuffixes) (memberKind : kind ∈ macroSuffixes)
    (same : one ++ suffix.toList = other ++ kind.toList) : one = other := by
  rw [macro_kind member memberKind same] at same
  exact List.append_cancel_right same

theorem digits_letter {digits : List Char}
    (valid : ∀ c ∈ digits, ∃ digit < 16, digitValue c = some digit) : 'H' ∉ digits := by
  intro member
  rcases valid 'H' member with ⟨digit, -, value⟩
  have none : digitValue 'H' = none := by decide
  rw [none] at value
  cases value

theorem hex_text_letter (color : Nat) : 'H' ∉ hexText color := by
  have digits := digits_letter (padded_digits (by decide) (by decide) 8 color)
  intro member
  rcases List.mem_cons.mp member with same | member
  · exact absurd same (by decide)
  rcases List.mem_cons.mp member with same | member
  · exact absurd same (by decide)
  · exact digits member

theorem numeral_letter (number : Nat) : 'H' ∉ numeral 10 number := by
  apply digits_letter
  intro c member
  rcases List.mem_map.mp member with ⟨digit, isDigit, rfl⟩
  have valid := digits_of_valid (by decide) number digit isDigit
  have small : digit < 16 := Nat.lt_trans valid (by decide)
  exact ⟨digit, small, digit_value_char digit small⟩

section Header

variable (upper filename : List Char) (image : RgbaImage)

theorem declaration_words {text : List Char}
    (member : Token.word text ∈ declarationTokens filename image) :
    text = filename ∨ 'H' ∉ text := by
  rcases List.mem_append.mp member with declarator | body
  · simp only [declaratorTokens, List.mem_cons, Token.word.injEq, reduceCtorEq, List.not_mem_nil,
      or_false, -String.reduceToList] at declarator
    rcases declarator with rfl | rfl | rfl | rfl
    · exact .inr (by decide)
    · exact .inr (by decide)
    · exact .inr (by decide)
    · exact .inl rfl
  · rcases List.mem_append.mp body with rows | marks
    · rw [row_tokens_flatten, List.mem_flatMap] at rows
      rcases rows with ⟨literal, written, token⟩
      rcases List.mem_map.mp written with ⟨color, -, rfl⟩
      simp only [List.mem_cons, Token.word.injEq, reduceCtorEq, List.not_mem_nil, or_false] at token
      rw [token]
      exact .inr (hex_text_letter color)
    · simp at marks

/-- A macro is a word of a declaration only as the name of the array. -/
theorem declared_macro_name {other : List Char} {suffix : String} (kind : suffix ∈ macroSuffixes)
    (member : Token.word (macroName other suffix) ∈ declarationTokens filename image) :
    filename = macroName other suffix := by
  rcases declaration_words filename image member with same | letter
  · exact same.symm
  · exact absurd (macro_name_letter other kind) letter

theorem header_macro_entry {entry : List Char × List Token}
    (member : entry ∈ headerMacros upper image) :
    (∃ suffix ∈ macroSuffixes, entry.1 = macroName upper suffix) ∧
      ∀ text, Token.word text ∈ entry.2 → 'H' ∉ text := by
  unfold headerMacros at member
  simp only [List.mem_cons, List.not_mem_nil, or_false] at member
  rcases member with rfl | rfl | rfl
  · refine ⟨⟨"_HEIGHT", by decide, rfl⟩, ?_⟩
    intro text word
    rw [Token.word.inj (List.mem_singleton.mp word)]
    exact numeral_letter image.height
  · refine ⟨⟨"_WIDTH", by decide, rfl⟩, ?_⟩
    intro text word
    rw [Token.word.inj (List.mem_singleton.mp word)]
    exact numeral_letter image.width
  · refine ⟨⟨"_H", by decide, rfl⟩, ?_⟩
    intro text word
    cases word

theorem macro_in_header {suffix : String} (kind : suffix ∈ macroSuffixes) :
    ∃ body, (macroName upper suffix, body) ∈ headerMacros upper image := by
  simp only [macroSuffixes, List.mem_cons, List.not_mem_nil, or_false] at kind
  unfold headerMacros
  rcases kind with rfl | rfl | rfl
  · exact ⟨[], by simp⟩
  · exact ⟨[.word (numeral 10 image.width)], by simp⟩
  · exact ⟨[.word (numeral 10 image.height)], by simp⟩

theorem header_macros_distinct : ((headerMacros upper image).map Prod.fst).Nodup := by
  have apart : ∀ suffix kind : String, suffix.toList ≠ kind.toList →
      macroName upper suffix ≠ macroName upper kind :=
    fun _ _ differ same => differ (List.append_cancel_left same)
  simp only [headerMacros, List.map_cons, List.map_nil, List.nodup_cons, List.mem_cons,
    List.not_mem_nil, or_false, not_or, not_false_iff, List.nodup_nil, and_true]
  exact ⟨⟨apart _ _ (by decide), apart _ _ (by decide)⟩, apart _ _ (by decide)⟩

/-- What a file reads of a header: the types of `<stdint.h>` and the array. -/
def imageTokens : List Token := .header "<stdint.h>".toList :: declarationTokens filename image

variable {upper filename image} {compiler : Compiler}

theorem include_opening {reading : Reading} (active : reading.skipping = 0)
    (fresh : reading.defined (macroName upper "_H") = false)
    (literal : Literal { reading with macros := headerMacros upper image ++ reading.macros }
      (declaratorTokens filename)) :
    includeLines reading (openingTokens upper filename image) =
      ⟨headerMacros upper image ++ reading.macros,
        reading.tokens ++ .header "<stdint.h>".toList :: declaratorTokens filename, 0⟩ := by
  have guard : includeLine reading
      [.mark '#', .word "ifndef".toList, .word (macroName upper "_H")] = reading := by
    change readIfndef reading [.word (macroName upper "_H")] = reading
    rw [readIfndef, active, if_neg (Nat.lt_irrefl 0), fresh]
    rfl
  have expanded := expand_literal literal
  rcases reading with ⟨macros, tokens, skipping⟩
  cases active
  unfold includeLines openingTokens
  rw [List.foldl_cons, guard]
  change Reading.mk (headerMacros upper image ++ macros)
    (tokens ++ [] ++ [.header "<stdint.h>".toList] ++ [] ++ [] ++
      (declaratorTokens filename).flatMap (expandToken (headerMacros upper image ++ macros))) 0 = _
  rw [expanded, List.append_nil, List.append_nil, List.append_nil, List.append_assoc,
    List.singleton_append]

theorem include_closing (macros : List (List Char × List Token)) (tokens : List Token) :
    includeLines ⟨macros, tokens, 0⟩ (closingTokens ++ [[]]) =
      ⟨macros, tokens ++ [.mark '}', .mark ';'], 0⟩ := by
  change Reading.mk macros (tokens ++ [.mark '}', .mark ';'] ++ [] ++ []) 0 = _
  rw [List.append_nil, List.append_nil]

/-- A header whose guard is not defined is read, its array under its own name if that
is no macro. -/
theorem include_header (isWord : IsWord compiler.alphabet filename)
    (upperWord : ∀ c ∈ upper, compiler.alphabet.wordChar c = true) {reading : Reading}
    (active : reading.skipping = 0)
    (fresh : reading.defined (macroName upper "_H") = false)
    (literal : Literal { reading with macros := headerMacros upper image ++ reading.macros }
      (declarationTokens filename image)) :
    includeText compiler reading (headerText upper filename image) =
      ⟨headerMacros upper image ++ reading.macros, reading.tokens ++ imageTokens filename image,
        0⟩ := by
  have opening := include_opening active fresh fun text member =>
    literal text (List.mem_append_left _ member)
  have rows := include_plain_lines
    ⟨headerMacros upper image ++ reading.macros,
      reading.tokens ++ .header "<stdint.h>".toList :: declaratorTokens filename, 0⟩
    rfl ((List.range image.height).map (rowTokens image)) (rows_plain image) (by
      intro line row text member
      exact literal text (List.mem_append_right _ (List.mem_append_left _
        (List.mem_flatten.mpr ⟨line, row, member⟩))))
  unfold includeText
  rw [header_tokens image isWord upperWord]
  unfold includeLines at opening rows ⊢
  rw [List.foldl_append, opening, List.foldl_append, rows]
  have joined := include_closing (headerMacros upper image ++ reading.macros)
    (reading.tokens ++ .header "<stdint.h>".toList :: declaratorTokens filename ++
      ((List.range image.height).map (rowTokens image)).flatten)
  unfold includeLines at joined
  rw [joined, imageTokens, declarationTokens, List.append_assoc, List.append_assoc,
    List.cons_append]

theorem first_header_literal (longer : filename.length ≤ upper.length) :
    Literal { Reading.start with macros := headerMacros upper image ++ Reading.start.macros }
      (declarationTokens filename image) := by
  intro text member
  apply Bool.eq_false_iff.mpr
  intro defined
  rcases defined_iff.mp defined with ⟨entry, listed, same⟩
  rw [List.mem_append] at listed
  rcases listed with own | nothing
  · rcases (header_macro_entry upper image own).1 with ⟨suffix, kind, name⟩
    rw [same, name] at member
    exact macro_name_longer longer kind (declared_macro_name filename image kind member)
  · cases nothing

theorem include_first_header (isWord : IsWord compiler.alphabet filename)
    (upperWord : ∀ c ∈ upper, compiler.alphabet.wordChar c = true)
    (longer : filename.length ≤ upper.length) :
    includeText compiler Reading.start (headerText upper filename image) =
      ⟨headerMacros upper image, imageTokens filename image, 0⟩ := by
  rw [include_header isWord upperWord rfl rfl (first_header_literal longer)]
  change Reading.mk (headerMacros upper image ++ []) ([] ++ imageTokens filename image) 0 = _
  rw [List.append_nil, List.nil_append]

theorem plain_defines_without {name : List Char} {tokens : List Token} (plain : IsPlain tokens) :
    DefinesWithout name tokens := by
  rintro directive defined body rfl
  exact absurd rfl plain

theorem short_defines_without {name : List Char} {tokens : List Token}
    (short : tokens.length ≤ 3) : DefinesWithout name tokens := by
  rintro directive defined body rfl
  rw [List.length_cons, List.length_cons, List.length_cons] at short
  rw [List.eq_nil_of_length_eq_zero (by omega : body.length = 0)]
  exact List.not_mem_nil

theorem size_defines_without {name : List Char} (letter : 'H' ∈ name) (directive defined : Token)
    (number : Nat) :
    DefinesWithout name [.mark '#', directive, defined, .word (numeral 10 number)] := by
  rintro directive defined body same member
  cases same
  rw [List.mem_singleton, Token.word.injEq] at member
  rw [member] at letter
  exact numeral_letter number letter

theorem opening_defines_without {name : List Char} (letter : 'H' ∈ name) :
    ∀ tokens ∈ openingTokens upper filename image, DefinesWithout name tokens := by
  intro tokens opening
  simp only [openingTokens, List.mem_cons, List.not_mem_nil, or_false] at opening
  rcases opening with rfl | rfl | rfl | rfl | rfl | rfl | rfl | rfl | rfl
  · exact short_defines_without (Nat.le_refl 3)
  · exact short_defines_without (Nat.le_refl 3)
  · exact short_defines_without (by decide)
  · rintro directive defined body same member
    cases same
    simp only [List.mem_cons, Token.word.injEq, reduceCtorEq, List.not_mem_nil, or_false,
      false_or, -String.reduceToList] at member
    rcases member with rfl | rfl <;> exact absurd letter (by decide)
  · exact short_defines_without (by decide)
  · exact size_defines_without letter _ _ image.width
  · exact size_defines_without letter _ _ image.height
  · exact short_defines_without (by decide)
  · apply plain_defines_without
    intro directive
    cases directive

theorem header_without (isWord : IsWord compiler.alphabet filename)
    (upperWord : ∀ c ∈ upper, compiler.alphabet.wordChar c = true) {name : List Char}
    (letter : 'H' ∈ name) :
    TextWithout compiler name (headerText upper filename image) := by
  intro tokens member
  rw [header_tokens image isWord upperWord] at member
  rcases List.mem_append.mp member with opening | later
  · exact opening_defines_without letter tokens opening
  rcases List.mem_append.mp later with row | closing
  · exact plain_defines_without (rows_plain image tokens row)
  · have short : ∀ tokens ∈ closingTokens ++ [[]], tokens.length ≤ 3 := by decide
    exact short_defines_without (short tokens closing)

end Header

structure NamedImage where
  filename : List Char
  image : RgbaImage

def NamedImage.array (named : NamedImage) : ArrayDeclaration :=
  ⟨"uint64_t".toList, named.filename, named.image.pixels.map colorOf⟩

def declarationsOf (images : List NamedImage) : List Token :=
  images.flatMap fun named => imageTokens named.filename named.image

theorem declarations_of_concat (images : List NamedImage) (named : NamedImage) :
    declarationsOf (images ++ [named]) =
      declarationsOf images ++ imageTokens named.filename named.image := by
  rw [declarationsOf, List.flatMap_append, List.flatMap_singleton]
  rfl

theorem declares_images (compiler : Compiler) (headers : List (List Char))
    (images : List NamedImage) :
    Declares compiler headers (declarationsOf images) (images.map NamedImage.array) := by
  induction images generalizing headers with
  | nil => exact Declares.nil
  | cons named images induction =>
      apply Declares.header
      exact Declares.array (declaration_read named.filename named.image (declarationsOf images))
        ⟨_, List.mem_cons_self, compiler.stdint⟩ (induction _)

section Toolchain

variable (tools : Toolchain)

def NamedImage.upper (named : NamedImage) : List Char := tools.python.upper named.filename

def NamedImage.header (named : NamedImage) : List Char :=
  headerText (named.upper tools) named.filename named.image

/-- No guard is defined by another header, and no array named as a macro. -/
structure HeadersApart (images : List NamedImage) : Prop where
  names : ∀ image ∈ images, tools.compiler.Name image.filename
  guards : images.Pairwise fun one other => one.upper tools ≠ other.upper tools
  unshadowed : ∀ one ∈ images, ∀ other ∈ images, ∀ suffix ∈ macroSuffixes,
    other.filename ≠ macroName (one.upper tools) suffix

def macrosOf (images : List NamedImage) : List (List Char × List Token) :=
  images.reverse.flatMap fun named => headerMacros (named.upper tools) named.image

variable {tools}

theorem macro_of_images {images : List NamedImage} {entry : List Char × List Token}
    (member : entry ∈ macrosOf tools images) :
    ∃ named ∈ images, ∃ suffix ∈ macroSuffixes, entry.1 = macroName (named.upper tools) suffix := by
  rcases List.mem_flatMap.mp member with ⟨named, listed, own⟩
  exact ⟨named, List.mem_reverse.mp listed, (header_macro_entry _ named.image own).1⟩

theorem macros_of_concat (images : List NamedImage) (named : NamedImage) :
    macrosOf tools (images ++ [named]) =
      headerMacros (named.upper tools) named.image ++ macrosOf tools images := by
  rw [macrosOf, List.reverse_concat, List.flatMap_cons]
  rfl

theorem macros_distinct {images : List NamedImage}
    (guards : images.Pairwise fun one other => one.upper tools ≠ other.upper tools) :
    ((macrosOf tools images).map Prod.fst).Nodup := by
  induction images using List.reverseRecOn with
  | nil => exact List.nodup_nil
  | append_singleton images named induction =>
      rcases List.pairwise_append.mp guards with ⟨before, -, last⟩
      rw [macros_of_concat, List.map_append, List.nodup_append]
      refine ⟨header_macros_distinct _ named.image, induction before, ?_⟩
      intro name own older listed same
      rcases List.mem_map.mp own with ⟨entry, member, rfl⟩
      rcases List.mem_map.mp listed with ⟨other, memberOther, rfl⟩
      rcases (header_macro_entry _ named.image member).1 with ⟨suffix, kind, written⟩
      rcases macro_of_images memberOther with ⟨image, inImages, another, kindOther, writtenOther⟩
      rw [written, writtenOther] at same
      exact last image inImages named List.mem_cons_self
        (macro_in_common kind kindOther same).symm

theorem guard_fresh {images : List NamedImage} {named : NamedImage}
    (apart : HeadersApart tools (images ++ [named])) (tokens : List Token) :
    Reading.defined ⟨macrosOf tools images, tokens, 0⟩ (macroName (named.upper tools) "_H") =
      false := by
  apply Bool.eq_false_iff.mpr
  intro defined
  rcases defined_iff.mp defined with ⟨entry, member, same⟩
  rcases macro_of_images member with ⟨older, listed, suffix, kind, name⟩
  rw [name] at same
  have differ := (List.pairwise_append.mp apart.guards).2.2 older listed named List.mem_cons_self
  exact differ (macro_in_common (by decide) kind same).symm

theorem declaration_literal {images : List NamedImage} {named : NamedImage}
    (apart : HeadersApart tools (images ++ [named])) (tokens : List Token) :
    Literal ⟨headerMacros (named.upper tools) named.image ++ macrosOf tools images, tokens, 0⟩
      (declarationTokens named.filename named.image) := by
  intro text member
  apply Bool.eq_false_iff.mpr
  intro defined
  rcases defined_iff.mp defined with ⟨entry, listed, same⟩
  rw [← macros_of_concat] at listed
  rcases macro_of_images listed with ⟨other, listedOther, suffix, kind, name⟩
  rw [same, name] at member
  exact apart.unshadowed other listedOther named (List.mem_append_right _ List.mem_cons_self)
    suffix kind (declared_macro_name _ _ kind member)

theorem apart_initial {images : List NamedImage} {named : NamedImage}
    (apart : HeadersApart tools (images ++ [named])) : HeadersApart tools images := by
  constructor
  · exact fun image member => apart.names image (List.mem_append_left _ member)
  · exact (List.pairwise_append.mp apart.guards).1
  · exact fun one member other memberOther => apart.unshadowed one
      (List.mem_append_left _ member) other (List.mem_append_left _ memberOther)

theorem include_headers {images : List NamedImage} (apart : HeadersApart tools images) :
    includeTexts tools.compiler (images.map (NamedImage.header tools)) =
      ⟨macrosOf tools images, declarationsOf images, 0⟩ := by
  induction images using List.reverseRecOn with
  | nil => rfl
  | append_singleton images named induction =>
      have name := apart.names named (List.mem_append_right _ List.mem_cons_self)
      have read := induction (apart_initial apart)
      have included := @include_header (named.upper tools) named.filename named.image
        tools.compiler (tools.compiler.words _ name) (tools.words _ name)
        ⟨macrosOf tools images, declarationsOf images, 0⟩ rfl (guard_fresh apart _)
        (declaration_literal apart _)
      unfold includeTexts at read ⊢
      rw [List.map_append, List.foldl_append, read, List.map_singleton, List.foldl_cons,
        List.foldl_nil, NamedImage.header, included, macros_of_concat, declarations_of_concat]

/-- The file of headers that are apart is taken if their names are. -/
theorem apart_accepted {images : List NamedImage} (apart : HeadersApart tools images)
    (macros : ∀ image ∈ images, ∀ suffix ∈ macroSuffixes,
      tools.compiler.MacroName (macroName (image.upper tools) suffix)) :
    Accepted tools.compiler
      (includeTexts tools.compiler (images.map (NamedImage.header tools)))
      (images.map NamedImage.array) := by
  rw [include_headers apart]
  constructor
  · rfl
  · exact declares_images tools.compiler [] images
  · rw [List.map_map]
    apply List.pairwise_map.mpr
    apply apart.guards.imp
    intro one other differ same
    exact differ (congrArg tools.python.upper same)
  · intro array member
    rcases List.mem_map.mp member with ⟨image, listed, rfl⟩
    exact apart.names image listed
  · intro entry member
    rcases macro_of_images member with ⟨image, listed, suffix, kind, name⟩
    rw [name]
    exact macros image listed suffix kind
  · exact macros_distinct apart.guards

variable {named : NamedImage} {images : List NamedImage} {arrays : List ArrayDeclaration}

theorem include_first (name : tools.compiler.Name named.filename) :
    includeTexts tools.compiler ((named :: images).map (NamedImage.header tools)) =
      (images.map (NamedImage.header tools)).foldl (includeText tools.compiler)
        ⟨headerMacros (named.upper tools) named.image,
          imageTokens named.filename named.image, 0⟩ := by
  have first := @include_first_header (named.upper tools) named.filename named.image tools.compiler
    (tools.compiler.words _ name) (tools.words _ name) (tools.longer _)
  rw [includeTexts, List.map_cons, List.foldl_cons, NamedImage.header, first]

theorem first_macros_free (name : tools.compiler.Name named.filename)
    (accepted : Accepted tools.compiler
      (includeTexts tools.compiler ((named :: images).map (NamedImage.header tools))) arrays) :
    ∀ suffix ∈ macroSuffixes, tools.compiler.MacroName (macroName (named.upper tools) suffix) := by
  intro suffix kind
  rcases macro_in_header (named.upper tools) named.image kind with ⟨body, member⟩
  rw [include_first name] at accepted
  exact accepted.macros _ (texts_keep_macros _ _ member)

theorem first_unshadowed (name : tools.compiler.Name named.filename)
    (names : ∀ image ∈ images, tools.compiler.Name image.filename)
    (accepted : Accepted tools.compiler
      (includeTexts tools.compiler ((named :: images).map (NamedImage.header tools))) arrays)
    {array : ArrayDeclaration} (declared : array ∈ arrays) :
    ∀ suffix ∈ macroSuffixes, array.name ≠ macroName (named.upper tools) suffix := by
  intro suffix kind
  have letter := macro_name_letter (named.upper tools) kind
  have hidden : Hidden (macroName (named.upper tools) suffix)
      ⟨headerMacros (named.upper tools) named.image,
        imageTokens named.filename named.image, 0⟩ := by
    rcases macro_in_header (named.upper tools) named.image kind with ⟨body, member⟩
    constructor
    · exact defined_iff.mpr ⟨_, member, rfl⟩
    · intro read
      rcases List.mem_cons.mp read with header | word
      · cases header
      · exact macro_name_longer (tools.longer named.filename) kind
          (declared_macro_name named.filename named.image kind word)
    · intro entry listed word
      exact (header_macro_entry _ named.image listed).2 _ word letter
  rw [include_first name] at accepted
  apply hidden_not_declared _ accepted declared
  apply texts_keep_hidden hidden
  intro text member
  rcases List.mem_map.mp member with ⟨image, listed, rfl⟩
  have other := names image listed
  exact header_without (tools.compiler.words _ other) (tools.words _ other) letter

end Toolchain

def asciiUpper : StrUpper where
  upper text := text.map Char.toUpper
  ascii _ _ := rfl

def basicCompiler : Compiler where
  alphabet := .basic
  Name := IsIdentifier
  MacroName := IsIdentifier
  DeclaresType header elementType :=
    header = "<stdint.h>".toList ∧ (elementSize elementType).isSome = true
  words _ name := name.1
  stdint := by decide

def basicTools : Toolchain where
  python := asciiUpper
  compiler := basicCompiler
  longer _ := Nat.le_of_eq (List.length_map Char.toUpper).symm
  words _ name := upper_word_chars name.1.2

end FractionsOS.Encode
