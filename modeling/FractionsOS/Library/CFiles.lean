import FractionsOS.Library.CHeader

/-!
# C files that include headers

Headers read one after the other, as by a file that includes them. Outside of
directives the names of macros are replaced by their bodies, which are not searched
for further names.
-/

namespace Library.CHeader

set_option autoImplicit false

/-- What a file may leave to the compiler: its words, the names that it takes for arrays and
for macros, and the types that its own headers declare. -/
structure Compiler where
  alphabet : Alphabet
  Name : List Char → Prop
  MacroName : List Char → Prop
  DeclaresType : List Char → List Char → Prop
  words : ∀ name, Name name → IsWord alphabet name
  /-- `<stdint.h>` declares `uint64_t`. -/
  stdint : DeclaresType "<stdint.h>".toList "uint64_t".toList

def expandToken (macros : List (List Char × List Token)) : Token → List Token
  | .word text => (macros.lookup text).getD [.word text]
  | .mark c => [.mark c]
  | .header name => [.header name]

def tokenText : Token → List Char
  | .word text => text
  | .mark c => [c]
  | .header name => name

/-- An included header stands among the tokens for what it declares. -/
def includeDirective (reading : Reading) (directive : List Char) (line : List Token) : Reading :=
  if directive = "include".toList then
    if 0 < reading.skipping then reading
    else { reading with tokens := reading.tokens ++ [.header (line.flatMap tokenText)] }
  else readDirective reading directive line

def includeLine (reading : Reading) : List Token → Reading
  | .mark '#' :: .word directive :: line => includeDirective reading directive line
  | line =>
      if 0 < reading.skipping then reading
      else { reading with tokens := reading.tokens ++ line.flatMap (expandToken reading.macros) }

def includeLines (reading : Reading) (lines : List (List Token)) : Reading :=
  lines.foldl includeLine reading

section Files

variable (compiler : Compiler)

def includeText (reading : Reading) (text : List Char) : Reading :=
  includeLines reading ((text.splitOn '\n').map (lexLine compiler.alphabet))

def includeTexts (texts : List (List Char)) : Reading :=
  texts.foldl (includeText compiler) Reading.start

/-- The declarations that a sequence of tokens consists of, each of a type that a header
included before it declares. -/
inductive Declares : List (List Char) → List Token → List ArrayDeclaration → Prop where
  | nil {headers : List (List Char)} : Declares headers [] []
  | header {headers : List (List Char)} {name : List Char} {rest : List Token}
      {arrays : List ArrayDeclaration} (others : Declares (name :: headers) rest arrays) :
      Declares headers (.header name :: rest) arrays
  | array {headers : List (List Char)} {tokens rest : List Token} {array : ArrayDeclaration}
      {arrays : List ArrayDeclaration} (first : readDeclaration tokens = some (array, rest))
      (typed : ∃ header ∈ headers, compiler.DeclaresType header array.elementType)
      (others : Declares headers rest arrays) : Declares headers tokens (array :: arrays)

/-- The compiler takes the file: it declares each array once, of a type that is known and under
a name that arrays may have, and defines each macro once, under a name that macros may have. -/
structure Accepted (reading : Reading) (arrays : List ArrayDeclaration) : Prop where
  closed : reading.skipping = 0
  declared : Declares compiler [] reading.tokens arrays
  distinct : (arrays.map ArrayDeclaration.name).Nodup
  names : ∀ array ∈ arrays, compiler.Name array.name
  macros : ∀ entry ∈ reading.macros, compiler.MacroName entry.1
  defined : (reading.macros.map Prod.fst).Nodup

end Files

theorem defined_iff {reading : Reading} {name : List Char} :
    reading.defined name = true ↔ ∃ entry ∈ reading.macros, name = entry.1 := by
  rw [Reading.defined, List.lookup_isSome_iff]
  constructor
  · rintro ⟨entry, member, same⟩
    exact ⟨entry, member, beq_iff_eq.mp same⟩
  · rintro ⟨entry, member, same⟩
    exact ⟨entry, member, beq_iff_eq.mpr same⟩

theorem undefined_lookup {reading : Reading} {name : List Char}
    (undefined : reading.defined name = false) : reading.macros.lookup name = none :=
  Option.not_isSome_iff_eq_none.mp (ne_true_of_eq_false undefined)

def Literal (reading : Reading) (line : List Token) : Prop :=
  ∀ text, Token.word text ∈ line → reading.defined text = false

theorem expand_literal {reading : Reading} {line : List Token} (literal : Literal reading line) :
    line.flatMap (expandToken reading.macros) = line := by
  induction line with
  | nil => rfl
  | cons token line induction =>
      have rest := induction fun text member => literal text (List.mem_cons_of_mem token member)
      have same : expandToken reading.macros token = [token] := by
        cases token with
        | mark c => rfl
        | word text =>
            have undefined := literal text List.mem_cons_self
            rw [expandToken, undefined_lookup undefined]
            rfl
        | header name => rfl
      rw [List.flatMap_cons, same, rest]
      rfl

theorem include_plain_line (reading : Reading) (active : reading.skipping = 0) {line : List Token}
    (plain : IsPlain line) (literal : Literal reading line) :
    includeLine reading line = { reading with tokens := reading.tokens ++ line } := by
  unfold includeLine
  split
  · exact absurd rfl plain
  · rw [if_neg (by rw [active]; exact Nat.lt_irrefl 0), expand_literal literal]

theorem include_plain_lines (reading : Reading) (active : reading.skipping = 0)
    (lines : List (List Token)) (plain : ∀ line ∈ lines, IsPlain line)
    (literal : ∀ line ∈ lines, Literal reading line) :
    includeLines reading lines = { reading with tokens := reading.tokens ++ lines.flatten } := by
  induction lines generalizing reading with
  | nil =>
      rw [List.flatten_nil, List.append_nil]
      rfl
  | cons line lines induction =>
      have rest := induction { reading with tokens := reading.tokens ++ line } active
        (fun other member => plain other (List.mem_cons_of_mem line member))
        (fun other member => literal other (List.mem_cons_of_mem line member))
      have first := include_plain_line reading active (plain line List.mem_cons_self)
        (literal line List.mem_cons_self)
      unfold includeLines at rest ⊢
      rw [List.foldl_cons, first, rest, List.flatten_cons, List.append_assoc]

/-- The line neither opens a conditional block nor closes one. -/
def IsInner (line : List Token) : Prop :=
  ∀ directive rest, line = .mark '#' :: .word directive :: rest →
    directive ≠ "ifndef".toList ∧ directive ≠ "endif".toList

theorem plain_is_inner {line : List Token} (plain : IsPlain line) : IsInner line := by
  rintro directive rest rfl
  exact absurd rfl plain

theorem skip_line {reading : Reading} (skipping : 0 < reading.skipping) {line : List Token}
    (inner : IsInner line) : includeLine reading line = reading := by
  unfold includeLine
  split
  · rename_i directive rest
    rcases inner directive rest rfl with ⟨opens, closes⟩
    rw [includeDirective, if_pos skipping, readDirective, if_neg opens, if_neg closes]
    split_ifs
    · rfl
    · unfold readDefine
      split
      · rw [if_pos skipping]
      · rfl
    · rfl
  · rw [if_pos skipping]

theorem skip_lines {reading : Reading} (skipping : 0 < reading.skipping)
    {lines : List (List Token)} (inner : ∀ line ∈ lines, IsInner line) :
    includeLines reading lines = reading := by
  induction lines with
  | nil => rfl
  | cons line lines induction =>
      have rest := induction fun other member => inner other (List.mem_cons_of_mem line member)
      rw [includeLines, List.foldl_cons, skip_line skipping (inner line List.mem_cons_self)]
      exact rest

/-- A directive reads no token and defines one macro at most. -/
theorem directive_reads (reading : Reading) (directive : List Char) (line : List Token) :
    (readDirective reading directive line).tokens = reading.tokens ∧
      ((readDirective reading directive line).macros = reading.macros ∨
        ∃ name body, line = .word name :: body ∧
          (readDirective reading directive line).macros = (name, body) :: reading.macros) := by
  unfold readDirective
  split_ifs
  · unfold readIfndef
    split
    · split_ifs <;> exact ⟨rfl, .inl rfl⟩
    · exact ⟨rfl, .inl rfl⟩
  · unfold readDefine
    split
    · split_ifs
      · exact ⟨rfl, .inl rfl⟩
      · exact ⟨rfl, .inr ⟨_, _, rfl, rfl⟩⟩
    · exact ⟨rfl, .inl rfl⟩
  · exact ⟨rfl, .inl rfl⟩
  · exact ⟨rfl, .inl rfl⟩

theorem directive_includes (reading : Reading) (directive : List Char) (line : List Token) :
    (∀ text, Token.word text ∈ (includeDirective reading directive line).tokens →
        Token.word text ∈ reading.tokens) ∧
      ((includeDirective reading directive line).macros = reading.macros ∨
        ∃ name body, line = .word name :: body ∧
          (includeDirective reading directive line).macros = (name, body) :: reading.macros) := by
  unfold includeDirective
  split_ifs
  · exact ⟨fun _ member => member, .inl rfl⟩
  · refine ⟨?_, .inl rfl⟩
    intro text member
    rcases List.mem_append.mp member with read | header
    · exact read
    · cases List.mem_singleton.mp header
  · rcases directive_reads reading directive line with ⟨sameTokens, macros⟩
    rw [sameTokens]
    exact ⟨fun _ member => member, macros⟩

theorem directive_keeps_macros (reading : Reading) (directive : List Char) (line : List Token) :
    reading.macros ⊆ (includeDirective reading directive line).macros := by
  rcases (directive_includes reading directive line).2 with same | ⟨name, body, -, defined⟩
  · rw [same]
    exact List.Subset.refl _
  · rw [defined]
    exact List.subset_cons_self _ _

theorem line_keeps_macros (reading : Reading) (line : List Token) :
    reading.macros ⊆ (includeLine reading line).macros := by
  unfold includeLine
  split
  · exact directive_keeps_macros reading _ _
  · split_ifs <;> exact List.Subset.refl _

variable {compiler : Compiler}

theorem text_keeps_macros (reading : Reading) (text : List Char) :
    reading.macros ⊆ (includeText compiler reading text).macros := by
  apply List.foldlRecOn (motive := fun later : Reading => reading.macros ⊆ later.macros)
  · exact List.Subset.refl _
  · intro later kept line _
    exact List.Subset.trans kept (line_keeps_macros later line)

theorem texts_keep_macros (reading : Reading) (texts : List (List Char)) :
    reading.macros ⊆ (texts.foldl (includeText compiler) reading).macros := by
  apply List.foldlRecOn (motive := fun later : Reading => reading.macros ⊆ later.macros)
  · exact List.Subset.refl _
  · intro later kept text _
    exact List.Subset.trans kept (text_keeps_macros later text)

/-- The name is a macro, and no token that is read or stands in a body. -/
structure Hidden (name : List Char) (reading : Reading) : Prop where
  defined : reading.defined name = true
  unread : Token.word name ∉ reading.tokens
  bodies : ∀ entry ∈ reading.macros, Token.word name ∉ entry.2

def DefinesWithout (name : List Char) (line : List Token) : Prop :=
  ∀ directive defined body, line = .mark '#' :: directive :: defined :: body →
    Token.word name ∉ body

theorem hidden_not_expanded {name : List Char} {reading : Reading} (hidden : Hidden name reading)
    (line : List Token) : Token.word name ∉ line.flatMap (expandToken reading.macros) := by
  intro member
  rcases List.mem_flatMap.mp member with ⟨token, -, expanded⟩
  cases token with
  | mark c => cases List.mem_singleton.mp expanded
  | header name => cases List.mem_singleton.mp expanded
  | word text =>
      rw [expandToken] at expanded
      cases found : reading.macros.lookup text with
      | some body =>
          rw [found] at expanded
          obtain ⟨before, rest, written, -⟩ := List.lookup_eq_some_iff.mp found
          have entry : (text, body) ∈ reading.macros := by
            rw [written]
            exact List.mem_append_right before List.mem_cons_self
          exact hidden.bodies _ entry expanded
      | none =>
          rw [found] at expanded
          have same := Token.word.inj (List.mem_singleton.mp expanded)
          have defined := hidden.defined
          rw [Reading.defined, same, found] at defined
          cases defined

theorem directive_keeps_hidden {name : List Char} {reading : Reading}
    (hidden : Hidden name reading) (directive : List Char) (line : List Token)
    (without : ∀ defined body, line = defined :: body → Token.word name ∉ body) :
    Hidden name (includeDirective reading directive line) := by
  rcases directive_includes reading directive line with ⟨words, macros⟩
  constructor
  · rcases defined_iff.mp hidden.defined with ⟨entry, member, same⟩
    exact defined_iff.mpr ⟨entry, directive_keeps_macros reading directive line member, same⟩
  · exact fun read => hidden.unread (words name read)
  · rcases macros with same | ⟨defined, body, written, same⟩
    · rw [same]
      exact hidden.bodies
    · rw [same]
      intro entry member
      rcases List.mem_cons.mp member with rfl | older
      · exact without (.word defined) body written
      · exact hidden.bodies entry older

theorem line_keeps_hidden {name : List Char} {reading : Reading} (hidden : Hidden name reading)
    {line : List Token} (without : DefinesWithout name line) :
    Hidden name (includeLine reading line) := by
  unfold includeLine
  split
  · rename_i directive rest
    apply directive_keeps_hidden hidden
    intro defined body same
    exact without (.word directive) defined body (by rw [same])
  · split_ifs
    · exact hidden
    · refine ⟨hidden.defined, ?_, hidden.bodies⟩
      rw [List.mem_append]
      rintro (read | expanded)
      · exact hidden.unread read
      · exact hidden_not_expanded hidden _ expanded

def TextWithout (compiler : Compiler) (name text : List Char) : Prop :=
  ∀ line ∈ (text.splitOn '\n').map (lexLine compiler.alphabet), DefinesWithout name line

theorem text_keeps_hidden {name : List Char} {reading : Reading} (hidden : Hidden name reading)
    {text : List Char} (without : TextWithout compiler name text) :
    Hidden name (includeText compiler reading text) := by
  apply List.foldlRecOn (motive := Hidden name)
  · exact hidden
  · intro later hidden line member
    exact line_keeps_hidden hidden (without line member)

theorem texts_keep_hidden {name : List Char} {reading : Reading} (hidden : Hidden name reading)
    {texts : List (List Char)} (without : ∀ text ∈ texts, TextWithout compiler name text) :
    Hidden name (texts.foldl (includeText compiler) reading) := by
  apply List.foldlRecOn (motive := Hidden name)
  · exact hidden
  · intro later hidden text member
    exact text_keeps_hidden hidden (without text member)

theorem read_initialisers_rest (tokens : List Token) {values : List Nat} {rest : List Token}
    (read : readInitialisers tokens = some (values, rest)) : rest <:+ tokens := by
  induction tokens using readInitialisers.induct generalizing values rest with
  | case1 remaining =>
      rw [readInitialisers] at read
      cases read
      exact ⟨[.mark '}', .mark ';'], rfl⟩
  | case2 text remaining =>
      rw [readInitialisers, Option.map_eq_some_iff] at read
      rcases read with ⟨value, -, same⟩
      cases same
      exact ⟨[.word text, .mark '}', .mark ';'], rfl⟩
  | case3 text remaining induction =>
      rw [readInitialisers, Option.bind_eq_some_iff] at read
      rcases read with ⟨value, -, others⟩
      rw [Option.map_eq_some_iff] at others
      rcases others with ⟨later, inner, same⟩
      cases same
      rcases induction inner with ⟨skipped, joined⟩
      exact ⟨.word text :: .mark ',' :: skipped, by rw [← joined]; rfl⟩
  | case4 tokens noEnd noLast noNext =>
      rw [readInitialisers] at read
      · cases read
      · exact noEnd
      · exact noLast
      · exact noNext

theorem read_declaration_tokens {tokens rest : List Token} {array : ArrayDeclaration}
    (read : readDeclaration tokens = some (array, rest)) :
    .word array.name ∈ tokens ∧ rest ⊆ tokens := by
  unfold readDeclaration at read
  split at read
  · split_ifs at read
    rw [Option.map_eq_some_iff] at read
    rcases read with ⟨initialisers, inner, same⟩
    cases same
    have kept := (read_initialisers_rest _ inner).subset
    refine ⟨by simp, ?_⟩
    intro token member
    simp [kept member]
  · cases read

theorem declared_name_read {headers : List (List Char)} {tokens : List Token}
    {arrays : List ArrayDeclaration} (declares : Declares compiler headers tokens arrays)
    {array : ArrayDeclaration} (member : array ∈ arrays) : .word array.name ∈ tokens := by
  induction declares with
  | nil => cases member
  | header others induction => exact List.mem_cons_of_mem _ (induction member)
  | array first typed others induction =>
      rcases List.mem_cons.mp member with rfl | later
      · exact (read_declaration_tokens first).1
      · exact (read_declaration_tokens first).2 (induction later)

theorem hidden_not_declared {name : List Char} {reading : Reading} (hidden : Hidden name reading)
    {arrays : List ArrayDeclaration} (accepted : Accepted compiler reading arrays)
    {array : ArrayDeclaration} (member : array ∈ arrays) : array.name ≠ name := by
  intro same
  have read := declared_name_read accepted.declared member
  rw [same] at read
  exact hidden.unread read

end Library.CHeader
