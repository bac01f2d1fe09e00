import FractionsOS.Images.IncludedHeaders

/-!
# Include guards

A header is skipped once its guard is defined. However often a C file includes generated
headers, it reads the first one of each guard.
-/

namespace FractionsOS.Encode

open Library.CHeader Library.Numerals

set_option autoImplicit false

section Skipped

variable {upper filename : List Char} {image : RgbaImage} {compiler : Compiler}

theorem opening_inner : ∀ line ∈ (openingTokens upper filename image).tail, IsInner line := by
  intro line member
  rintro directive rest rfl
  simp only [openingTokens, List.tail_cons, List.mem_cons, List.cons.injEq, Token.word.injEq,
    declaratorTokens, reduceCtorEq, List.not_mem_nil, false_and, true_and, or_false,
    false_or, -String.reduceToList] at member
  rcases member with ⟨rfl, _⟩ | ⟨rfl, _⟩ | ⟨rfl, _⟩ | ⟨rfl, _⟩ <;> decide

theorem closing_inner : ∀ line ∈ closingTokens.take 2, IsInner line := by
  intro line member
  apply plain_is_inner
  simp only [closingTokens, List.take_succ_cons, List.take_zero, List.mem_cons, List.not_mem_nil,
    or_false] at member
  rcases member with rfl | rfl
  · simp [IsPlain]
  · simp [IsPlain]

/-- A header whose guard is defined leaves no trace. -/
theorem skip_header (isWord : IsWord compiler.alphabet filename)
    (upperWord : ∀ c ∈ upper, compiler.alphabet.wordChar c = true) {reading : Reading}
    (active : reading.skipping = 0)
    (guarded : reading.defined (macroName upper "_H") = true) :
    includeText compiler reading (headerText upper filename image) = reading := by
  let inside := (openingTokens upper filename image).tail ++
    ((List.range image.height).map (rowTokens image) ++ closingTokens.take 2)
  have inner : ∀ line ∈ inside, IsInner line := by
    intro line member
    rcases List.mem_append.mp member with opening | later
    · exact opening_inner line opening
    · rcases List.mem_append.mp later with row | closing
      · exact plain_is_inner (rows_plain image line row)
      · exact closing_inner line closing
  have lines : openingTokens upper filename image ++
      ((List.range image.height).map (rowTokens image) ++ (closingTokens ++ [[]])) =
        [.mark '#', .word "ifndef".toList, .word (macroName upper "_H")] ::
          (inside ++ [[.mark '#', .word "endif".toList], []]) := by
    rw [List.append_assoc, List.append_assoc]
    rfl
  have opened : includeLine reading
      [.mark '#', .word "ifndef".toList, .word (macroName upper "_H")] =
        { reading with skipping := 1 } := by
    change readIfndef reading [.word (macroName upper "_H")] = _
    rw [readIfndef, active, if_neg (Nat.lt_irrefl 0), guarded, if_pos rfl]
  have skipped : includeLines { reading with skipping := 1 } inside = { reading with skipping := 1 } :=
    skip_lines Nat.zero_lt_one inner
  unfold includeLines at skipped
  rw [includeText, header_tokens image isWord upperWord, lines, includeLines, List.foldl_cons,
    opened, List.foldl_append, skipped]
  change Reading.mk reading.macros (reading.tokens ++ []) 0 = reading
  rw [List.append_nil, ← active]

end Skipped

variable (tools : Toolchain)

def SameGuard (one other : NamedImage) : Prop := one.upper tools = other.upper tools

instance (one other : NamedImage) : Decidable (SameGuard tools one other) :=
  inferInstanceAs (Decidable (_ = _))

def addHeader (read : List NamedImage) (named : NamedImage) : List NamedImage :=
  if ∃ older ∈ read, SameGuard tools older named then read else read ++ [named]

def firstIncluded (images : List NamedImage) : List NamedImage :=
  images.foldl (addHeader tools) []

theorem first_included_concat (images : List NamedImage) (named : NamedImage) :
    firstIncluded tools (images ++ [named]) =
      addHeader tools (firstIncluded tools images) named := by
  rw [firstIncluded, List.foldl_append]
  rfl

theorem first_included_sublist (images : List NamedImage) :
    (firstIncluded tools images).Sublist images := by
  induction images using List.reverseRecOn with
  | nil => exact List.Sublist.slnil
  | append_singleton images named induction =>
      rw [first_included_concat, addHeader]
      split_ifs
      · exact induction.trans (List.sublist_append_left images [named])
      · exact induction.append (List.Sublist.refl [named])

theorem first_included_guards (images : List NamedImage) :
    (firstIncluded tools images).Pairwise fun one other => ¬SameGuard tools one other := by
  induction images using List.reverseRecOn with
  | nil => exact List.Pairwise.nil
  | append_singleton images named induction =>
      rw [first_included_concat, addHeader]
      split_ifs with guarded
      · exact induction
      · rw [List.pairwise_append]
        refine ⟨induction, List.pairwise_singleton _ named, ?_⟩
        intro older member other last same
        rw [List.mem_singleton.mp last] at same
        exact guarded ⟨older, member, same⟩

theorem first_included_covers (images : List NamedImage) :
    ∀ image ∈ images, ∃ first ∈ firstIncluded tools images, SameGuard tools first image := by
  induction images using List.reverseRecOn with
  | nil => exact nofun
  | append_singleton images named induction =>
      intro image member
      rw [first_included_concat, addHeader]
      split_ifs with guarded
      · rcases List.mem_append.mp member with older | last
        · exact induction image older
        · rw [List.mem_singleton.mp last]
          exact guarded
      · rcases List.mem_append.mp member with older | last
        · rcases induction image older with ⟨first, read, same⟩
          exact ⟨first, List.mem_append_left _ read, same⟩
        · exact ⟨image, List.mem_append_right _ last, rfl⟩

/-- Headers in any sequence, with repetitions, whose names the compiler takes and no array of
which is named as a macro. -/
structure Includable (images : List NamedImage) : Prop where
  names : ∀ image ∈ images, tools.compiler.Name image.filename
  macroNames : ∀ image ∈ images, ∀ suffix ∈ macroSuffixes,
    tools.compiler.MacroName (macroName (image.upper tools) suffix)
  unshadowed : ∀ one ∈ images, ∀ other ∈ images, ∀ suffix ∈ macroSuffixes,
    other.filename ≠ macroName (one.upper tools) suffix

variable {tools} {images : List NamedImage}

theorem includable_sublist {some : List NamedImage} (sublist : some.Sublist images)
    (includable : Includable tools images) : Includable tools some where
  names image member := includable.names image (sublist.mem member)
  macroNames image member := includable.macroNames image (sublist.mem member)
  unshadowed one member other memberOther :=
    includable.unshadowed one (sublist.mem member) other (sublist.mem memberOther)

theorem first_included_apart (includable : Includable tools images) :
    HeadersApart tools (firstIncluded tools images) := by
  have kept := includable_sublist (first_included_sublist tools images) includable
  exact ⟨kept.names, first_included_guards tools images, kept.unshadowed⟩

theorem guard_defined {older named : NamedImage} (member : older ∈ images)
    (same : SameGuard tools older named) (tokens : List Token) :
    Reading.defined ⟨macrosOf tools images, tokens, 0⟩ (macroName (named.upper tools) "_H") =
      true := by
  have guard : "_H" ∈ macroSuffixes := by decide
  rcases macro_in_header (older.upper tools) older.image guard with ⟨body, entry⟩
  have listed : (macroName (older.upper tools) "_H", body) ∈ macrosOf tools images :=
    List.mem_flatMap.mpr ⟨older, List.mem_reverse.mpr member, entry⟩
  have name : macroName (named.upper tools) "_H" = macroName (older.upper tools) "_H" :=
    congrArg (· ++ "_H".toList) (Eq.symm same)
  exact defined_iff.mpr ⟨_, listed, name⟩

theorem include_concat (images : List NamedImage) (named : NamedImage) :
    includeTexts tools.compiler ((images ++ [named]).map (NamedImage.header tools)) =
      includeText tools.compiler
        (includeTexts tools.compiler (images.map (NamedImage.header tools)))
        (named.header tools) := by
  rw [List.map_append, List.map_singleton, includeTexts, List.foldl_append, List.foldl_cons,
    List.foldl_nil, includeTexts]

/-- Headers whose guards were defined before them make no difference. -/
theorem include_guarded (includable : Includable tools images) :
    includeTexts tools.compiler (images.map (NamedImage.header tools)) =
      includeTexts tools.compiler ((firstIncluded tools images).map (NamedImage.header tools)) := by
  induction images using List.reverseRecOn with
  | nil => rfl
  | append_singleton images named induction =>
      have before := includable_sublist (List.sublist_append_left images [named]) includable
      have name := includable.names named (by simp)
      rw [include_concat, induction before, first_included_concat, addHeader]
      split_ifs with guarded
      · rcases guarded with ⟨older, member, same⟩
        rw [include_headers (first_included_apart before)]
        exact skip_header (tools.compiler.words _ name) (tools.words _ name) rfl
          (guard_defined member same _)
      · rw [include_concat]

/-- Whatever headers a C file includes, in whatever sequence and however often, the compiler
takes it, and it declares the array of the first one of each guard, once. -/
theorem headers_included_once (includable : Includable tools images) :
    Accepted tools.compiler
        (includeTexts tools.compiler (images.map (NamedImage.header tools)))
        ((firstIncluded tools images).map NamedImage.array) ∧
      (firstIncluded tools images).Sublist images ∧
      ∀ image ∈ images, ∃ first ∈ firstIncluded tools images, SameGuard tools first image := by
  have kept := includable_sublist (first_included_sublist tools images) includable
  refine ⟨?_, first_included_sublist tools images, first_included_covers tools images⟩
  rw [include_guarded includable]
  exact apart_accepted (first_included_apart includable) kept.macroNames

def guardedImages : List NamedImage :=
  let dot : RgbaImage := ⟨1, 1, [default], rfl⟩
  [⟨"logo".toList, dot⟩, ⟨"Logo".toList, dot⟩, ⟨"logo".toList, dot⟩]

theorem headers_included_once_guarded :
    Accepted basicTools.compiler
        (includeTexts basicTools.compiler (guardedImages.map (NamedImage.header basicTools)))
        ((firstIncluded basicTools guardedImages).map NamedImage.array) ∧
      (firstIncluded basicTools guardedImages).Sublist guardedImages ∧
      ∀ image ∈ guardedImages, ∃ first ∈ firstIncluded basicTools guardedImages,
        SameGuard basicTools first image := by
  apply headers_included_once
  constructor
  · change ∀ image ∈ guardedImages, IsIdentifier image.filename
    decide
  · change ∀ image ∈ guardedImages, ∀ suffix ∈ macroSuffixes,
      IsIdentifier (macroName (image.filename.map Char.toUpper) suffix)
    decide
  · change ∀ one ∈ guardedImages, ∀ other ∈ guardedImages, ∀ suffix ∈ macroSuffixes,
      other.filename ≠ macroName (one.filename.map Char.toUpper) suffix
    decide

end FractionsOS.Encode
