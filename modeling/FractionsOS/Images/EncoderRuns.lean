import FractionsOS.Images.IncludedHeaders
import Mathlib.Data.List.Nodup
import Mathlib.Logic.Function.Basic

/-!
# Runs of the encoder

`encode.py` writes one header for each image that it finds, under the image's name
without its extension. Names that differ elsewhere than in letter case and extension
keep their headers apart.
-/

namespace FractionsOS.Encode

open Library.CHeader Library.Numerals

set_option autoImplicit false

def inputDir : List Char := "src/images/bmp".toList

def outputDir : List Char := "src/images/headers".toList

def pathJoin (directory name : List Char) : List Char := directory ++ '/' :: name

def basename (path : List Char) : List Char := (path.reverse.takeWhile (· ≠ '/')).reverse

/-- `os.path.splitext` of a base name. The last dot begins the extension, but not if
there are only dots before it. -/
def splitext (name : List Char) : List Char × List Char :=
  let extension := (name.reverse.takeWhile (· ≠ '.')).reverse
  match name.reverse.dropWhile (· ≠ '.') with
  | [] => (name, [])
  | _ :: before =>
      if before.all (· == '.') then (name, []) else (before.reverse, '.' :: extension)

def filenameOf (imagePath : List Char) : List Char := (splitext (basename imagePath)).1

def headerFilename (imagePath : List Char) : List Char :=
  pathJoin outputDir (filenameOf imagePath ++ ".h".toList)

structure Directory where
  names : List (List Char)
  distinct : names.Nodup
  single : ∀ name ∈ names, '/' ∉ name

/-- `glob.glob` for all names with an extension. Hidden files are passed by. -/
def globImages (directory : Directory) (extension : String) : List (List Char) :=
  (directory.names.filter fun name =>
    name.head? ≠ some '.' ∧ extension.toList <:+ name).map (pathJoin inputDir)

def imageFiles (directory : Directory) : List (List Char) :=
  globImages directory ".bmp" ++ globImages directory ".png" ++ globImages directory ".jpg"

abbrev Files := List Char → Option (List Char)

section Run

variable (python : StrUpper) (openImage : List Char → RgbaImage)

def imageText (imagePath : List Char) : List Char :=
  headerText (python.upper (filenameOf imagePath)) (filenameOf imagePath) (openImage imagePath)

/-- A file opened for writing keeps nothing of what it had. -/
def writeHeader (files : Files) (imagePath : List Char) : Files :=
  Function.update files (headerFilename imagePath) (some (imageText python openImage imagePath))

def encodeImages (directory : Directory) (files : Files) : Files :=
  (imageFiles directory).foldl (writeHeader python openImage) files

end Run

def arrayOf (openImage : List Char → RgbaImage) (imagePath : List Char) : ArrayDeclaration :=
  ⟨"uint64_t".toList, filenameOf imagePath, (openImage imagePath).pixels.map colorOf⟩

section Lost

variable (tools : Toolchain) (openImage : List Char → RgbaImage)

def includeHeaders (files : Files) (order : List (List Char)) : Reading :=
  includeTexts tools.compiler
    (order.map fun imagePath => (files (headerFilename imagePath)).getD [])

/-- The guard of an image or one of its other macros. -/
def macroOf (imagePath : List Char) (suffix : String) : List Char :=
  macroName (tools.python.upper (filenameOf imagePath)) suffix

/-- Each image has its header and its macros, and the compiler takes a file that includes all
headers, in whatever order, and finds the arrays of all images in it. -/
structure NoImageLost (directory : Directory) (files : Files) : Prop where
  headers : ((imageFiles directory).map headerFilename).Nodup
  kept : ∀ imagePath ∈ imageFiles directory,
    encodeImages tools.python openImage directory files (headerFilename imagePath) =
      some (imageText tools.python openImage imagePath)
  macros : ∀ one ∈ imageFiles directory, ∀ other ∈ imageFiles directory, one ≠ other →
    ∀ suffix ∈ macroSuffixes, ∀ kind ∈ macroSuffixes,
      macroOf tools one suffix ≠ macroOf tools other kind
  declared : ∀ order : List (List Char), order.Perm (imageFiles directory) → ∃ arrays,
    Accepted tools.compiler
      (includeHeaders tools (encodeImages tools.python openImage directory files) order) arrays ∧
      ∀ imagePath ∈ imageFiles directory, arrayOf openImage imagePath ∈ arrays

/-- The names of the images differ in more than letter case and extension. The compiler takes
them for arrays and those of the macros for macros, and no macro has the name of an image. -/
structure NamesApart (directory : Directory) : Prop where
  apart : ∀ one ∈ imageFiles directory, ∀ other ∈ imageFiles directory, one ≠ other →
    tools.python.upper (filenameOf one) ≠ tools.python.upper (filenameOf other)
  names : ∀ imagePath ∈ imageFiles directory, tools.compiler.Name (filenameOf imagePath)
  macroNames : ∀ imagePath ∈ imageFiles directory, ∀ suffix ∈ macroSuffixes,
    tools.compiler.MacroName (macroOf tools imagePath suffix)
  unshadowed : ∀ one ∈ imageFiles directory, ∀ other ∈ imageFiles directory,
    ∀ suffix ∈ macroSuffixes, filenameOf other ≠ macroOf tools one suffix

end Lost

theorem path_join_injective (directory : List Char) : Function.Injective (pathJoin directory) := by
  intro one other same
  exact (List.cons.inj (List.append_cancel_left same)).2

theorem header_filename_iff {one other : List Char} :
    headerFilename one = headerFilename other ↔ filenameOf one = filenameOf other := by
  constructor
  · intro same
    exact List.append_cancel_right (path_join_injective outputDir same)
  · intro same
    rw [headerFilename, headerFilename, same]

theorem basename_join (directory : List Char) {name : List Char} (single : '/' ∉ name) :
    basename (pathJoin directory name) = name := by
  have reversed : ∀ c ∈ name.reverse, decide (c ≠ '/') = true := by
    intro c member
    apply decide_eq_true
    rintro rfl
    exact single (List.mem_reverse.mp member)
  rw [basename, pathJoin, List.reverse_append, List.reverse_cons, List.append_assoc,
    List.takeWhile_append_of_pos reversed]
  simp

theorem splitext_extension {root letters : List Char} (visible : root.head? ≠ some '.')
    (nonempty : root ≠ []) (plain : '.' ∉ letters) :
    splitext (root ++ '.' :: letters) = (root, '.' :: letters) := by
  have reversed : ∀ c ∈ letters.reverse, decide (c ≠ '.') = true := by
    intro c member
    apply decide_eq_true
    rintro rfl
    exact plain (List.mem_reverse.mp member)
  have taken : (root ++ '.' :: letters).reverse.takeWhile (· ≠ '.') = letters.reverse := by
    rw [List.reverse_append, List.reverse_cons, List.append_assoc,
      List.takeWhile_append_of_pos reversed]
    simp
  have dropped : (root ++ '.' :: letters).reverse.dropWhile (· ≠ '.') = '.' :: root.reverse := by
    rw [List.reverse_append, List.reverse_cons, List.append_assoc,
      List.dropWhile_append_of_pos reversed]
    simp
  have notDots : ¬root.reverse.all (· == '.') = true := by
    intro dots
    cases root with
    | nil => exact nonempty rfl
    | cons c root =>
        have first := List.all_eq_true.mp dots c (List.mem_reverse.mpr List.mem_cons_self)
        rw [beq_iff_eq.mp first] at visible
        exact visible rfl
  unfold splitext
  rw [dropped]
  dsimp only
  rw [if_neg notDots, taken, List.reverse_reverse, List.reverse_reverse]

def extensions : List String := [".bmp", ".png", ".jpg"]

theorem mem_image_files {directory : Directory} {imagePath : List Char} :
    imagePath ∈ imageFiles directory ↔
      ∃ extension ∈ extensions, imagePath ∈ globImages directory extension := by
  rw [imageFiles, extensions]
  simp

theorem image_name {directory : Directory} {imagePath : List Char}
    (found : imagePath ∈ imageFiles directory) :
    ∃ extension ∈ extensions, basename imagePath = filenameOf imagePath ++ extension.toList := by
  rcases mem_image_files.mp found with ⟨extension, member, glob⟩
  rcases List.mem_map.mp glob with ⟨name, listed, rfl⟩
  rw [List.mem_filter, decide_eq_true_iff] at listed
  rcases listed with ⟨inDirectory, visible, root, rfl⟩
  have dotted : ∀ extension ∈ extensions, extension.toList = '.' :: extension.toList.tail ∧
      '.' ∉ extension.toList.tail := by
    decide
  rcases dotted extension member with ⟨dot, plain⟩
  have nonempty : root ≠ [] := by
    rintro rfl
    rw [List.nil_append, dot] at visible
    exact visible rfl
  have visibleRoot : root.head? ≠ some '.' := by
    rwa [List.head?_append_of_ne_nil _ nonempty] at visible
  refine ⟨extension, member, ?_⟩
  rw [filenameOf, basename_join inputDir (directory.single _ inDirectory), dot,
    splitext_extension visibleRoot nonempty plain]

/-- Two images share a header if and only if their names differ in the extension only. -/
theorem header_shared_iff {directory : Directory} {one other : List Char}
    (found : one ∈ imageFiles directory) (foundOther : other ∈ imageFiles directory) :
    headerFilename one = headerFilename other ↔
      ∃ root, ∃ extension ∈ extensions, ∃ another ∈ extensions,
        basename one = root ++ extension.toList ∧ basename other = root ++ another.toList := by
  have lengths : ∀ extension ∈ extensions, extension.toList.length = 4 := by decide
  rcases image_name found with ⟨extension, member, name⟩
  rcases image_name foundOther with ⟨another, memberAnother, nameOther⟩
  rw [header_filename_iff]
  constructor
  · intro same
    rw [← same] at nameOther
    exact ⟨filenameOf one, extension, member, another, memberAnother, name, nameOther⟩
  · rintro ⟨root, first, isFirst, second, isSecond, written, writtenOther⟩
    have sameRoot := (List.append_inj' (name.symm.trans written)
      ((lengths extension member).trans (lengths first isFirst).symm)).1
    have sameOther := (List.append_inj' (nameOther.symm.trans writtenOther)
      ((lengths another memberAnother).trans (lengths second isSecond).symm)).1
    rw [sameRoot, sameOther]

theorem glob_nodup (directory : Directory) (extension : String) :
    (globImages directory extension).Nodup :=
  (directory.distinct.filter _).map (path_join_injective inputDir)

theorem globs_disjoint (directory : Directory) (one other : String)
    (sameLength : one.toList.length = other.toList.length) (apart : one.toList ≠ other.toList) :
    ∀ path ∈ globImages directory one, ∀ another ∈ globImages directory other, path ≠ another := by
  intro path found another foundOther same
  rcases List.mem_map.mp found with ⟨name, listed, rfl⟩
  rcases List.mem_map.mp foundOther with ⟨otherName, otherListed, rfl⟩
  cases path_join_injective inputDir same
  rw [List.mem_filter, decide_eq_true_iff] at listed otherListed
  rcases listed.2.2 with ⟨root, rfl⟩
  rcases otherListed.2.2 with ⟨otherRoot, ends⟩
  exact apart (List.append_inj' ends sameLength.symm).2.symm

theorem image_files_nodup (directory : Directory) : (imageFiles directory).Nodup := by
  have bmpPng := globs_disjoint directory ".bmp" ".png" (by decide) (by decide)
  have bmpJpg := globs_disjoint directory ".bmp" ".jpg" (by decide) (by decide)
  have pngJpg := globs_disjoint directory ".png" ".jpg" (by decide) (by decide)
  rw [imageFiles, List.nodup_append, List.nodup_append]
  refine ⟨⟨glob_nodup _ _, glob_nodup _ _, bmpPng⟩, glob_nodup _ _, ?_⟩
  intro path found
  rcases List.mem_append.mp found with bmp | png
  · exact bmpJpg path bmp
  · exact pngJpg path png

section Run

variable (python : StrUpper) (openImage : List Char → RgbaImage)

theorem written_elsewhere (paths : List (List Char)) (files : Files) {header : List Char}
    (apart : header ∉ paths.map headerFilename) :
    paths.foldl (writeHeader python openImage) files header = files header := by
  induction paths generalizing files with
  | nil => rfl
  | cons path paths induction =>
      rw [List.map_cons, List.mem_cons, not_or] at apart
      rw [List.foldl_cons, induction _ apart.2]
      exact Function.update_of_ne apart.1 _ _

theorem written_kept {paths : List (List Char)} (distinct : (paths.map headerFilename).Nodup)
    (files : Files) :
    ∀ path ∈ paths, paths.foldl (writeHeader python openImage) files (headerFilename path) =
      some (imageText python openImage path) := by
  induction paths generalizing files with
  | nil => exact nofun
  | cons first paths induction =>
      rw [List.map_cons, List.nodup_cons] at distinct
      intro path member
      rcases List.mem_cons.mp member with rfl | later
      · rw [List.foldl_cons, written_elsewhere python openImage paths _ distinct.1]
        exact Function.update_self _ _ _
      · exact induction distinct.2 _ path later

end Run

section Lost

variable {tools : Toolchain} {openImage : List Char → RgbaImage}

variable (openImage) in
def namedImage (imagePath : List Char) : NamedImage := ⟨filenameOf imagePath, openImage imagePath⟩

/-- The headers that are included, where none is lost, are those of the images. -/
theorem include_kept {order : List (List Char)} {files : Files}
    (kept : ∀ path ∈ order,
      files (headerFilename path) = some (imageText tools.python openImage path)) :
    includeHeaders tools files order =
      includeTexts tools.compiler
        ((order.map (namedImage openImage)).map (NamedImage.header tools)) := by
  rw [includeHeaders, List.map_map]
  congr 1
  apply List.map_congr_left
  intro path member
  rw [kept path member]
  rfl

variable {directory : Directory} {files : Files}

theorem headers_apart (apart : NamesApart tools directory) {order : List (List Char)}
    (permuted : order.Perm (imageFiles directory)) :
    HeadersApart tools (order.map (namedImage openImage)) := by
  have found : ∀ path ∈ order, path ∈ imageFiles directory := fun path => permuted.mem_iff.mp
  constructor
  · intro named member
    rcases List.mem_map.mp member with ⟨path, listed, rfl⟩
    exact apart.names path (found path listed)
  · rw [List.pairwise_map]
    have distinct := permuted.nodup_iff.mpr (image_files_nodup directory)
    apply distinct.pairwise_of_forall_ne
    intro one listed other listedOther differ
    exact apart.apart one (found one listed) other (found other listedOther) differ
  · intro one member other memberOther suffix kind
    rcases List.mem_map.mp member with ⟨path, listed, rfl⟩
    rcases List.mem_map.mp memberOther with ⟨otherPath, listedOther, rfl⟩
    exact apart.unshadowed path (found path listed) otherPath (found otherPath listedOther)
      suffix kind

theorem names_apart_keep (apart : NamesApart tools directory) :
    NoImageLost tools openImage directory files := by
  have headers : ((imageFiles directory).map headerFilename).Nodup := by
    apply List.pairwise_map.mpr
    apply (image_files_nodup directory).pairwise_of_forall_ne
    intro one found other foundOther differ same
    rw [header_filename_iff] at same
    exact apart.apart one found other foundOther differ (congrArg tools.python.upper same)
  have kept : ∀ path ∈ imageFiles directory,
      encodeImages tools.python openImage directory files (headerFilename path) =
        some (imageText tools.python openImage path) :=
    written_kept tools.python openImage headers files
  refine ⟨headers, kept, ?_, ?_⟩
  · intro one found other foundOther differ suffix member kind memberKind same
    exact apart.apart one found other foundOther differ (macro_in_common member memberKind same)
  · intro order permuted
    have found : ∀ path ∈ order, path ∈ imageFiles directory := fun path => permuted.mem_iff.mp
    refine ⟨(order.map (namedImage openImage)).map NamedImage.array, ?_, ?_⟩
    · rw [include_kept fun path listed => kept path (found path listed)]
      apply apart_accepted (headers_apart apart permuted)
      intro named member suffix kind
      rcases List.mem_map.mp member with ⟨path, listed, rfl⟩
      exact apart.macroNames path (found path listed) suffix kind
    · intro path member
      rw [List.map_map]
      exact List.mem_map.mpr ⟨path, permuted.mem_iff.mpr member, rfl⟩

theorem first_included (lost : NoImageLost tools openImage directory files) {path : List Char}
    (found : path ∈ imageFiles directory) :
    ∃ (others : List (List Char)) (arrays : List ArrayDeclaration),
      (∀ other ∈ others, other ∈ imageFiles directory) ∧
        Accepted tools.compiler (includeTexts tools.compiler ((namedImage openImage path ::
          others.map (namedImage openImage)).map (NamedImage.header tools))) arrays ∧
        ∀ imagePath ∈ imageFiles directory, arrayOf openImage imagePath ∈ arrays := by
  have permuted := (List.perm_cons_erase found).symm
  have listed : ∀ other ∈ path :: (imageFiles directory).erase path,
      other ∈ imageFiles directory := fun other => permuted.mem_iff.mp
  rcases lost.declared _ permuted with ⟨arrays, accepted, declared⟩
  rw [include_kept fun other member => lost.kept other (listed other member)] at accepted
  exact ⟨(imageFiles directory).erase path, arrays,
    fun other member => listed other (List.mem_cons_of_mem path member), accepted, declared⟩

theorem lost_none_names (lost : NoImageLost tools openImage directory files) :
    NamesApart tools directory := by
  have names : ∀ path ∈ imageFiles directory, tools.compiler.Name (filenameOf path) := by
    intro path found
    rcases lost.declared _ (List.Perm.refl _) with ⟨arrays, accepted, declared⟩
    exact accepted.names _ (declared path found)
  constructor
  · intro one found other foundOther differ same
    apply lost.macros one found other foundOther differ "_H" (by decide) "_H" (by decide)
    rw [macroOf, macroOf, same]
  · exact names
  · intro path found suffix kind
    rcases first_included lost found with ⟨others, arrays, -, accepted, -⟩
    exact first_macros_free (names path found) accepted suffix kind
  · intro one found other foundOther suffix kind
    rcases first_included lost found with ⟨others, arrays, listed, accepted, declared⟩
    have namesBehind : ∀ named ∈ others.map (namedImage openImage),
        tools.compiler.Name named.filename := by
      intro named member
      rcases List.mem_map.mp member with ⟨path, inOthers, rfl⟩
      exact names path (listed path inOthers)
    exact first_unshadowed (names one found) namesBehind accepted (declared other foundOther)
      suffix kind

end Lost

/-- A run loses no image if and only if the names are apart, whatever the images show and
whatever the output directory held. -/
theorem no_image_lost_iff (tools : Toolchain) (openImage : List Char → RgbaImage)
    (directory : Directory) (files : Files) :
    NoImageLost tools openImage directory files ↔ NamesApart tools directory := by
  constructor
  · intro lost
    exact lost_none_names lost
  · intro apart
    exact names_apart_keep apart

def sameName : Directory where
  names := ["a.bmp".toList, "a.png".toList]
  distinct := by decide
  single := by decide

theorem header_overwritten :
    ¬∀ (openImage : List Char → RgbaImage) (files : Files),
      NoImageLost basicTools openImage sameName files := by
  intro lost
  have headers := (lost (fun _ => ⟨1, 1, [default], rfl⟩) fun _ => none).headers
  exact absurd headers (by decide)

end FractionsOS.Encode
