import FractionsOS.Images.EncoderRuns

/-!
# Running the encoder again

`encode.py` overwrites headers and deletes none. What a run leaves depends neither on the
order in which the directory lists its files nor, but for headers that it does not write,
on the runs before it.
-/

namespace FractionsOS.Encode

set_option autoImplicit false

section Written

variable (python : StrUpper) (openImage : List Char → RgbaImage)

theorem written_anyway {paths : List (List Char)} {header : List Char}
    (written : header ∈ paths.map headerFilename) (files other : Files) :
    paths.foldl (writeHeader python openImage) files header =
      paths.foldl (writeHeader python openImage) other header := by
  induction paths generalizing files other with
  | nil => cases written
  | cons first paths induction =>
      rw [List.foldl_cons, List.foldl_cons]
      by_cases later : header ∈ paths.map headerFilename
      · exact induction later _ _
      · have last : header = headerFilename first :=
          (List.mem_cons.mp written).resolve_right later
        rw [written_elsewhere python openImage paths _ later,
          written_elsewhere python openImage paths _ later, last, writeHeader, writeHeader,
          Function.update_self, Function.update_self]

theorem written_exists_iff (paths : List (List Char)) (files : Files) (header : List Char) :
    (paths.foldl (writeHeader python openImage) files header).isSome = true ↔
      (files header).isSome = true ∨ header ∈ paths.map headerFilename := by
  induction paths generalizing files with
  | nil => exact (or_iff_left List.not_mem_nil).symm
  | cons first paths induction =>
      rw [List.foldl_cons, induction, List.map_cons, List.mem_cons, ← or_assoc]
      apply or_congr_left
      by_cases here : header = headerFilename first
      · rw [here, writeHeader, Function.update_self]
        exact iff_of_true rfl (Or.inr rfl)
      · rw [writeHeader, Function.update_of_ne here]
        exact (or_iff_left here).symm

end Written

/-- A run of the encoder: what the input directory lists and what its images decode to. -/
structure Build where
  directory : Directory
  openImage : List Char → RgbaImage

namespace Build

def headers (build : Build) : List (List Char) := (imageFiles build.directory).map headerFilename

def run (python : StrUpper) (files : Files) (build : Build) : Files :=
  encodeImages python build.openImage build.directory files

end Build

def runBuilds (python : StrUpper) (files : Files) (builds : List Build) : Files :=
  builds.foldl (Build.run python) files

section Builds

variable (python : StrUpper)

theorem built_anyway {build : Build} {header : List Char} (written : header ∈ build.headers)
    (files other : Files) : build.run python files header = build.run python other header :=
  written_anyway python build.openImage written files other

theorem built_elsewhere {build : Build} {header : List Char} (apart : header ∉ build.headers)
    (files : Files) : build.run python files header = files header :=
  written_elsewhere python build.openImage _ files apart

theorem builds_elsewhere {builds : List Build} {header : List Char}
    (apart : ∀ build ∈ builds, header ∉ build.headers) (files : Files) :
    runBuilds python files builds header = files header := by
  induction builds generalizing files with
  | nil => rfl
  | cons build builds induction =>
      have rest := induction (fun other member => apart other (List.mem_cons_of_mem build member))
        (build.run python files)
      rw [built_elsewhere python (apart build List.mem_cons_self)] at rest
      exact rest

theorem builds_exist {builds : List Build} {header : List Char} (files : Files)
    (written : (files header).isSome = true ∨ ∃ build ∈ builds, header ∈ build.headers) :
    (runBuilds python files builds header).isSome = true := by
  induction builds generalizing files with
  | nil =>
      rcases written with before | ⟨build, member, _⟩
      · exact before
      · cases member
  | cons build builds induction =>
      apply induction
      rw [Build.run, encodeImages, written_exists_iff]
      rcases written with before | ⟨other, member, written⟩
      · exact Or.inl (Or.inl before)
      · rcases List.mem_cons.mp member with rfl | later
        · exact Or.inl (Or.inr written)
        · exact Or.inr ⟨other, later, written⟩

/-- The last of any number of runs leaves what it leaves alone, whatever was there, exactly
when it writes every header that one of the earlier runs wrote. -/
theorem history_forgotten_iff (history : List Build) (last : Build) :
    (∀ files, runBuilds python files (history ++ [last]) = last.run python files) ↔
      ∀ build ∈ history, ∀ header ∈ build.headers, header ∈ last.headers := by
  have ends : ∀ files, runBuilds python files (history ++ [last]) =
      last.run python (runBuilds python files history) := by
    intro files
    rw [runBuilds, List.foldl_append]
    rfl
  constructor
  · intro forgotten build member header written
    by_contra stale
    have left : (runBuilds python (fun _ => none) history header).isSome = true :=
      builds_exist python _ (Or.inr ⟨build, member, written⟩)
    have same := congrFun (forgotten fun _ => none) header
    rw [ends, built_elsewhere python stale, built_elsewhere python stale] at same
    rw [same] at left
    cases left
  · intro covered files
    rw [ends]
    funext header
    by_cases written : header ∈ last.headers
    · exact built_anyway python written _ _
    · rw [built_elsewhere python written, built_elsewhere python written]
      apply builds_elsewhere
      intro build member wrote
      exact written (covered build member header wrote)

end Builds

section Listing

variable (python : StrUpper) (openImage : List Char → RgbaImage)

theorem glob_permuted {one other : Directory} (same : one.names.Perm other.names)
    (extension : String) : (globImages one extension).Perm (globImages other extension) :=
  (same.filter _).map _

theorem glob_path {directory : Directory} {extension : String} (known : extension ∈ extensions)
    {path : List Char} (found : path ∈ globImages directory extension) :
    path = pathJoin inputDir (filenameOf path ++ extension.toList) := by
  have lengths : ∀ extension ∈ extensions, extension.toList.length = 4 := by decide
  rcases image_name (mem_image_files.mpr ⟨extension, known, found⟩) with ⟨another, member, named⟩
  rcases List.mem_map.mp found with ⟨name, listed, rfl⟩
  rw [List.mem_filter, decide_eq_true_iff] at listed
  rcases listed with ⟨inDirectory, _, root, rfl⟩
  rw [basename_join inputDir (directory.single _ inDirectory)] at named
  have parts := List.append_inj' named ((lengths extension known).trans (lengths another member).symm)
  rw [← parts.1]

theorem glob_headers_apart {directory : Directory} {extension : String}
    (known : extension ∈ extensions) {one other : List Char}
    (found : one ∈ globImages directory extension)
    (foundOther : other ∈ globImages directory extension) (apart : one ≠ other) :
    headerFilename one ≠ headerFilename other := by
  intro same
  apply apart
  rw [glob_path known found, glob_path known foundOther, header_filename_iff.mp same]

theorem glob_order_irrelevant {one other : Directory} (same : one.names.Perm other.names)
    {extension : String} (known : extension ∈ extensions) (files : Files) :
    (globImages one extension).foldl (writeHeader python openImage) files =
      (globImages other extension).foldl (writeHeader python openImage) files := by
  apply (glob_permuted same extension).foldl_eq'
  intro path found another foundOther files
  by_cases equal : path = another
  · rw [equal]
  · exact Function.update_comm (glob_headers_apart known found foundOther equal) _ _ _

/-- Headers that several images share included, a run leaves the same files in whatever
order the names are listed. -/
theorem listing_order_irrelevant (one other : Directory) (same : one.names.Perm other.names)
    (files : Files) :
    encodeImages python openImage one files = encodeImages python openImage other files := by
  rw [encodeImages, encodeImages, imageFiles, imageFiles, List.foldl_append, List.foldl_append,
    List.foldl_append, List.foldl_append,
    glob_order_irrelevant python openImage same (by decide),
    glob_order_irrelevant python openImage same (by decide),
    glob_order_irrelevant python openImage same (by decide)]

end Listing

def sameNameReversed : Directory where
  names := ["a.png".toList, "a.bmp".toList]
  distinct := by decide
  single := by decide

theorem listing_order_irrelevant_same_name :
    encodeImages asciiUpper (fun _ => ⟨1, 1, [default], rfl⟩) sameName (fun _ => none) =
      encodeImages asciiUpper (fun _ => ⟨1, 1, [default], rfl⟩) sameNameReversed fun _ => none :=
  listing_order_irrelevant asciiUpper _ sameName sameNameReversed (.swap _ _ []) _

end FractionsOS.Encode
