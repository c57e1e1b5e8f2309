import PolicyReview.Proofs.Library.Loading

/-! Libraries of sets of locations. A library does not depend on how its locations are listed, as long
as no two files are shown under one path. Names that are no texts break this. -/

namespace PolicyReview.Library

variable {disk : Disk}

/-- Which locations there are, and not how they are listed, says whether a library is loaded and which
one, wherever the texts of their paths tell the files apart that are met, as they do where all names
are texts. A library holds the documents of files in the order of the bytes of these texts, those of
one file for each text and in their own order. Its modules are in that order, too. -/
theorem load_determined (proper : disk.root.Proper) (store : ObjectStoreSettings)
    (locations : List Location) (libraryPath : Option Location) :
    (∀ other, (∀ location, location ∈ locations ↔ location ∈ other) → Told disk store locations →
      ∀ library, load disk store locations libraryPath = .ok library ↔
        load disk store other libraryPath = .ok library) ∧
    (disk.root.HasTexts → ∀ paths : List String, Told disk store (paths.map onDisk)) ∧
    ∀ library, load disk store locations libraryPath = .ok library →
      ∃ files : List SourceFile,
        (files.Pairwise fun first second => Text.bytes first.path < Text.bytes second.path) ∧
        (∀ file ∈ files, ∃ location ∈ locations,
          file ∈ (filesAt disk store isDocumentFile location).1) ∧
        (∀ location ∈ locations, ∀ file ∈ (filesAt disk store isDocumentFile location).1,
          ∃ kept ∈ files, kept.path = file.path ∧ (Told disk store locations → kept = file)) ∧
        (∀ file ∈ files, ∃ text, String.fromUTF8? file.contents = some text ∧
          (documentsOf file).1 =
            (Yaml.values text).zipIdx.filterMap (Document.reading? file.path)) ∧
        library.templates = (files.flatMap fun file => templatesOf (documentsOf file).1) ∧
        library.constraints = (files.flatMap fun file => constraintsOf (documentsOf file).1) ∧
        (library.templates.Pairwise fun first second =>
          Text.bytes first.path ≤ Text.bytes second.path) ∧
        (library.constraints.Pairwise fun first second =>
          Text.bytes first.path ≤ Text.bytes second.path) ∧
        (library.modules.Pairwise fun first second =>
          Text.bytes first.path ≤ Text.bytes second.path) ∧
        (disk.root.HasTexts → (∀ path, libraryPath = some (.disk path) → Text.IsText path) →
          library.modules.Pairwise fun first second =>
            Text.bytes first.path < Text.bytes second.path) := by
  refine ⟨fun other same told library => ?_, fun texts => told_of_hasTexts proper texts store,
    fun library loaded => ?_⟩
  · rw [load_eq_ok, load_eq_ok, documentFiles_eq told same, documentFiles_clean,
      documentFiles_clean]
    simp only [same]
  · obtain ⟨_, read, _, _, rfl⟩ := load_eq_ok.1 loaded
    have ascending : (documentFiles disk store locations).1.Pairwise
        fun first second => first.path < second.path := documentFiles_ascending _
    refine ⟨(documentFiles disk store locations).1, ascending.imp Text.lt_iff_bytes_lt.1,
      fun file => mem_files_of_mem_documentFiles, fun location among file member => ?_,
      fun file member => documentsOf_eq (read file member), rfl, rfl,
      flatMap_ascending (fun file => templatesOf_path fun _ => path_of_mem_documentsOf) ascending,
      flatMap_ascending (fun file => constraintsOf_path fun _ => path_of_mem_documentsOf) ascending,
      ofFiles_modules (fun one two => Text.bytes one ≤ Text.bytes two)
        ((moduleFiles_sorted libraryPath).imp Text.le_iff_bytes_le.1),
      fun texts isText => ofFiles_modules (fun one two => Text.bytes one < Text.bytes two)
        ((moduleFiles_ascending proper texts isText).imp Text.lt_iff_bytes_lt.1)⟩
    obtain ⟨kept, inside, same⟩ := kept_of_mem_filesAt among member
    obtain ⟨location', among', member'⟩ := mem_files_of_mem_documentFiles inside
    exact ⟨kept, inside, same, fun told => told.eq among' member' among member same⟩

def probeFile : SourceFile where
  path := "policies/probe.yaml"
  contents := String.toUTF8 ("apiVersion: constraints.gatekeeper.sh/v1beta1\n" ++
    "kind: Probe\nmetadata:\n  name: probe\nspec: \x7b\x7d\n")

theorem probeFile_small : probeFile.contents.size ≤ maxFileSize := by
  decide

def probeDisk : Disk where
  root := .named [("policies", .named [("probe.yaml", .file probeFile.contents)])]

theorem probeDisk_proper : probeDisk.root.Proper := by
  refine .folder (by decide) (by decide) (List.forall_mem_singleton.2 ?_)
  exact .folder (by decide) (by decide) (List.forall_mem_singleton.2 .file)

theorem probeDisk_hasTexts : probeDisk.root.HasTexts :=
  FileTree.hasTexts_named (List.forall_mem_singleton.2
    (FileTree.hasTexts_named (List.forall_mem_singleton.2 (FileTree.hasTexts_file _))))

/-- The paths by which files with these contents are met here and below. -/
def probePaths : List String := ["policies/probe.yaml", "./policies/probe.yaml", "p/\ufffd/x.yaml"]

theorem probeFile_documents : ∀ path ∈ probePaths,
    (documentsOf ⟨path, probeFile.contents⟩).2 = [] ∧
      (constraintsOf (documentsOf ⟨path, probeFile.contents⟩).1).length = 1 := by
  decide +kernel

theorem load_determined_overlapping : ∃ library,
    load probeDisk {} (["policies/probe.yaml", "policies"].map onDisk) none = .ok library ∧
    load probeDisk {} (["policies", "policies/probe.yaml", "policies"].map onDisk) none =
      .ok library ∧
    library.constraints.length = 1 := by
  have same : ∀ location, location ∈ ["policies/probe.yaml", "policies"].map onDisk ↔
      location ∈ ["policies", "policies/probe.yaml", "policies"].map onDisk := by
    intro location
    simp only [List.map_cons, List.map_nil, List.mem_cons, List.not_mem_nil]
    tauto
  have here : filesAt probeDisk {} isDocumentFile (onDisk "policies/probe.yaml") =
      ([probeFile], []) :=
    filesAt_file rfl (isDocumentFile_yaml "probe") probeFile_small (Text.shown_bytes _)
  have inside : filesAt probeDisk {} isDocumentFile (onDisk "policies") = ([probeFile], []) :=
    filesAt_sole rfl (isDocumentFile_yaml "probe") probeFile_small (by decide)
  have kept : dropRepeated (sortByPath [probeFile, probeFile]) = [probeFile] :=
    kept_of_alike (List.forall_mem_singleton.2 rfl)
  have files : documentFiles probeDisk {} (["policies/probe.yaml", "policies"].map onDisk) =
      ([probeFile], []) := by
    simp [documentFiles, here, inside, kept]
  obtain ⟨clean, count⟩ := probeFile_documents probeFile.path List.mem_cons_self
  have loaded := load_of_files files (List.forall_mem_singleton.2 clean)
  obtain ⟨determined, told, -⟩ := load_determined probeDisk_proper {}
    (["policies/probe.yaml", "policies"].map onDisk) none
  refine ⟨_, loaded, (determined _ same (told probeDisk_hasTexts _) _).1 loaded, ?_⟩
  simpa [ofFiles] using count

/-- A folder of two whose names are shown alike, though one of them is no text. -/
def blurredFolder : FileTree := .folder [
  ([0x80], .named [("x.yaml", .file probeFile.contents)]),
  (Text.bytes "\ufffd", .named [("x.yaml", .file .empty)])]

def blurredDisk : Disk where
  root := .named [("p", blurredFolder)]

def blurredFile (contents : ByteArray) : SourceFile := ⟨"p/\ufffd/x.yaml", contents⟩

theorem blurredFile_empty : (documentsOf (blurredFile .empty)).2 = [] ∧
    (constraintsOf (documentsOf (blurredFile .empty)).1).length = 0 := by
  decide

theorem blurred_shown :
    Text.shown [0x70, 0x2f, 0x80] = Text.shown (Text.bytes "p/\ufffd") ∧
    Text.shown (FileTree.join [0x70, 0x2f, 0x80] (Text.bytes "x.yaml")) = "p/\ufffd/x.yaml" ∧
    Text.shown (FileTree.join (Text.bytes "p/\ufffd") (Text.bytes "x.yaml")) =
      "p/\ufffd/x.yaml" := by
  decide

theorem blurredFolder_files :
    filesAt blurredDisk {} isDocumentFile (onDisk "p") =
      ([blurredFile probeFile.contents, blurredFile .empty], []) := by
  have sorted : FileTree.sortEntries blurredFolder.entries = blurredFolder.entries :=
    List.mergeSort_of_pairwise (by decide)
  have walk := FileTree.items_folder (Text.bytes "p") (FileTree.lastName (Text.bytes "p"))
    blurredFolder.entries
  rw [sorted] at walk
  simp only [blurredFolder, FileTree.entries, FileTree.named, List.flatMap_cons, List.map_cons,
    List.map_nil, items_sole] at walk
  obtain ⟨-, first, second⟩ := blurred_shown
  have found : blurredDisk.find? (Text.bytes "p") = some blurredFolder := rfl
  refine filesAt_of_items found ((congrArg (List.map (fileOf? isDocumentFile)) walk).trans ?_)
  have made (location : Text.Bytes) (contents : ByteArray) (small : contents.size ≤ maxFileSize)
      (path : Text.shown (FileTree.join location (Text.bytes "x.yaml")) = "p/\ufffd/x.yaml") :
      fileOf? isDocumentFile ⟨FileTree.join location (Text.bytes "x.yaml"), Text.bytes "x.yaml",
        contents⟩ = some (blurredFile contents) :=
    fileOf?_eq_some.2 ⟨isDocumentFile_yaml "x", rfl, small, path.symm⟩
  exact congrArg₂ (fun one two => [one, two]) (made [0x70, 0x2f, 0x80] _ probeFile_small first)
    (made (Text.bytes "p/\ufffd") _ (Nat.zero_le _) second)

/-- Both files are shown under one path, and the one that is met first is kept. A location that is no
text is shown as one that is, and leads elsewhere. -/
theorem load_depends : ∃ one two,
    load blurredDisk {} (["p", "p/\ufffd"].map onDisk) none = .ok one ∧
    load blurredDisk {} (["p/\ufffd", "p"].map onDisk) none = .ok two ∧
    Location.text (.disk [0x70, 0x2f, 0x80]) = Location.text (onDisk "p/\ufffd") ∧
    load blurredDisk {} [.disk [0x70, 0x2f, 0x80]] none = .ok one ∧
    load blurredDisk {} [onDisk "p/\ufffd"] none = .ok two ∧
    one.constraints.length = 1 ∧ two.constraints.length = 0 := by
  obtain ⟨alike, first, second⟩ := blurred_shown
  have outer := blurredFolder_files
  have blurred : filesAt blurredDisk {} isDocumentFile (.disk [0x70, 0x2f, 0x80]) =
      ([blurredFile probeFile.contents], []) :=
    filesAt_sole rfl (isDocumentFile_yaml "x") probeFile_small first
  have inner : filesAt blurredDisk {} isDocumentFile (onDisk "p/\ufffd") =
      ([blurredFile .empty], []) :=
    filesAt_sole rfl (isDocumentFile_yaml "x") (Nat.zero_le _) second
  have kept (contents : ByteArray) (later : List ByteArray) :
      dropRepeated (sortByPath ((contents :: later).map blurredFile)) = [blurredFile contents] :=
    kept_of_alike (List.forall_mem_map.2 fun _ _ => rfl)
  obtain ⟨clean, filled⟩ := probeFile_documents "p/\ufffd/x.yaml" (by simp [probePaths])
  obtain ⟨clean', blank⟩ := blurredFile_empty
  refine ⟨ofFiles [blurredFile probeFile.contents] [], ofFiles [blurredFile .empty] [],
    load_of_files ?_ (List.forall_mem_singleton.2 clean),
    load_of_files ?_ (List.forall_mem_singleton.2 clean'), alike,
    load_of_files ?_ (List.forall_mem_singleton.2 clean),
    load_of_files ?_ (List.forall_mem_singleton.2 clean'), ?_, ?_⟩
  · simpa [documentFiles, outer, inner] using kept probeFile.contents [.empty, .empty]
  · simpa [documentFiles, outer, inner] using kept .empty [probeFile.contents, .empty]
  · simpa [documentFiles, blurred] using kept probeFile.contents []
  · simpa [documentFiles, inner] using kept .empty []
  · simpa [ofFiles, blurredFile] using filled
  · simpa [ofFiles] using blank

end PolicyReview.Library
