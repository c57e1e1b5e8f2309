import PolicyReview.Proofs.Library.Determinism

/-! Locations that overlap. Of the files that are met under several locations, those are dropped whose
paths are spelled alike, so that a file is read once for each spelling that leads to it: exactly once
where the locations are spelled by names alone. -/

namespace PolicyReview.Library

open FileTree (joinAll)

variable {disk : Disk} {store : ObjectStoreSettings} {location other : Text.Bytes}
  {path otherPath : String} {names : List Text.Bytes} {contents : ByteArray} {file : SourceFile}
  {paths : List String}

def IsAbsolute (location : Text.Bytes) : Prop := location.head? = some FileTree.slash

instance (location : Text.Bytes) : Decidable (IsAbsolute location) :=
  inferInstanceAs (Decidable (_ = _))

def steps (location : Text.Bytes) : List Text.Bytes :=
  if IsAbsolute location then (FileTree.base location).tail else FileTree.base location

/-- A location has nothing but names between its slashes, of which some may be the first and the last
character. -/
def IsPlain (location : Text.Bytes) : Prop := ∀ part ∈ steps location, FileTree.IsEntryName part

/-- Just one of the files was read at some names. -/
def ReadOnce (disk : Disk) (files : List SourceFile) (names : List Text.Bytes) : Prop :=
  ∃! file, file ∈ files ∧ disk.position (Text.bytes file.path) = names

theorem base_of_isAbsolute (absolute : IsAbsolute location) :
    FileTree.base location = [] :: steps location := by
  have headed : ∃ rest, FileTree.base location = [] :: rest := by
    obtain ⟨rest, rfl⟩ : ∃ rest, location = FileTree.slash :: rest :=
      List.head?_eq_some_iff.1 absolute
    rw [FileTree.base, FileTree.stem]
    split
    · cases rest with
      | nil => exact ⟨_, rfl⟩
      | cons byte rest => exact ⟨_, FileTree.parts_append_cons [] (byte :: rest).dropLast⟩
    · exact ⟨_, FileTree.parts_append_cons [] rest⟩
  obtain ⟨rest, base⟩ := headed
  rw [steps, if_pos absolute, base, List.tail_cons]

def start (disk : Disk) (location : Text.Bytes) : List Text.Bytes :=
  if IsAbsolute location then [] else disk.here.foldl FileTree.follow []

theorem IsPlain.position_eq (plain : IsPlain location) (disk : Disk) :
    disk.position location = start disk location ++ steps location := by
  have blank : FileTree.follow [] [] = [] := rfl
  rw [Disk.position_eq_way, ← FileTree.foldl_follow_names _ plain, start, Disk.way]
  by_cases absolute : IsAbsolute location
  · have headed : location.head? = some FileTree.slash := absolute
    rw [if_pos absolute, if_pos headed, base_of_isAbsolute absolute, List.foldl_cons, blank]
  · have headless : ¬location.head? = some FileTree.slash := absolute
    rw [if_neg absolute, if_neg headless, List.foldl_append, steps, if_neg absolute]

theorem IsPlain.path_eq (plain : IsPlain location) (plain' : IsPlain other)
    (alike : IsAbsolute location ↔ IsAbsolute other) (proper : disk.root.Proper)
    (stands : disk.root.at? names = some (.file contents))
    (spells : Spells disk location names path) (spells' : Spells disk other names otherPath) :
    path = otherPath := by
  have parts {location : Text.Bytes} {rest : List Text.Bytes}
      (leads : (disk.find? location).isSome) (same : names = disk.position location ++ rest) :
      FileTree.parts (joinAll location rest) = FileTree.base location ++ rest := by
    by_cases empty : rest = []
    · subst empty
      obtain ⟨root, found⟩ := Option.isSome_iff_exists.1 leads
      have here := Disk.at?_of_find? found
      rw [same, List.append_nil, here] at stands
      rw [List.append_nil, Disk.base_of_find? (Option.some.inj stands ▸ found)]
      rfl
    · exact FileTree.parts_joinAll location (fun name inside =>
        (proper.at? stands).2 name (same ▸ List.mem_append_right _ inside)) empty
  obtain ⟨rest, leads, same, rfl⟩ := spells
  obtain ⟨rest', leads', same', rfl⟩ := spells'
  have base : FileTree.base location ++ rest = FileTree.base other ++ rest' := by
    have places := same.symm.trans same'
    rw [plain.position_eq, plain'.position_eq, start, start] at places
    by_cases absolute : IsAbsolute location
    · have absolute' := alike.1 absolute
      rw [if_pos absolute, if_pos absolute', List.append_assoc, List.append_assoc] at places
      rw [base_of_isAbsolute absolute, base_of_isAbsolute absolute']
      exact congrArg ([] :: ·) places
    · have relative := mt alike.2 absolute
      rw [if_neg absolute, if_neg relative, steps, steps, if_neg absolute, if_neg relative,
        List.append_assoc, List.append_assoc] at places
      exact List.append_cancel_left places
  exact congrArg Text.shown
    (FileTree.parts_injective ((parts leads same).trans (base.trans (parts leads' same').symm)))

theorem mem_documentFiles_texts (proper : disk.root.Proper) (texts : disk.root.HasTexts) :
    file ∈ (documentFiles disk store (paths.map onDisk)).1 ↔
      ∃ location ∈ paths, ∃ names, IsReadable disk.root isDocumentFile names file.contents ∧
        Spells disk (Text.bytes location) names file.path := by
  rw [mem_documentFiles (told_of_hasTexts proper texts store paths)]
  simp only [List.mem_map, exists_exists_and_eq_and, onDisk, mem_filesAt proper]

theorem mem_documentFiles_at (proper : disk.root.Proper) (texts : disk.root.HasTexts)
    (readable : IsReadable disk.root isDocumentFile names contents) :
    file ∈ (documentFiles disk store (paths.map onDisk)).1 ∧
        disk.position (Text.bytes file.path) = names ↔
      file.contents = contents ∧
        ∃ location ∈ paths, Spells disk (Text.bytes location) names file.path := by
  rw [mem_documentFiles_texts proper texts]
  constructor
  · rintro ⟨⟨location, among, other, read, spells⟩, position⟩
    have place := spells.position proper texts ⟨location, rfl⟩ read.stands
    obtain rfl := place.symm.trans position
    have same := read.stands.symm.trans readable.stands
    exact ⟨FileTree.file.inj (Option.some.inj same), location, among, spells⟩
  · rintro ⟨rfl, location, among, spells⟩
    exact ⟨⟨location, among, names, readable, spells⟩,
      spells.position proper texts ⟨location, rfl⟩ readable.stands⟩

theorem readOnce_iff (proper : disk.root.Proper) (texts : disk.root.HasTexts)
    (store : ObjectStoreSettings) (readable : IsReadable disk.root isDocumentFile names contents)
    (covered : ∃ location ∈ paths, ∃ path, Spells disk (Text.bytes location) names path) :
    ReadOnce disk (documentFiles disk store (paths.map onDisk)).1 names ↔
      ∀ first ∈ paths, ∀ second ∈ paths, ∀ path path', Spells disk (Text.bytes first) names path →
        Spells disk (Text.bytes second) names path' → path = path' := by
  simp only [ReadOnce, mem_documentFiles_at proper texts readable]
  constructor
  · rintro ⟨file, -, only⟩ first among second among' path path' spells spells'
    have one := only ⟨path, contents⟩ ⟨rfl, first, among, spells⟩
    have two := only ⟨path', contents⟩ ⟨rfl, second, among', spells'⟩
    exact congrArg SourceFile.path (one.trans two.symm)
  · intro alike
    obtain ⟨location, among, path, spells⟩ := covered
    refine ⟨⟨path, contents⟩, ⟨rfl, location, among, spells⟩, ?_⟩
    rintro ⟨path', _⟩ ⟨rfl, other, among', spells'⟩
    obtain rfl : path' = path := alike _ among' _ among _ _ spells' spells
    rfl

/-- The files of several locations have different paths and are read by each path that one of the
locations spells, so that a file is read once exactly where all of them spell its path alike. Plain
locations do, all of which or none of which start with a slash, however they overlap. A library holds
the documents of the files that are read. -/
theorem documentFiles_readOnce (proper : disk.root.Proper) (texts : disk.root.HasTexts)
    (store : ObjectStoreSettings) (paths : List String) (libraryPath : Option Location) :
    let files := (documentFiles disk store (paths.map onDisk)).1
    (files.Pairwise fun first second => first.path < second.path) ∧
    (∀ file, file ∈ files ↔ ∃ names, IsReadable disk.root isDocumentFile names file.contents ∧
      ∃ location ∈ paths, Spells disk (Text.bytes location) names file.path) ∧
    (∀ names contents, IsReadable disk.root isDocumentFile names contents →
      (∃ location ∈ paths, ∃ path, Spells disk (Text.bytes location) names path) →
      (ReadOnce disk files names ↔
        ∀ first ∈ paths, ∀ second ∈ paths, ∀ path path',
          Spells disk (Text.bytes first) names path →
            Spells disk (Text.bytes second) names path' → path = path') ∧
      ((∀ location ∈ paths, IsPlain (Text.bytes location)) →
        (∀ first ∈ paths, ∀ second ∈ paths,
          IsAbsolute (Text.bytes first) → IsAbsolute (Text.bytes second)) →
        ReadOnce disk files names)) ∧
    ∀ library, load disk store (paths.map onDisk) libraryPath = .ok library →
      library.templates = (files.flatMap fun file => templatesOf (documentsOf file).1) ∧
      library.constraints = (files.flatMap fun file => constraintsOf (documentsOf file).1) := by
  intro files
  refine ⟨documentFiles_ascending _, fun file => ?_, fun names contents readable covered => ?_,
    fun library loaded => ?_⟩
  · rw [mem_documentFiles_texts proper texts]
    constructor
    · rintro ⟨location, among, names, readable, spells⟩
      exact ⟨names, readable, location, among, spells⟩
    · rintro ⟨names, readable, location, among, spells⟩
      exact ⟨location, among, names, readable, spells⟩
  · have once := readOnce_iff proper texts store readable covered
    refine ⟨once, fun plain alike => once.2 ?_⟩
    intro first among second among' path path' spells spells'
    exact (plain first among).path_eq (plain second among')
      ⟨alike first among second among', alike second among' first among⟩ proper readable.stands
      spells spells'
  · obtain ⟨-, -, -, -, rfl⟩ := load_eq_ok.1 loaded
    exact ⟨rfl, rfl⟩

theorem probeDisk_readable : IsReadable probeDisk.root isDocumentFile
    (["policies", "probe.yaml"].map Text.bytes) probeFile.contents :=
  ⟨rfl, ⟨_, rfl, isDocumentFile_yaml "probe"⟩, probeFile_small⟩

theorem documentFiles_readOnce_nested :
    probeDisk.root.Proper ∧ probeDisk.root.HasTexts ∧
      IsPlain (Text.bytes "policies/") ∧ IsPlain (Text.bytes "policies/probe.yaml") ∧
      ReadOnce probeDisk
        (documentFiles probeDisk {} (["policies/", "policies/probe.yaml"].map onDisk)).1
        (["policies", "probe.yaml"].map Text.bytes) := by
  obtain ⟨-, -, once, -⟩ := documentFiles_readOnce probeDisk_proper probeDisk_hasTexts {}
    ["policies/", "policies/probe.yaml"] none
  have folder : IsPlain (Text.bytes "policies/") := by unfold IsPlain; decide
  have file : IsPlain (Text.bytes "policies/probe.yaml") := by unfold IsPlain; decide
  have covers : Spells probeDisk (Text.bytes "policies/")
      (["policies", "probe.yaml"].map Text.bytes) "policies/probe.yaml" :=
    ⟨[Text.bytes "probe.yaml"], rfl, by decide, by decide⟩
  refine ⟨probeDisk_proper, probeDisk_hasTexts, folder, file, ?_⟩
  refine (once _ _ probeDisk_readable ⟨_, List.mem_cons_self, _, covers⟩).2 ?_ (by decide)
  exact List.forall_mem_cons.2 ⟨folder, List.forall_mem_singleton.2 file⟩

def respeltFile : SourceFile := ⟨"./policies/probe.yaml", probeFile.contents⟩

/-- Two spellings of a folder stand for one place, but the file in it is read under both, and its
constraint is there twice. -/
theorem load_respelt :
    probeDisk.position (Text.bytes "./policies") = probeDisk.position (Text.bytes "policies") ∧
    ¬ReadOnce probeDisk (documentFiles probeDisk {} (["./policies", "policies"].map onDisk)).1
      (["policies", "probe.yaml"].map Text.bytes) ∧
    ∃ library, load probeDisk {} (["./policies", "policies"].map onDisk) none = .ok library ∧
      library.constraints.length = 2 := by
  have respelt : filesAt probeDisk {} isDocumentFile (onDisk "./policies") = ([respeltFile], []) :=
    filesAt_sole rfl (isDocumentFile_yaml "probe") probeFile_small (by decide)
  have plain : filesAt probeDisk {} isDocumentFile (onDisk "policies") = ([probeFile], []) :=
    filesAt_sole rfl (isDocumentFile_yaml "probe") probeFile_small (by decide)
  obtain ⟨clean, one⟩ : (documentsOf probeFile).2 = [] ∧
      (constraintsOf (documentsOf probeFile).1).length = 1 :=
    probeFile_documents probeFile.path List.mem_cons_self
  obtain ⟨clean', another⟩ : (documentsOf respeltFile).2 = [] ∧
      (constraintsOf (documentsOf respeltFile).1).length = 1 :=
    probeFile_documents respeltFile.path (by simp [probePaths, respeltFile])
  have sorted : sortByPath [respeltFile, probeFile] = [respeltFile, probeFile] :=
    List.mergeSort_of_pairwise (by decide)
  have files : documentFiles probeDisk {} (["./policies", "policies"].map onDisk) =
      ([respeltFile, probeFile], []) := by
    simp only [documentFiles, List.map_cons, List.map_nil, List.flatMap_cons, List.flatMap_nil,
      respelt, plain, List.cons_append, List.nil_append, sorted]
    rfl
  refine ⟨by decide, ?_, ofFiles [respeltFile, probeFile] [], load_of_files files ?_, ?_⟩
  · rintro ⟨file, -, only⟩
    rw [files] at only
    have first := only respeltFile ⟨by simp, by decide⟩
    have second := only probeFile ⟨by simp, by decide⟩
    exact absurd (congrArg SourceFile.path (first.trans second.symm)) (by decide)
  · exact List.forall_mem_cons.2 ⟨clean', List.forall_mem_singleton.2 clean⟩
  · have both : (ofFiles [respeltFile, probeFile] []).constraints =
        constraintsOf (documentsOf respeltFile).1 ++ constraintsOf (documentsOf probeFile).1 := by
      simp [ofFiles]
    rw [both, List.length_append, another, one]

end PolicyReview.Library
