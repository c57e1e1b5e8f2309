import PolicyReview.Proofs.Engine.Registration
import PolicyReview.Proofs.Library.Source
import PolicyReview.Proofs.StableSort
import PolicyReview.Proofs.Text.ByteOrder

/-! Loading of policy libraries. The files of several locations are sorted by the texts of their paths,
and one is kept for each text. Where the texts tell files apart, these are the files of a set of
locations, whatever their order and however often one is named. -/

namespace PolicyReview

/-! Documents of a file. -/

def PolicyDocument.path : PolicyDocument → String
  | .template policy => policy.path
  | .constraint policy => policy.path

namespace Document

theorem path_of_decode {path : String} {kind : Kind} {document : Json} {decoded : PolicyDocument}
    (read : decode path kind document = .ok decoded) : decoded.path = path := by
  cases kind with
  | template =>
    simp only [decode, decodeTemplate] at read
    split at read
    · cases read
    next declared template found =>
      split at read <;> cases read
      simp only [declaredTemplate?, Option.bind_eq_bind, Option.bind_eq_some_iff] at found
      obtain ⟨_, _, _, _, _, _, _, _, _, _, _, _, _, _, same⟩ := found
      cases same
      rfl
  | constraint =>
    simp only [decode] at read
    split at read
    · cases read
    next constraint found =>
      cases read
      simp only [decodeConstraint?, Option.bind_eq_bind, Option.bind_eq_some_iff] at found
      obtain ⟨_, _, _, _, _, _, _, _, _, _, same⟩ := found
      cases same
      rfl

theorem path_of_read {path : String} {index : Nat} {document : Json} {decoded : PolicyDocument}
    (accepted : read path index document = .ok decoded) : decoded.path = path := by
  unfold read at accepted
  split at accepted
  · cases accepted
  split at accepted
  · split at accepted
    next same => cases accepted; exact path_of_decode same
    next => cases accepted
  · cases accepted

theorem path_of_mem_readAll {path : String} {index : Nat} {documents : List (Option Json)}
    {decoded : PolicyDocument} (member : decoded ∈ (readAll path index documents).1) :
    decoded.path = path := by
  fun_induction readAll path index documents with
  | case1 | case2 => cases member
  | case3 _ _ ih => exact ih member
  | case4 _ _ _ _ _ _ later found accepted ih =>
    rw [later] at ih
    rcases List.mem_cons.1 member with rfl | there
    · exact path_of_read accepted
    · exact ih there
  | case5 _ _ _ _ _ _ later _ _ ih =>
    rw [later] at ih
    exact ih member

/-- What a document in its place in a file is read as. -/
def reading? (path : String) : Option Json × Nat → Option PolicyDocument
  | (none, _) => none
  | (some .null, _) => none
  | (some document, index) => (read path index document).toOption

theorem readAll_eq {path : String} {index : Nat} {documents : List (Option Json)}
    (clean : (readAll path index documents).2 = []) :
    (readAll path index documents).1 = (documents.zipIdx index).filterMap (reading? path) := by
  induction documents generalizing index with
  | nil => rfl
  | cons document rest ih =>
    rw [List.zipIdx_cons]
    cases document with
    | none => simp [readAll] at clean
    | some document =>
      by_cases null : document = .null
      · subst null
        exact ih clean
      · have made : reading? path (some document, index) =
            (read path index document).toOption := by
          rw [reading?]
          exact null
        rw [List.filterMap_cons, made]
        rw [readAll] at clean ⊢
        · cases accepted : read path index document with
          | error => simp [accepted] at clean
          | ok decoded =>
            simp only [accepted] at clean ⊢
            rw [ih clean]
            rfl
        · exact null
        · exact null

end Document

namespace Library

open FileTree (joinAll)

/-! Sorted files. -/

variable {files : List SourceFile} {file : SourceFile} {path : String}

theorem sortByPath_sorted (files : List SourceFile) :
    (sortByPath files).Pairwise fun first second => first.path ≤ second.path :=
  pairwise_mergeSort_key SourceFile.path (fun _ _ => decide_eq_true_iff) files

theorem mem_sortByPath : file ∈ sortByPath files ↔ file ∈ files :=
  (List.mergeSort_perm files _).mem_iff

theorem dropAfter_ascending (sorted : files.Pairwise fun first second => first.path ≤ second.path)
    (above : ∀ file ∈ files, path ≤ file.path) :
    (∀ kept ∈ dropRepeated.dropAfter path files, path < kept.path) ∧
    (dropRepeated.dropAfter path files).Pairwise fun first second => first.path < second.path := by
  induction files generalizing path with
  | nil => exact ⟨by simp [dropRepeated.dropAfter], .nil⟩
  | cons file rest ih =>
    obtain ⟨later, sorted⟩ := List.pairwise_cons.1 sorted
    rw [dropRepeated.dropAfter]
    split
    next same => exact ih sorted fun other member => same ▸ later other member
    next different =>
      obtain ⟨beyond, ascending⟩ := ih sorted later
      have here : path < file.path := lt_of_le_of_ne (above file (by simp)) (Ne.symm different)
      refine ⟨fun kept member => ?_, List.pairwise_cons.2 ⟨beyond, ascending⟩⟩
      rcases List.mem_cons.1 member with rfl | there
      · exact here
      · exact here.trans (beyond kept there)

theorem dropRepeated_ascending
    (sorted : files.Pairwise fun first second => first.path ≤ second.path) :
    (dropRepeated files).Pairwise fun first second => first.path < second.path := by
  cases files with
  | nil => exact .nil
  | cons file rest =>
    obtain ⟨later, sorted⟩ := List.pairwise_cons.1 sorted
    exact List.pairwise_cons.2 (dropAfter_ascending sorted later)

theorem mem_of_mem_dropAfter (member : file ∈ dropRepeated.dropAfter path files) :
    file ∈ files := by
  induction files generalizing path with
  | nil => cases member
  | cons first rest ih =>
    rw [dropRepeated.dropAfter] at member
    split at member
    · exact .tail _ (ih member)
    · rcases List.mem_cons.1 member with rfl | there
      · exact .head _
      · exact .tail _ (ih there)

theorem kept_of_mem (member : file ∈ files) :
    file.path = path ∨ ∃ kept ∈ dropRepeated.dropAfter path files, kept.path = file.path := by
  induction files generalizing path with
  | nil => cases member
  | cons first rest ih =>
    rw [dropRepeated.dropAfter]
    split
    next same =>
      rcases List.mem_cons.1 member with rfl | there
      · exact .inl same
      · exact ih there
    next different =>
      right
      rcases List.mem_cons.1 member with rfl | there
      · exact ⟨file, .head _, rfl⟩
      · rcases ih there with same | ⟨kept, inside, same⟩
        · exact ⟨first, .head _, same.symm⟩
        · exact ⟨kept, .tail _ inside, same⟩

theorem mem_of_mem_dropRepeated (member : file ∈ dropRepeated files) : file ∈ files := by
  cases files with
  | nil => cases member
  | cons first rest =>
    rcases List.mem_cons.1 member with rfl | there
    · exact .head _
    · exact .tail _ (mem_of_mem_dropAfter there)

theorem kept_of_mem_dropRepeated (member : file ∈ files) :
    ∃ kept ∈ dropRepeated files, kept.path = file.path := by
  cases files with
  | nil => cases member
  | cons first rest =>
    rcases List.mem_cons.1 member with rfl | there
    · exact ⟨file, .head _, rfl⟩
    · rcases kept_of_mem there with same | ⟨kept, inside, same⟩
      · exact ⟨first, .head _, same.symm⟩
      · exact ⟨kept, .tail _ inside, same⟩

theorem kept_of_alike {rest : List SourceFile} (alike : ∀ other ∈ rest, other.path = file.path) :
    dropRepeated (sortByPath (file :: rest)) = [file] := by
  have unmoved : sortByPath (file :: rest) = file :: rest := by
    have same : ∀ other ∈ file :: rest, other.path = file.path :=
      List.forall_mem_cons.2 ⟨rfl, alike⟩
    refine List.mergeSort_of_pairwise (List.pairwise_of_forall_mem_list fun one here two there => ?_)
    rw [same one here, same two there]
    exact decide_eq_true le_rfl
  have dropped : dropRepeated.dropAfter file.path rest = [] := by
    clear unmoved
    induction rest with
    | nil => rfl
    | cons other rest ih =>
      obtain ⟨same, others⟩ := List.forall_mem_cons.1 alike
      rw [dropRepeated.dropAfter, if_pos same, ih others]
  rw [unmoved, dropRepeated, dropped]

/-! Files of a location. -/

variable {disk : Disk} {root : FileTree} {store : ObjectStoreSettings} {accepts : String → Bool}
  {location name : Text.Bytes} {names rest : List Text.Bytes} {contents : ByteArray}

/-- The file of an item whose name is accepted and that is not too large. -/
def fileOf? (accepts : String → Bool) (item : FileTree.Item) : Option SourceFile :=
  if accepts (Text.shown item.name) ∧ item.contents.size ≤ maxFileSize then
    some ⟨Text.shown item.path, item.contents⟩
  else none

/-- The files that are read of a tree whose path and name are given. -/
def filesIn (accepts : String → Bool) (path name : Text.Bytes) (tree : FileTree) :
    List SourceFile :=
  (tree.items path name).filterMap (fileOf? accepts)

theorem filesAt_of_find? (found : disk.find? location = some root) :
    (filesAt disk store accepts (.disk location)).1 =
      filesIn accepts location (FileTree.lastName location) root := by
  simp only [filesAt, readLocation, readDisk, found, filesIn]
  rw [List.filterMap_map, List.filterMap_filter]
  refine List.filterMap_congr fun item _ => ?_
  by_cases accepted : accepts (Text.shown item.name) = true
  · by_cases large : maxFileSize < item.contents.size
    · simp [fileOf?, accepted, readItem, large, Except.toOption]
    · simp [fileOf?, accepted, readItem, large, Except.toOption, Nat.not_lt.1 large]
  · simp [fileOf?, accepted]

theorem filesAt_of_missing (missing : disk.find? location = none) :
    (filesAt disk store accepts (.disk location)).1 = [] := by
  simp [filesAt, readLocation, readDisk, missing]

theorem filesAt_objectStore (bucket start : String) :
    (filesAt disk store accepts (.objectStore bucket start)).1 = [] := by
  simp only [filesAt, readLocation]
  cases store.validate <;> rfl

/-- A file that is read when its own name is accepted. -/
structure IsReadable (tree : FileTree) (accepts : String → Bool) (names : List Text.Bytes)
    (contents : ByteArray) : Prop where
  stands : tree.at? names = some (.file contents)
  accepted : NameAccepted accepts names
  small : contents.size ≤ maxFileSize

/-- Under a location, what stands at some names is met by way of a path that is shown as a text. -/
def Spells (disk : Disk) (location : Text.Bytes) (names : List Text.Bytes) (path : String) : Prop :=
  ∃ rest, (disk.find? location).isSome ∧ names = disk.position location ++ rest ∧
    path = Text.shown (joinAll location rest)

theorem fileOf?_eq_some {item : FileTree.Item} : fileOf? accepts item = some file ↔
    accepts (Text.shown item.name) = true ∧ item.contents = file.contents ∧
      file.contents.size ≤ maxFileSize ∧ file.path = Text.shown item.path := by
  obtain ⟨path, contents⟩ := file
  simp only [fileOf?, Option.ite_none_right_eq_some, Option.some.injEq, SourceFile.mk.injEq]
  constructor
  · rintro ⟨⟨accepted, small⟩, rfl, rfl⟩
    exact ⟨accepted, rfl, small, rfl⟩
  · rintro ⟨accepted, rfl, small, rfl⟩
    exact ⟨⟨accepted, small⟩, rfl, rfl⟩

theorem mem_filesAt (proper : disk.root.Proper) :
    file ∈ (filesAt disk store accepts (.disk location)).1 ↔
      ∃ names, IsReadable disk.root accepts names file.contents ∧
        Spells disk location names file.path := by
  cases found : disk.find? location with
  | none =>
    rw [filesAt_of_missing found]
    refine iff_of_false List.not_mem_nil ?_
    rintro ⟨_, -, _, leads, -⟩
    rw [found] at leads
    cases leads
  | some root =>
    have here := Disk.at?_of_find? found
    have inner := (proper.at? here).1
    have place (names : List Text.Bytes) :
        disk.root.at? (disk.position location ++ names) = root.at? names := by
      rw [FileTree.at?_append, here, Option.bind_some]
    rw [filesAt_of_find? found, filesIn, List.mem_filterMap]
    simp only [FileTree.items_eq inner, List.mem_map, exists_exists_and_eq_and, fileOf?_eq_some]
    constructor
    · rintro ⟨⟨rest, _⟩, met, own, rfl, small, same⟩
      have stands := (FileTree.mem_files inner).1 met
      exact ⟨disk.position location ++ rest, ⟨(place rest).trans stands,
        (accepts_ownName_iff accepts found stands).1 own, small⟩,
        rest, by rw [found]; rfl, rfl, same⟩
    · rintro ⟨_, ⟨stands, own, small⟩, rest, -, rfl, same⟩
      rw [place] at stands
      exact ⟨(rest, file.contents), (FileTree.mem_files inner).2 stands,
        (accepts_ownName_iff accepts found stands).2 own, rfl, small, same⟩

/-- Where names and locations are texts, the path that a file is met by leads to it. -/
theorem Spells.position (proper : disk.root.Proper) (texts : disk.root.HasTexts)
    (isText : Text.IsText location) (spells : Spells disk location names path)
    {inner : FileTree} (stands : disk.root.at? names = some inner) :
    disk.position (Text.bytes path) = names := by
  obtain ⟨rest, leads, rfl, rfl⟩ := spells
  obtain ⟨root, found⟩ := Option.isSome_iff_exists.1 leads
  have named := (proper.at? stands).2
  have below : Text.IsText (joinAll location rest) :=
    FileTree.isText_joinAll isText fun name inside =>
      texts _ _ stands name (List.mem_append_right _ inside)
  rw [below.bytes_shown]
  exact Disk.position_joinAll (Disk.find?_eq_some found).1 fun name inside =>
    named name (List.mem_append_right _ inside)

/-- A local path. -/
def onDisk (path : String) : Location := .disk (Text.bytes path)

/-- Files that are met under some locations have the same contents if their paths are shown alike. -/
def Told (disk : Disk) (store : ObjectStoreSettings) (locations : List Location) : Prop :=
  ∀ one ∈ locations, ∀ two ∈ locations,
    ∀ first ∈ (filesAt disk store isDocumentFile one).1,
    ∀ second ∈ (filesAt disk store isDocumentFile two).1,
      first.path = second.path → first.contents = second.contents

theorem told_of_hasTexts (proper : disk.root.Proper) (texts : disk.root.HasTexts)
    (store : ObjectStoreSettings) (paths : List String) :
    Told disk store (paths.map onDisk) := by
  intro one among two among' first here second there same
  obtain ⟨location, -, rfl⟩ := List.mem_map.1 among
  obtain ⟨location', -, rfl⟩ := List.mem_map.1 among'
  obtain ⟨names, readable, spells⟩ := (mem_filesAt proper).1 here
  obtain ⟨names', readable', spells'⟩ := (mem_filesAt proper).1 there
  have position := spells.position proper texts ⟨location, rfl⟩ readable.stands
  rw [same, spells'.position proper texts ⟨location', rfl⟩ readable'.stands] at position
  subst position
  exact FileTree.file.inj (Option.some.inj (readable.stands.symm.trans readable'.stands))

theorem filesAt_distinct (proper : disk.root.Proper) (texts : disk.root.HasTexts)
    (isText : Text.IsText location) :
    (filesAt disk store accepts (.disk location)).1.Pairwise fun first second =>
      first.path ≠ second.path := by
  cases found : disk.find? location with
  | none => rw [filesAt_of_missing found]; exact .nil
  | some root =>
    have here := Disk.at?_of_find? found
    have inner := (proper.at? here).1
    have place {file : SourceFile} {met : List Text.Bytes × ByteArray} (inside : met ∈ root.files)
        (same : file.path = Text.shown (joinAll location met.1)) :
        disk.position (Text.bytes file.path) = disk.position location ++ met.1 := by
      have stands : disk.root.at? (disk.position location ++ met.1) = some (.file met.2) := by
        rw [FileTree.at?_append, here]
        exact (FileTree.mem_files inner).1 inside
      have spells : Spells disk location (disk.position location ++ met.1) file.path :=
        ⟨met.1, by rw [found]; rfl, rfl, same⟩
      exact spells.position proper texts isText stands
    rw [filesAt_of_find? found, filesIn, FileTree.items_eq inner, List.filterMap_map]
    refine (List.Pairwise.and_mem.1 (FileTree.files_ascending inner)).filterMap _ ?_
    rintro one two ⟨member, member', below⟩ first made second made' same
    have path := (fileOf?_eq_some.1 made).2.2.2
    have path' := (fileOf?_eq_some.1 made').2.2.2
    have names := place member path
    rw [same, place member' path'] at names
    exact List.lt_irrefl _ (List.append_cancel_left names ▸ below)

theorem readings_eq {items : List FileTree.Item}
    (each : items.map (fileOf? accepts) = files.map some) :
    (items.filter fun item => accepts (Text.shown item.name)).map readItem = files.map .ok := by
  induction files generalizing items with
  | nil => rw [List.map_eq_nil_iff.1 each]; rfl
  | cons file rest ih =>
    obtain ⟨item, others, rfl, made, each⟩ := List.map_eq_cons_iff.1 each
    obtain ⟨accepted, same, small, path⟩ := fileOf?_eq_some.1 made
    rw [List.filter_cons_of_pos (by exact accepted), List.map_cons, ih each, readItem, same,
      if_neg (Nat.not_lt.2 small), ← path]
    rfl

theorem filesAt_of_items (found : disk.find? location = some root)
    (each : (root.items location (FileTree.lastName location)).map (fileOf? accepts) =
      files.map some) :
    filesAt disk store accepts (.disk location) = (files, []) := by
  simp only [filesAt, readLocation, readDisk, found, readings_eq each]
  simp [List.filterMap_map, Except.toOption, Function.comp_def]

theorem items_sole (location own name : Text.Bytes) (contents : ByteArray) :
    FileTree.items location own (.folder [(name, .file contents)]) =
      [⟨FileTree.join location name, name, contents⟩] := by
  rw [FileTree.items_folder, FileTree.sortEntries, List.mergeSort_singleton]
  rfl

theorem filesAt_sole (found : disk.find? location = some (.folder [(name, .file file.contents)]))
    (accepted : accepts (Text.shown name) = true) (small : file.contents.size ≤ maxFileSize)
    (path : Text.shown (FileTree.join location name) = file.path) :
    filesAt disk store accepts (.disk location) = ([file], []) := by
  refine filesAt_of_items found ?_
  rw [items_sole]
  simp [fileOf?, accepted, small, path]

theorem filesAt_file (found : disk.find? location = some (.file file.contents))
    (accepted : accepts (Text.shown (FileTree.lastName location)) = true)
    (small : file.contents.size ≤ maxFileSize) (path : Text.shown location = file.path) :
    filesAt disk store accepts (.disk location) = ([file], []) := by
  refine filesAt_of_items found ?_
  simp [FileTree.items, fileOf?, accepted, small, path]

/-! Files of several locations. -/

variable {locations other : List Location}

theorem Told.eq (told : Told disk store locations) {one two : Location} {first second : SourceFile}
    (among : one ∈ locations) (member : first ∈ (filesAt disk store isDocumentFile one).1)
    (among' : two ∈ locations) (member' : second ∈ (filesAt disk store isDocumentFile two).1)
    (same : first.path = second.path) : first = second := by
  have alike := told one among two among' first member second member' same
  cases first
  cases second
  cases same
  cases alike
  rfl

theorem mem_files_of_mem_documentFiles
    (member : file ∈ (documentFiles disk store locations).1) :
    ∃ location ∈ locations, file ∈ (filesAt disk store isDocumentFile location).1 := by
  simp only [documentFiles, List.flatMap_map] at member
  obtain ⟨location, among, inside⟩ :=
    List.mem_flatMap.1 (mem_sortByPath.1 (mem_of_mem_dropRepeated member))
  exact ⟨location, among, inside⟩

theorem kept_of_mem_filesAt {location : Location} (among : location ∈ locations)
    (member : file ∈ (filesAt disk store isDocumentFile location).1) :
    ∃ kept ∈ (documentFiles disk store locations).1, kept.path = file.path := by
  simp only [documentFiles, List.flatMap_map]
  exact kept_of_mem_dropRepeated
    (mem_sortByPath.2 (List.mem_flatMap.2 ⟨location, among, member⟩))

theorem mem_documentFiles (told : Told disk store locations) :
    file ∈ (documentFiles disk store locations).1 ↔
      ∃ location ∈ locations, file ∈ (filesAt disk store isDocumentFile location).1 := by
  refine ⟨mem_files_of_mem_documentFiles, fun ⟨location, among, member⟩ => ?_⟩
  obtain ⟨kept, inside, same⟩ := kept_of_mem_filesAt among member
  obtain ⟨location', among', member'⟩ := mem_files_of_mem_documentFiles inside
  exact told.eq among' member' among member same ▸ inside

theorem documentFiles_ascending (locations : List Location) :
    (documentFiles disk store locations).1.Pairwise fun first second => first.path < second.path :=
  dropRepeated_ascending (sortByPath_sorted _)

theorem documentFiles_eq (told : Told disk store locations)
    (same : ∀ location, location ∈ locations ↔ location ∈ other) :
    (documentFiles disk store locations).1 = (documentFiles disk store other).1 := by
  have told' : Told disk store other := fun one among two among' =>
    told one ((same one).2 among) two ((same two).2 among')
  have distinct : ∀ locations : List Location, (documentFiles disk store locations).1.Nodup :=
    fun locations => (documentFiles_ascending locations).imp fun below same =>
      below.ne (congrArg SourceFile.path same)
  refine List.Perm.eq_of_pairwise (fun first second _ _ below above => absurd below above.not_gt)
    (documentFiles_ascending _) (documentFiles_ascending _)
    ((List.perm_ext_iff_of_nodup (distinct _) (distinct other)).2 fun file => ?_)
  rw [mem_documentFiles told, mem_documentFiles told']
  simp only [same]

theorem documentFiles_clean :
    (documentFiles disk store locations).2 = [] ↔
      ∀ location ∈ locations, (filesAt disk store isDocumentFile location).2 = [] := by
  simp [documentFiles, List.flatMap_eq_nil_iff]

theorem moduleFiles_sorted (libraryPath : Option Location) :
    (moduleFiles disk store libraryPath).1.Pairwise fun first second =>
      first.path ≤ second.path := by
  cases libraryPath with
  | none => exact .nil
  | some location => exact sortByPath_sorted _

theorem moduleFiles_ascending (proper : disk.root.Proper) (texts : disk.root.HasTexts)
    {libraryPath : Option Location}
    (isText : ∀ path, libraryPath = some (.disk path) → Text.IsText path) :
    (moduleFiles disk store libraryPath).1.Pairwise fun first second =>
      first.path < second.path := by
  cases libraryPath with
  | none => exact .nil
  | some location =>
    have distinct : (filesAt disk store isModuleFile location).1.Pairwise
        fun first second => first.path ≠ second.path := by
      cases location with
      | disk path => exact filesAt_distinct proper texts (isText path rfl)
      | objectStore bucket start => rw [filesAt_objectStore]; exact .nil
    have apart : (sortByPath (filesAt disk store isModuleFile location).1).Pairwise
        fun first second => first.path ≠ second.path :=
      ((List.mergeSort_perm _ _).pairwise_iff fun apart => Ne.symm apart).2 distinct
    exact (sortByPath_sorted _).imp₂ (fun _ _ below apart => lt_of_le_of_ne below apart) apart

/-! Libraries. -/

def ofFiles (files modules : List SourceFile) : PolicyLibrary where
  templates := files.flatMap fun file => templatesOf (documentsOf file).1
  constraints := files.flatMap fun file => constraintsOf (documentsOf file).1
  modules := (modules.map moduleOf).filterMap Except.toOption

variable {library : PolicyLibrary} {libraryPath : Option Location}

theorem load_eq_ok : load disk store locations libraryPath = .ok library ↔
    (documentFiles disk store locations).2 = [] ∧
    (∀ file ∈ (documentFiles disk store locations).1, (documentsOf file).2 = []) ∧
    (moduleFiles disk store libraryPath).2 = [] ∧
    (∀ file ∈ (moduleFiles disk store libraryPath).1, ∃ found, moduleOf file = .ok found) ∧
    library =
      ofFiles (documentFiles disk store locations).1 (moduleFiles disk store libraryPath).1 := by
  have templates : templatesOf (((documentFiles disk store locations).1.map documentsOf).flatMap
      (·.1)) = (documentFiles disk store locations).1.flatMap
        fun file => templatesOf (documentsOf file).1 := by
    rw [List.flatMap_map, templatesOf, List.filterMap_flatMap]
    rfl
  have constraints : constraintsOf (((documentFiles disk store locations).1.map documentsOf).flatMap
      (·.1)) = (documentFiles disk store locations).1.flatMap
        fun file => constraintsOf (documentsOf file).1 := by
    rw [List.flatMap_map, constraintsOf, List.filterMap_flatMap]
    rfl
  have unharmed : ((documentFiles disk store locations).1.map documentsOf).flatMap (·.2) = [] ↔
      ∀ file ∈ (documentFiles disk store locations).1, (documentsOf file).2 = [] := by
    rw [List.flatMap_map, List.flatMap_eq_nil_iff]
  simp only [load, PolicyErrors.orValue_eq_ok, List.append_eq_nil_iff, templates, constraints,
    List.filterMap_eq_nil_iff, List.forall_mem_map]
  constructor
  · rintro ⟨⟨⟨⟨found, read⟩, modules⟩, texts⟩, rfl⟩
    refine ⟨found, unharmed.1 read, modules, fun file member => ?_, rfl⟩
    have text := texts file member
    cases encoded : moduleOf file with
    | ok module => exact ⟨module, rfl⟩
    | error error => simp [encoded] at text
  · rintro ⟨found, read, modules, texts, rfl⟩
    refine ⟨⟨⟨⟨found, unharmed.2 read⟩, modules⟩, fun file member => ?_⟩, rfl⟩
    obtain ⟨module, encoded⟩ := texts file member
    rw [encoded]

theorem load_of_files (found : documentFiles disk store locations = (files, []))
    (clean : ∀ file ∈ files, (documentsOf file).2 = []) :
    load disk store locations none = .ok (ofFiles files []) := by
  rw [load_eq_ok, found]
  exact ⟨rfl, clean, rfl, List.forall_mem_nil _, rfl⟩

theorem path_of_mem_documentsOf {document : PolicyDocument}
    (member : document ∈ (documentsOf file).1) :
    document.path = file.path := by
  unfold documentsOf at member
  split at member
  · exact Document.path_of_mem_readAll member
  · cases member

theorem documentsOf_eq (clean : (documentsOf file).2 = []) :
    ∃ text, String.fromUTF8? file.contents = some text ∧
      (documentsOf file).1 =
        (Yaml.values text).zipIdx.filterMap (Document.reading? file.path) := by
  unfold documentsOf at clean ⊢
  cases decoded : String.fromUTF8? file.contents with
  | none => simp [decoded] at clean
  | some text =>
    simp only [decoded] at clean ⊢
    exact ⟨text, rfl, Document.readAll_eq clean⟩

/-- What comes from files in ascending order is in the order of the files. -/
theorem flatMap_ascending {α : Type} {key : α → String} {made : SourceFile → List α}
    (keyed : ∀ file, ∀ item ∈ made file, key item = file.path)
    (ascending : files.Pairwise fun first second => first.path < second.path) :
    (files.flatMap made).Pairwise fun first second =>
      Text.bytes (key first) ≤ Text.bytes (key second) := by
  refine List.pairwise_flatMap.2 ⟨fun file _ => ?_, ascending.imp ?_⟩
  · refine List.pairwise_iff_forall_sublist.2 fun {one two} pair => ?_
    rw [keyed file one (pair.subset (by simp)), keyed file two (pair.subset (by simp))]
    exact List.le_refl _
  · intro first second below one here two there
    rw [keyed first one here, keyed second two there]
    exact Text.le_iff_bytes_le.1 below.le

theorem templatesOf_path {documents : List PolicyDocument}
    (each : ∀ document ∈ documents, document.path = path) :
    ∀ template ∈ templatesOf documents, template.path = path := by
  intro template member
  obtain ⟨document, inside, made⟩ := List.mem_filterMap.1 member
  cases document <;> cases made
  exact each _ inside

theorem constraintsOf_path {documents : List PolicyDocument}
    (each : ∀ document ∈ documents, document.path = path) :
    ∀ constraint ∈ constraintsOf documents, constraint.path = path := by
  intro constraint member
  obtain ⟨document, inside, made⟩ := List.mem_filterMap.1 member
  cases document <;> cases made
  exact each _ inside

theorem ofFiles_modules {modules : List SourceFile} (below : String → String → Prop)
    (ordered : modules.Pairwise fun first second => below first.path second.path) :
    (ofFiles files modules).modules.Pairwise fun first second =>
      below first.path second.path := by
  have named : ∀ {file : SourceFile} {found : LibraryModule},
      (moduleOf file).toOption = some found → found.path = file.path := by
    intro file found made
    unfold moduleOf at made
    split at made <;> cases made
    rfl
  rw [ofFiles, List.filterMap_map]
  refine ordered.filterMap _ fun one two below first here second there => ?_
  rw [named here, named there]
  exact below

end Library

end PolicyReview
