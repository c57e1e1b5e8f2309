import PolicyReview.Library.Loading
import PolicyReview.Proofs.FileTree.Position

/-! Sources on disk. A location is read at the places of the files below it: each of them whose own
name is accepted is met once, in the order of a walk, and gives its contents or is reported to be too
large, whatever the others are. -/

namespace PolicyReview.Library

open FileTree (joinAll)

variable {disk : Disk} {root : FileTree} {path : Text.Bytes} {names : List Text.Bytes}
  {contents : ByteArray}

/-- The last of the names that lead to a file is accepted as the text that it is shown as. -/
def NameAccepted (accepts : String → Bool) (names : List Text.Bytes) : Prop :=
  ∃ own, names.getLast? = some own ∧ accepts (Text.shown own) = true

def readingBelow (path : Text.Bytes) (file : List Text.Bytes × ByteArray) : Reading :=
  if file.2.size ≤ maxFileSize then .ok ⟨Text.shown (joinAll path file.1), file.2⟩
  else .error (.tooLarge (Text.shown (joinAll path file.1)))

theorem readItem_eq (path name : Text.Bytes) (file : List Text.Bytes × ByteArray) :
    readItem ⟨joinAll path file.1, name, file.2⟩ = readingBelow path file := by
  rw [readItem, readingBelow]
  split
  next large => rw [if_neg (Nat.not_le.2 large)]
  next small => rw [if_pos (Nat.not_lt.1 small)]

theorem readDisk_eq (proper : disk.root.Proper) (accepts : String → Bool)
    (found : disk.find? path = some root) :
    readDisk disk accepts path = .ok ((root.files.filter fun file =>
      accepts (Text.shown (file.1.getLast?.getD (FileTree.lastName path)))).map
        (readingBelow path)) := by
  have inner := (proper.at? (Disk.at?_of_find? found)).1
  rw [readDisk, found]
  simp only [FileTree.items_eq inner, List.filter_map, List.map_map]
  refine congrArg Except.ok (List.map_congr_left fun file _ => ?_)
  exact readItem_eq path _ file

theorem accepts_ownName_iff (accepts : String → Bool) (found : disk.find? path = some root)
    (stands : root.at? names = some (.file contents)) :
    accepts (Text.shown (names.getLast?.getD (FileTree.lastName path))) = true ↔
      NameAccepted accepts (disk.position path ++ names) := by
  rw [NameAccepted, List.getLast?_append]
  cases names with
  | nil =>
    obtain rfl := Option.some.inj stands
    rw [Disk.getLast?_position found]
    simp
  | cons name rest => simp [List.getLast?_cons]

theorem isDocumentFile_yaml (stem : String) :
    isDocumentFile (Text.shown (Text.bytes (stem ++ ".yaml"))) = true := by
  have ends : (stem ++ ".yaml").endsWith ".yaml" = true :=
    String.Slice.endsWith_string_iff.2 (by simp)
  simp [Text.shown_bytes, isDocumentFile, ends]

/-- Under a path that leads somewhere, the files are read at whose places the last name is accepted:
each once, depth first, with the entries of each folder in the order of the bytes of their names,
however the folder lists them. A file gives its path and contents unless it is too large; this does
not depend on the other files. -/
theorem readDisk_visits (proper : disk.root.Proper) (accepts : String → Bool)
    (found : disk.find? path = some root) :
    disk.root.at? (disk.position path) = some root ∧
      ∃ visited : List (List Text.Bytes × ByteArray),
        (∀ names contents, (names, contents) ∈ visited ↔
          disk.root.at? (disk.position path ++ names) = some (.file contents) ∧
            NameAccepted accepts (disk.position path ++ names)) ∧
        (visited.Pairwise fun first second => first.1 < second.1) ∧
        (∀ file ∈ visited, disk.find? (joinAll path file.1) = some (.file file.2)) ∧
        readDisk disk accepts path = .ok (visited.map fun file =>
          if file.2.size ≤ maxFileSize then .ok ⟨Text.shown (joinAll path file.1), file.2⟩
          else .error (.tooLarge (Text.shown (joinAll path file.1)))) := by
  have stands := Disk.at?_of_find? found
  have inner := (proper.at? stands).1
  refine ⟨stands, root.files.filter fun file =>
    accepts (Text.shown (file.1.getLast?.getD (FileTree.lastName path))),
    fun names contents => ?_, (FileTree.files_ascending inner).filter _, fun file member => ?_,
    readDisk_eq proper accepts found⟩
  · rw [List.mem_filter, FileTree.mem_files inner, FileTree.at?_append, stands, Option.bind_some]
    exact and_congr_right fun here => accepts_ownName_iff accepts found here
  · have here := (FileTree.mem_files inner).1 (List.mem_filter.1 member).1
    exact Disk.find?_joinAll inner found here

def oversized : ByteArray := ⟨Array.replicate (maxFileSize + 1) 32⟩

def mixedFolder : FileTree := .named [
  ("small.yaml", .file ⟨#[99]⟩),
  ("notes.txt", .file ⟨#[98]⟩),
  ("big.yaml", .file oversized),
  ("a", .named [("z.yaml", .file ⟨#[97]⟩)])]

def mixedDisk : Disk where
  root := .named [("policies", mixedFolder)]

theorem mixedDisk_proper : mixedDisk.root.Proper := by
  refine .folder (by decide) (by decide) (List.forall_mem_singleton.2 ?_)
  refine .folder (by decide) (by decide) ?_
  simp only [List.forall_mem_map, List.forall_mem_cons]
  refine ⟨.file, .file, .file, ?_, List.forall_mem_nil _⟩
  exact .folder (by decide) (by decide) (List.forall_mem_singleton.2 .file)

theorem readDisk_visits_mixed : ∃ readings,
    readDisk mixedDisk isDocumentFile (Text.bytes "/policies") = .ok readings ∧
      .ok ⟨"/policies/a/z.yaml", ⟨#[97]⟩⟩ ∈ readings ∧
      .error (.tooLarge "/policies/big.yaml") ∈ readings ∧
      .ok ⟨"/policies/small.yaml", ⟨#[99]⟩⟩ ∈ readings := by
  have found : mixedDisk.find? (Text.bytes "/policies") = some mixedFolder := rfl
  obtain ⟨-, visited, met, -, -, read⟩ := readDisk_visits mixedDisk_proper isDocumentFile found
  have position : mixedDisk.position (Text.bytes "/policies") = [Text.bytes "policies"] := by
    decide
  rw [position] at met
  have given (names : List Text.Bytes) (contents : ByteArray)
      (stands : mixedDisk.root.at? (Text.bytes "policies" :: names) = some (.file contents))
      (accepted : NameAccepted isDocumentFile (Text.bytes "policies" :: names)) :
      readingBelow (Text.bytes "/policies") (names, contents) ∈
        visited.map (readingBelow (Text.bytes "/policies")) :=
    List.mem_map.2 ⟨_, (met names contents).2 ⟨stands, accepted⟩, rfl⟩
  have large : ¬oversized.size ≤ maxFileSize := by simp [oversized, ByteArray.size]
  refine ⟨_, read, ?_, ?_, ?_⟩
  · exact given [Text.bytes "a", Text.bytes "z.yaml"] ⟨#[97]⟩ rfl
      ⟨_, rfl, isDocumentFile_yaml "z"⟩
  · have reported : readingBelow (Text.bytes "/policies") ([Text.bytes "big.yaml"], oversized) =
        .error (.tooLarge "/policies/big.yaml") := if_neg large
    exact reported ▸ given [Text.bytes "big.yaml"] oversized rfl
      ⟨_, rfl, isDocumentFile_yaml "big"⟩
  · exact given [Text.bytes "small.yaml"] ⟨#[99]⟩ rfl ⟨_, rfl, isDocumentFile_yaml "small"⟩

end PolicyReview.Library
