import Mathlib.Data.List.Nodup
import PolicyReview.FileTree
import PolicyReview.Proofs.Ascending
import PolicyReview.Proofs.Text.Split

/-! Walks through trees of files. A walk takes the entries of a folder in the order of their names,
however the folder lists them, and meets every file under a path that leads to it. -/

namespace PolicyReview

namespace FileTree

structure IsEntryName (name : Text.Bytes) : Prop where
  nonempty : name ≠ []
  notHere : name ≠ [point]
  notAbove : name ≠ [point, point]
  undivided : slash ∉ name

instance (name : Text.Bytes) : Decidable (IsEntryName name) :=
  decidable_of_iff (name ≠ [] ∧ name ≠ [point] ∧ name ≠ [point, point] ∧ slash ∉ name)
    ⟨fun ⟨nonempty, notHere, notAbove, undivided⟩ => ⟨nonempty, notHere, notAbove, undivided⟩,
      fun named => ⟨named.nonempty, named.notHere, named.notAbove, named.undivided⟩⟩

/-- A tree in which the entries of each folder have such names, no two of them one name. -/
inductive Proper : FileTree → Prop
  | file {contents : ByteArray} : Proper (.file contents)
  | folder {entries : Entries} (distinct : (entries.map (·.1)).Nodup)
      (named : ∀ entry ∈ entries, IsEntryName entry.1) (each : ∀ entry ∈ entries, Proper entry.2) :
      Proper (.folder entries)

/-- A folder whose entries are named by texts. -/
def named (entries : List (String × FileTree)) : FileTree :=
  .folder (entries.map fun (name, tree) => (Text.bytes name, tree))

theorem proper_empty : Proper empty := .folder .nil (by simp) (by simp)

theorem Proper.entries {tree : FileTree} (proper : tree.Proper) :
    Proper (.folder tree.entries) := by
  cases proper with
  | file => exact proper_empty
  | folder distinct named each => exact .folder distinct named each

theorem lookup_eq_some {entries : Entries} (distinct : (entries.map (·.1)).Nodup)
    {name : Text.Bytes} {tree : FileTree} :
    entries.lookup name = some tree ↔ (name, tree) ∈ entries := by
  refine ⟨mem_of_lookup, fun member => ?_⟩
  obtain ⟨before, after, rfl⟩ := List.append_of_mem member
  refine List.lookup_eq_some_iff.2 ⟨before, after, rfl, fun entry inside => ?_⟩
  rw [List.map_append, List.map_cons] at distinct
  have apart := (List.nodup_append.1 distinct).2.2 entry.1 (List.mem_map_of_mem inside) name
    List.mem_cons_self
  exact bne_iff_ne.2 (Ne.symm apart)

/-! The order of a walk. -/

/-- The entries of a folder in the order of their names. -/
def sortEntries (entries : Entries) : Entries :=
  entries.mergeSort fun first second => first.1 ≤ second.1

theorem mem_sortEntries {entries : Entries} {entry : Text.Bytes × FileTree} :
    entry ∈ sortEntries entries ↔ entry ∈ entries :=
  (List.mergeSort_perm entries _).mem_iff

theorem sortEntries_ascending {entries : Entries} (distinct : (entries.map (·.1)).Nodup) :
    (sortEntries entries).Pairwise fun first second => first.1 < second.1 := by
  have total (first second : Text.Bytes × FileTree) :
      (decide (first.1 ≤ second.1) || decide (second.1 ≤ first.1)) = true := by
    rw [Bool.or_eq_true, decide_eq_true_iff, decide_eq_true_iff]
    exact List.le_total first.1 second.1
  have trans (first second third : Text.Bytes × FileTree) (one : decide (first.1 ≤ second.1) = true)
      (two : decide (second.1 ≤ third.1) = true) : decide (first.1 ≤ third.1) = true :=
    decide_eq_true (List.le_trans (of_decide_eq_true one) (of_decide_eq_true two))
  have below := List.pairwise_mergeSort trans total entries
  have sorted : (sortEntries entries).Pairwise fun first second => first.1 ≤ second.1 :=
    below.imp of_decide_eq_true
  have names : ((sortEntries entries).map (·.1)).Nodup :=
    ((List.mergeSort_perm entries _).map _).nodup_iff.2 distinct
  have apart : (sortEntries entries).Pairwise fun first second => first.1 ≠ second.1 :=
    List.pairwise_map.1 names
  refine sorted.imp₂ (fun first second below apart => ?_) apart
  by_contra above
  exact apart (List.le_antisymm below (List.not_lt.1 above))

theorem entryItems_eq (path : Text.Bytes) (entries : Entries) : entryItems path entries =
    entries.map fun entry => (entry.1, items (join path entry.1) entry.1 entry.2) := by
  induction entries with
  | nil => rfl
  | cons entry rest ih => rw [entryItems, ih, List.map_cons]

theorem items_folder (path name : Text.Bytes) (entries : Entries) :
    items path name (.folder entries) =
      (sortEntries entries).flatMap fun entry => items (join path entry.1) entry.1 entry.2 := by
  have sorted := List.map_mergeSort (l := entries)
    (f := fun entry => (entry.1, items (join path entry.1) entry.1 entry.2))
    (r := fun first second => decide (first.1 ≤ second.1))
    (s := fun first second => decide (first.1 ≤ second.1)) fun _ _ _ _ => rfl
  rw [items, entryItems_eq, ← sorted, List.flatMap_map]
  rfl

/-! Paths. -/

variable {path other name : Text.Bytes}

theorem parts_append_cons (before after : Text.Bytes) :
    parts (before ++ slash :: after) = parts before ++ parts after :=
  List.splitOnP_append_cons before after (beq_self_eq_true slash)

theorem parts_entryName (named : IsEntryName name) : parts name = [name] :=
  Text.splitOn_unbroken named.undivided

theorem parts_injective : Function.Injective parts := by
  intro path other same
  have whole := congrArg [slash].intercalate same
  rwa [parts, parts, List.intercalate_splitOn, List.intercalate_splitOn] at whole

def stem (path : Text.Bytes) : Text.Bytes := if endsInSlash path then path.dropLast else path

theorem eq_stem_of_endsInSlash (ends : endsInSlash path = true) :
    path = stem path ++ [slash] := by
  obtain ⟨before, shape⟩ := List.getLast?_eq_some_iff.1 (of_decide_eq_true ends)
  rw [stem, if_pos ends, shape, List.dropLast_concat]

theorem join_eq (path name : Text.Bytes) : join path name = stem path ++ slash :: name := by
  rw [join]
  split
  next ends =>
    conv => lhs; rw [eq_stem_of_endsInSlash ends]
    rw [List.append_assoc]
    rfl
  next plain => rw [stem, if_neg plain]

theorem join_ne_nil (path name : Text.Bytes) : join path name ≠ [] := by
  rw [join_eq]
  exact List.append_ne_nil_of_right_ne_nil _ (List.cons_ne_nil _ _)

/-- The parts of a path from which the paths below it start. -/
def base (path : Text.Bytes) : List Text.Bytes := parts (stem path)

theorem parts_join (path : Text.Bytes) (named : IsEntryName name) :
    parts (join path name) = base path ++ [name] := by
  rw [join_eq, parts_append_cons, parts_entryName named, base]

theorem parts_eq_base (path : Text.Bytes) :
    parts path = base path ∨ parts path = base path ++ [[]] := by
  by_cases ends : endsInSlash path = true
  · right
    have cut := parts_append_cons (stem path) []
    rwa [← eq_stem_of_endsInSlash ends] at cut
  · left
    rw [base, stem, if_neg ends]

theorem stem_join (path : Text.Bytes) (named : IsEntryName name) :
    stem (join path name) = join path name := by
  have plain : ¬ endsInSlash (join path name) = true := by
    intro ends
    have last : (join path name).getLast? = some slash := of_decide_eq_true ends
    rw [join_eq, List.getLast?_append, List.getLast?_cons,
      List.getLast?_eq_some_getLast named.nonempty] at last
    exact named.undivided (Option.some.inj last ▸ List.getLast_mem named.nonempty)
  rw [stem, if_neg plain]

theorem base_join (path : Text.Bytes) (named : IsEntryName name) :
    base (join path name) = parts (join path name) := by
  rw [base, stem_join path named]

end FileTree

end PolicyReview
