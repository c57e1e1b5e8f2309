import PolicyReview.Proofs.FileTree
import PolicyReview.Proofs.Text.Shown

/-! Places in trees of files. The names that lead to a file from the root tell it from all others,
while many paths lead there. The files below a path are met at their places in the order of the
names. -/

namespace PolicyReview

namespace FileTree

/-- What stands under names, each within the one before. -/
def at? : FileTree → List Text.Bytes → Option FileTree
  | tree, [] => some tree
  | tree, name :: rest => (tree.entries.lookup name).bind (at? · rest)

def follow (names : List Text.Bytes) (part : Text.Bytes) : List Text.Bytes :=
  if part = [] ∨ part = [point] then names
  else if part = [point, point] then names.dropLast
  else names ++ [part]

/-- The path of names below a path. -/
def joinAll (path : Text.Bytes) (names : List Text.Bytes) : Text.Bytes := names.foldl join path

variable {root tree inner : FileTree} {names later : List Text.Bytes} {path part name : Text.Bytes}
  {contents : ByteArray} {entries : Entries}

theorem at?_append : root.at? (names ++ later) = (root.at? names).bind (·.at? later) := by
  induction names generalizing root with
  | nil => rfl
  | cons name rest ih =>
    rw [List.cons_append, at?, at?, Option.bind_assoc]
    exact Option.bind_congr fun inner _ => ih

theorem Proper.at? (proper : tree.Proper) (stands : tree.at? names = some inner) :
    inner.Proper ∧ ∀ name ∈ names, IsEntryName name := by
  induction names generalizing tree with
  | nil => cases stands; exact ⟨proper, List.forall_mem_nil _⟩
  | cons name rest ih =>
    obtain ⟨next, listed, stands⟩ := Option.bind_eq_some_iff.1 stands
    obtain _ | ⟨-, named, each⟩ := proper.entries
    have member := mem_of_lookup listed
    obtain ⟨below, names⟩ := ih (each _ member) stands
    exact ⟨below, List.forall_mem_cons.2 ⟨named _ member, names⟩⟩

theorem follow_name (named : IsEntryName name) : follow names name = names ++ [name] := by
  simp [follow, named.nonempty, named.notHere, named.notAbove]

theorem foldl_follow_names (names : List Text.Bytes) (named : ∀ name ∈ later, IsEntryName name) :
    later.foldl follow names = names ++ later := by
  induction later generalizing names with
  | nil => rw [List.append_nil, List.foldl_nil]
  | cons name rest ih =>
    obtain ⟨first, others⟩ := List.forall_mem_cons.1 named
    rw [List.foldl_cons, follow_name first, ih _ others, List.append_assoc]
    rfl

/-! Where the parts of a path lead. -/

abbrev Place := List FileTree × FileTree

def enter? (place : Place) (part : Text.Bytes) : Option Place :=
  match place.2 with
  | .file _ => none
  | .folder entries =>
    if part = [] ∨ part = [point] then some place
    else if part = [point, point] then
      match place.1 with
      | outer :: above => some (above, outer)
      | [] => some place
    else (entries.lookup part).map (place.2 :: place.1, ·)

variable {place found : Place}

theorem follow?_eq (above : List FileTree) (tree : FileTree) (route : List Text.Bytes) :
    follow? above tree route = (route.foldlM enter? (above, tree)).map (·.2) := by
  induction route generalizing above tree with
  | nil => rfl
  | cons part rest ih =>
    rw [List.foldlM_cons]
    cases tree with
    | file => rfl
    | folder entries =>
      simp only [follow?, enter?]
      split
      · exact ih _ _
      split
      · cases above with
        | nil => exact ih _ _
        | cons outer above => exact ih _ _
      · cases entries.lookup part with
        | none => rfl
        | some inner => exact ih _ _

theorem enter?_blank (entered : enter? place [] = some found) : found = place := by
  unfold enter? at entered
  split at entered
  · cases entered
  · rw [if_pos (.inl rfl)] at entered
    exact (Option.some.inj entered).symm

theorem enter?_entryName (named : IsEntryName name) (folder : place.2 = .folder entries) :
    enter? place name = (entries.lookup name).map (place.2 :: place.1, ·) := by
  simp [enter?, folder, named.nonempty, named.notHere, named.notAbove]

/-- The names that lead to a place, the folders around it being the ones on the way. -/
inductive Reached (root : FileTree) : List Text.Bytes → Place → Prop
  | root : Reached root [] ([], root)
  | inner {names : List Text.Bytes} {name : Text.Bytes} {above : List FileTree} {entries : Entries}
    {tree : FileTree} (outer : Reached root names (above, .folder entries))
    (listed : entries.lookup name = some tree) :
    Reached root (names ++ [name]) (.folder entries :: above, tree)

namespace Reached

theorem at? (reached : Reached root names place) : root.at? names = some place.2 := by
  induction reached with
  | root => rfl
  | @inner names name above entries tree _ listed ih =>
    rw [at?_append, ih]
    exact (Option.bind_congr fun _ _ => rfl).trans (congrArg (Option.bind · some) listed)

theorem enter? (reached : Reached root names place) (entered : enter? place part = some found) :
    Reached root (follow names part) found := by
  obtain ⟨above, tree⟩ := place
  unfold FileTree.enter? at entered
  cases tree with
  | file => cases entered
  | folder entries =>
    dsimp only at entered
    rw [follow]
    split at entered
    next here =>
      cases entered
      rwa [if_pos here]
    next notHere =>
      rw [if_neg notHere]
      split at entered
      next up =>
        rw [if_pos up]
        cases reached with
        | root =>
          cases entered
          exact .root
        | inner outer _ =>
          cases entered
          rwa [List.dropLast_concat]
      next notUp =>
        obtain ⟨inner, listed, rfl⟩ := Option.map_eq_some_iff.1 entered
        rw [if_neg notUp]
        exact .inner reached listed

theorem foldlM {route : List Text.Bytes} (reached : Reached root names place)
    (led : route.foldlM FileTree.enter? place = some found) :
    Reached root (route.foldl follow names) found := by
  induction route generalizing names place with
  | nil =>
    cases led
    exact reached
  | cons part rest ih =>
    obtain ⟨next, entered, led⟩ := Option.bind_eq_some_iff.1 led
    exact ih (reached.enter? entered) led

theorem ne_of_file {above : List FileTree} (reached : Reached root names place)
    (entered : FileTree.enter? place part = some (above, .file contents)) :
    part ≠ [] ∧ part ≠ [point] ∧ part ≠ [point, point] := by
  obtain ⟨around, tree⟩ := place
  unfold FileTree.enter? at entered
  cases tree with
  | file => cases entered
  | folder entries =>
    dsimp only at entered
    split at entered
    · cases entered
    next notHere =>
      split at entered
      · cases reached with
        | root => cases entered
        | inner _ _ => cases entered
      next notAbove =>
        exact ⟨fun blank => notHere (.inl blank), fun here => notHere (.inr here), notAbove⟩

end Reached

/-! Walks. -/

mutual

/-- The places of the files of a tree and what is in them, in the order of a walk. -/
def files : FileTree → List (List Text.Bytes × ByteArray)
  | .file contents => [([], contents)]
  | .folder entries =>
    ((entryFiles entries).mergeSort fun first second => first.1 ≤ second.1).flatMap (·.2)

def entryFiles : Entries → List (Text.Bytes × List (List Text.Bytes × ByteArray))
  | [] => []
  | (name, tree) :: rest =>
    (name, (files tree).map fun file => (name :: file.1, file.2)) :: entryFiles rest

end

theorem entryFiles_eq (entries : Entries) : entryFiles entries = entries.map fun entry =>
    (entry.1, (files entry.2).map fun file => (entry.1 :: file.1, file.2)) := by
  induction entries with
  | nil => rfl
  | cons entry rest ih => rw [entryFiles, ih, List.map_cons]

theorem files_folder (entries : Entries) : files (.folder entries) =
    (sortEntries entries).flatMap fun entry =>
      (files entry.2).map fun file => (entry.1 :: file.1, file.2) := by
  have sorted := List.map_mergeSort (l := entries)
    (f := fun entry => (entry.1, (files entry.2).map fun file => (entry.1 :: file.1, file.2)))
    (r := fun first second => decide (first.1 ≤ second.1))
    (s := fun first second => decide (first.1 ≤ second.1)) fun _ _ _ _ => rfl
  rw [files, entryFiles_eq, ← sorted, List.flatMap_map]
  rfl

theorem mem_files (proper : tree.Proper) :
    (names, contents) ∈ files tree ↔ tree.at? names = some (.file contents) := by
  induction proper generalizing names with
  | @file own =>
    rw [files, List.mem_singleton]
    cases names with
    | nil => simp [at?, eq_comm]
    | cons name rest => simp [at?, FileTree.entries]
  | @folder entries distinct named each ih =>
    rw [files_folder, List.mem_flatMap]
    simp only [mem_sortEntries]
    cases names with
    | nil => simp [at?]
    | cons name rest =>
      rw [at?, Option.bind_eq_some_iff]
      constructor
      · rintro ⟨entry, inside, member⟩
        obtain ⟨file, met, same⟩ := List.mem_map.1 member
        cases same
        exact ⟨entry.2, (lookup_eq_some distinct).2 inside, (ih entry inside).1 met⟩
      · rintro ⟨inner, listed, stands⟩
        have inside := (lookup_eq_some distinct).1 listed
        exact ⟨_, inside, List.mem_map.2 ⟨_, (ih _ inside).2 stands, rfl⟩⟩

/-- A walk goes depth first, through the entries of each folder in the order of their names. -/
theorem files_ascending (proper : tree.Proper) :
    (files tree).Pairwise fun first second => first.1 < second.1 := by
  induction proper with
  | file => exact List.pairwise_singleton _ _
  | @folder entries distinct named each ih =>
    rw [files_folder, List.pairwise_flatMap]
    refine ⟨fun entry inside => ?_, (sortEntries_ascending distinct).imp ?_⟩
    · refine List.pairwise_map.2 ((ih entry (mem_sortEntries.1 inside)).imp fun earlier => ?_)
      exact List.cons_lt_cons_iff.2 (.inr ⟨rfl, earlier⟩)
    · rintro first second earlier _ here _ there
      obtain ⟨_, _, rfl⟩ := List.mem_map.1 here
      obtain ⟨_, _, rfl⟩ := List.mem_map.1 there
      exact List.cons_lt_cons_iff.2 (.inl earlier)

theorem items_eq (proper : tree.Proper) (path name : Text.Bytes) :
    items path name tree = (files tree).map fun file =>
      ⟨joinAll path file.1, file.1.getLast?.getD name, file.2⟩ := by
  induction proper generalizing path name with
  | file => rfl
  | @folder entries _ _ _ ih =>
    rw [items_folder, files_folder, List.map_flatMap]
    refine List.flatMap_congr fun entry inside => ?_
    rw [ih entry (mem_sortEntries.1 inside), List.map_map]
    refine List.map_congr_left fun file _ => ?_
    simp [joinAll, List.getLast?_cons]

/-! Paths below a path. -/

theorem parts_joinAll (path : Text.Bytes) (named : ∀ name ∈ names, IsEntryName name)
    (filled : names ≠ []) : parts (joinAll path names) = base path ++ names := by
  induction names generalizing path with
  | nil => exact absurd rfl filled
  | cons name rest ih =>
    obtain ⟨first, others⟩ := List.forall_mem_cons.1 named
    cases rest with
    | nil => exact parts_join path first
    | cons second later =>
      refine (ih (join path name) others (List.cons_ne_nil _ _)).trans ?_
      rw [base_join path first, parts_join path first, List.append_assoc]
      rfl

/-! Names that are texts. -/

/-- The names of all entries are the bytes of texts. -/
def HasTexts (tree : FileTree) : Prop :=
  ∀ names inner, tree.at? names = some inner → ∀ name ∈ names, Text.IsText name

theorem hasTexts_file (contents : ByteArray) : HasTexts (.file contents) := by
  rintro (_ | ⟨name, rest⟩) inner stands
  · exact List.forall_mem_nil _
  · cases stands

theorem hasTexts_named {entries : List (String × FileTree)}
    (each : ∀ entry ∈ entries, entry.2.HasTexts) : (named entries).HasTexts := by
  rintro (_ | ⟨name, rest⟩) inner stands
  · exact List.forall_mem_nil _
  · obtain ⟨next, listed, below⟩ := Option.bind_eq_some_iff.1 stands
    obtain ⟨⟨text, tree⟩, member, same⟩ := List.mem_map.1 (mem_of_lookup listed)
    cases same
    exact List.forall_mem_cons.2 ⟨⟨text, rfl⟩, each _ member _ _ below⟩

theorem isText_join (one : Text.IsText path) (two : Text.IsText name) :
    Text.IsText (join path name) := by
  rw [join]
  split
  · exact one.append two
  · have divider : Text.IsText [slash] := ⟨"/", by decide +kernel⟩
    exact one.append (divider.append two)

theorem isText_joinAll (one : Text.IsText path) (each : ∀ name ∈ names, Text.IsText name) :
    Text.IsText (joinAll path names) := by
  induction names generalizing path with
  | nil => exact one
  | cons name rest ih =>
    obtain ⟨first, others⟩ := List.forall_mem_cons.1 each
    exact ih (isText_join one first) others

end FileTree

/-! Where paths lead. -/

namespace Disk

open FileTree (base enter? follow joinAll parts Reached)

variable {disk : Disk} {tree inner : FileTree} {names later : List Text.Bytes}
  {path name : Text.Bytes} {contents : ByteArray} {entries : FileTree.Entries}

/-- The place that a path stands for. -/
def position (disk : Disk) (path : Text.Bytes) : List Text.Bytes := (disk.route path).foldl follow []

/-- The parts of a path from the root on, from which the paths below it start. -/
def way (disk : Disk) (path : Text.Bytes) : List Text.Bytes :=
  if path.head? = some FileTree.slash then base path else disk.here ++ base path

theorem route_eq_way (disk : Disk) (path : Text.Bytes) :
    disk.route path = disk.way path ∨ disk.route path = disk.way path ++ [[]] := by
  rw [route, way]
  rcases FileTree.parts_eq_base path with same | same <;> rw [same] <;> split <;> simp

theorem route_join (filled : path ≠ []) (named : FileTree.IsEntryName name) :
    disk.route (FileTree.join path name) = disk.way path ++ [name] := by
  have start : (FileTree.join path name).head? = path.head? := by
    rw [FileTree.join]
    split <;> rw [List.head?_append_of_ne_nil _ filled]
  rw [route, way, start, FileTree.parts_join path named]
  split
  · rfl
  · rw [List.append_assoc]

theorem position_eq_way (disk : Disk) (path : Text.Bytes) :
    disk.position path = (disk.way path).foldl follow [] := by
  rw [position]
  rcases disk.route_eq_way path with same | same
  · rw [same]
  · rw [same, List.foldl_append]
    rfl

theorem find?_eq_some (found : disk.find? path = some tree) : path ≠ [] ∧ ∃ above,
    (disk.way path).foldlM enter? ([], disk.root) = some (above, tree) := by
  unfold find? at found
  split at found
  · cases found
  next filled =>
    rw [FileTree.follow?_eq] at found
    obtain ⟨⟨above, _⟩, led, rfl⟩ := Option.map_eq_some_iff.1 found
    refine ⟨filled, ?_⟩
    rcases disk.route_eq_way path with same | same
    · exact ⟨above, same ▸ led⟩
    · rw [same, List.foldlM_append] at led
      obtain ⟨place, led, last⟩ := Option.bind_eq_some_iff.1 led
      obtain ⟨next, last, same⟩ := Option.bind_eq_some_iff.1 last
      cases same
      exact ⟨above, (FileTree.enter?_blank last) ▸ led⟩

theorem at?_of_find? (found : disk.find? path = some tree) :
    disk.root.at? (disk.position path) = some tree := by
  obtain ⟨-, above, led⟩ := find?_eq_some found
  rw [position_eq_way]
  exact (Reached.root.foldlM led).at?

theorem find?_join (found : disk.find? path = some (.folder entries))
    (named : FileTree.IsEntryName name) :
    disk.find? (FileTree.join path name) = entries.lookup name := by
  obtain ⟨filled, above, led⟩ := find?_eq_some found
  rw [find?, if_neg (FileTree.join_ne_nil path name), FileTree.follow?_eq, route_join filled named,
    List.foldlM_append, led]
  simp [FileTree.enter?_entryName named]

theorem find?_joinAll (proper : tree.Proper) (found : disk.find? path = some tree)
    (stands : tree.at? names = some inner) : disk.find? (joinAll path names) = some inner := by
  induction names generalizing tree path with
  | nil => exact found.trans stands
  | cons name rest ih =>
    obtain ⟨next, listed, rest⟩ := Option.bind_eq_some_iff.1 stands
    cases tree with
    | file => cases listed
    | folder entries =>
      obtain _ | ⟨-, named, each⟩ := proper
      have member := mem_of_lookup listed
      exact ih (each _ member) ((find?_join found (named _ member)).trans listed) rest

theorem route_of_find? (found : disk.find? path = some (.file contents)) :
    ∃ init last, disk.route path = init ++ [last] ∧
      last ≠ [] ∧ last ≠ [FileTree.point] ∧ last ≠ [FileTree.point, FileTree.point] := by
  unfold find? at found
  split at found
  · cases found
  rw [FileTree.follow?_eq] at found
  obtain ⟨⟨above, _⟩, led, rfl⟩ := Option.map_eq_some_iff.1 found
  have filled : disk.route path ≠ [] := by
    rw [route]
    split <;> simp [FileTree.parts]
  obtain ⟨init, last, whole⟩ : ∃ init last, disk.route path = init ++ [last] :=
    ⟨_, _, (List.dropLast_concat_getLast filled).symm⟩
  rw [whole, List.foldlM_append] at led
  obtain ⟨place, led, entered⟩ := Option.bind_eq_some_iff.1 led
  obtain ⟨next, entered, same⟩ := Option.bind_eq_some_iff.1 entered
  cases same
  exact ⟨init, last, whole, (Reached.root.foldlM led).ne_of_file entered⟩

theorem getLast?_route (disk : Disk) (path : Text.Bytes) :
    (disk.route path).getLast? = (parts path).getLast? := by
  have filled : parts path ≠ [] := by simp [FileTree.parts]
  rw [route]
  split
  · rfl
  · rw [List.getLast?_append, List.getLast?_eq_some_getLast filled]
    rfl

theorem getLast?_position (found : disk.find? path = some (.file contents)) :
    (disk.position path).getLast? = some (FileTree.lastName path) := by
  obtain ⟨init, last, whole, filled, notHere, notAbove⟩ := route_of_find? found
  have ends := disk.getLast?_route path
  rw [whole, List.getLast?_concat] at ends
  obtain ⟨before, split⟩ := List.getLast?_eq_some_iff.1 ends.symm
  have own : disk.position path = init.foldl follow [] ++ [last] := by
    rw [position, whole, List.foldl_append, List.foldl_cons, List.foldl_nil, follow,
      if_neg (by simp [filled, notHere]), if_neg notAbove]
  simp [own, FileTree.lastName, split, List.filter_append, filled, notHere]

theorem base_of_find? (found : disk.find? path = some (.file contents)) :
    base path = parts path := by
  obtain ⟨init, last, whole, filled, -⟩ := route_of_find? found
  rcases FileTree.parts_eq_base path with same | same
  · exact same.symm
  · have ends := disk.getLast?_route path
    rw [whole, same, List.getLast?_concat, List.getLast?_concat] at ends
    exact absurd (Option.some.inj ends) filled

theorem position_join (filled : path ≠ []) (named : FileTree.IsEntryName name) :
    disk.position (FileTree.join path name) = disk.position path ++ [name] := by
  rw [position, route_join filled named, List.foldl_append, ← position_eq_way]
  exact FileTree.follow_name named

theorem position_joinAll (filled : path ≠ []) (named : ∀ name ∈ names, FileTree.IsEntryName name) :
    disk.position (joinAll path names) = disk.position path ++ names := by
  induction names generalizing path with
  | nil => rw [List.append_nil]; rfl
  | cons name rest ih =>
    obtain ⟨first, others⟩ := List.forall_mem_cons.1 named
    have later := ih (FileTree.join_ne_nil path name) others
    rw [position_join filled first, List.append_assoc] at later
    exact later

end Disk

end PolicyReview
