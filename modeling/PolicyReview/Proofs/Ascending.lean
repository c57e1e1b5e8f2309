import Mathlib.Data.List.Induction
import Mathlib.Data.List.Nodup
import Mathlib.Data.String.Basic
import Mathlib.Order.Basic

/-! Entries in ascending order of their names. No name is there twice, so that the values under the
names say what the entries are. -/

namespace PolicyReview

theorem mem_of_lookup {κ α : Type} [BEq κ] [LawfulBEq κ] {entries : List (κ × α)} {key : κ}
    {value : α} (found : entries.lookup key = some value) : (key, value) ∈ entries := by
  obtain ⟨before, after, rfl, -⟩ := List.lookup_eq_some_iff.1 found
  simp

section Entries

variable {α : Type} {entries : List (String × α)} {name other : String} {value : α}

/-- Every name is below the ones after it. -/
def Ascending (entries : List (String × α)) : Prop :=
  entries.Pairwise fun first second => first.1 < second.1

theorem lookup_cons_eq_ite {first : String × α} :
    (first :: entries).lookup name =
      if name = first.1 then some first.2 else entries.lookup name := by
  rw [List.lookup_cons]
  split
  next same => rw [if_pos (beq_iff_eq.1 same)]
  next different => rw [if_neg (beq_eq_false_iff_ne.1 different)]

theorem lookup_eq_none : entries.lookup name = none ↔ name ∉ entries.map (·.1) := by
  rw [List.lookup_eq_none_iff, List.mem_map]
  constructor
  · rintro absent ⟨entry, member, rfl⟩
    exact bne_iff_ne.1 (absent entry member) rfl
  · intro absent entry member
    exact bne_iff_ne.2 fun same => absent ⟨entry, member, same.symm⟩

theorem Ascending.lookup_eq_some (ascending : Ascending entries) :
    entries.lookup name = some value ↔ (name, value) ∈ entries := by
  induction entries with
  | nil => simp
  | cons first rest ih =>
    obtain ⟨apart, ascending⟩ := List.pairwise_cons.1 ascending
    rw [lookup_cons_eq_ite, List.mem_cons]
    by_cases same : name = first.1
    · subst same
      have later : (first.1, value) ∉ rest := fun member =>
        lt_irrefl _ (apart (first.1, value) member)
      simp [later, Prod.ext_iff, eq_comm]
    · simp [same, ih ascending, Prod.ext_iff]

theorem Ascending.eq_of_lookups (ascending : Ascending entries)
    (expected : List (String × Option α)) (sorted : (expected.map (·.1)).Pairwise (· < ·))
    (inside : ∀ entry ∈ expected, entries.lookup entry.1 = entry.2)
    (outside : ∀ name ∉ expected.map (·.1), entries.lookup name = none) :
    entries = expected.filterMap fun entry => entry.2.map (entry.1, ·) := by
  have listed : Ascending (expected.filterMap fun entry => entry.2.map (entry.1, ·)) := by
    refine (List.pairwise_map.1 sorted).filterMap _ fun first second below one here two there => ?_
    obtain ⟨_, _, rfl⟩ := Option.map_eq_some_iff.1 here
    obtain ⟨_, _, rfl⟩ := Option.map_eq_some_iff.1 there
    exact below
  have distinct : ∀ {entries : List (String × α)}, Ascending entries → entries.Nodup :=
    fun ascending =>
      List.Pairwise.imp (fun below same => below.ne (congrArg Prod.fst same)) ascending
  refine List.Perm.eq_of_pairwise (fun first second _ _ below above =>
    absurd below above.not_gt) ascending listed
    ((List.perm_ext_iff_of_nodup (distinct ascending) (distinct listed)).2 fun entry => ?_)
  rw [List.mem_filterMap]
  constructor
  · intro member
    have found : entries.lookup entry.1 = some entry.2 := ascending.lookup_eq_some.2 member
    have known : entry.1 ∈ expected.map (·.1) := by
      by_contra absent
      simp [outside _ absent] at found
    obtain ⟨listed, there, same⟩ := List.mem_map.1 known
    refine ⟨listed, there, ?_⟩
    rw [← inside listed there, same, found]
    rfl
  · rintro ⟨listed, there, found⟩
    obtain ⟨value, here, rfl⟩ := Option.map_eq_some_iff.1 found
    exact ascending.lookup_eq_some.1 ((inside listed there).trans here)

/-! Insertion. -/

/-- Puts a value under a name at the name's place, or in place of the value that is there. -/
def insertEntry (name : String) (value : α) : List (String × α) → List (String × α)
  | [] => [(name, value)]
  | first :: rest =>
    if name < first.1 then (name, value) :: first :: rest
    else if name = first.1 then (name, value) :: rest
    else first :: insertEntry name value rest

theorem mem_insertEntry {entry : String × α} (member : entry ∈ insertEntry name value entries) :
    entry = (name, value) ∨ entry ∈ entries := by
  induction entries with
  | nil => simpa [insertEntry] using member
  | cons first rest ih =>
    rw [insertEntry] at member
    split at member
    · simpa using member
    split at member
    · exact (List.mem_cons.1 member).imp_right (List.mem_cons_of_mem _)
    · rcases List.mem_cons.1 member with rfl | later
      · simp
      · exact (ih later).imp_right (List.mem_cons_of_mem _)

theorem Ascending.insertEntry (ascending : Ascending entries) (name : String) (value : α) :
    Ascending (insertEntry name value entries) := by
  induction entries with
  | nil => exact List.pairwise_singleton _ _
  | cons first rest ih =>
    obtain ⟨apart, later⟩ := List.pairwise_cons.1 ascending
    rw [PolicyReview.insertEntry]
    split
    next below =>
      refine List.pairwise_cons.2 ⟨fun entry member => ?_, ascending⟩
      rcases List.mem_cons.1 member with rfl | there
      · exact below
      · exact below.trans (apart entry there)
    split
    next same => exact List.pairwise_cons.2 ⟨fun entry member => same ▸ apart entry member, later⟩
    next notBelow different =>
      refine List.pairwise_cons.2 ⟨fun entry member => ?_, ih later⟩
      rcases mem_insertEntry member with rfl | there
      · exact lt_of_le_of_ne (not_lt.1 notBelow) (Ne.symm different)
      · exact apart entry there

theorem lookup_insertEntry : (insertEntry name value entries).lookup other =
    if other = name then some value else entries.lookup other := by
  induction entries with
  | nil => exact lookup_cons_eq_ite
  | cons first rest ih =>
    rw [insertEntry]
    split
    · exact lookup_cons_eq_ite
    split
    next same =>
      subst same
      rw [lookup_cons_eq_ite, lookup_cons_eq_ite]
      split <;> rfl
    next different =>
      rw [lookup_cons_eq_ite, lookup_cons_eq_ite, ih]
      by_cases here : other = first.1
      · simp [here, Ne.symm different]
      · simp [here]

theorem mem_names_insertEntry : other ∈ (insertEntry name value entries).map (·.1) ↔
    other = name ∨ other ∈ entries.map (·.1) := by
  have absent : (insertEntry name value entries).lookup other = none ↔
      other ≠ name ∧ entries.lookup other = none := by
    rw [lookup_insertEntry]
    by_cases same : other = name <;> simp [same]
  rw [lookup_eq_none, lookup_eq_none, ← not_or] at absent
  exact not_iff_not.1 absent

theorem insertEntry_perm (absent : name ∉ entries.map (·.1)) :
    (insertEntry name value entries).Perm ((name, value) :: entries) := by
  induction entries with
  | nil => exact .refl _
  | cons first rest ih =>
    rw [List.map_cons, List.mem_cons, not_or] at absent
    rw [insertEntry, if_neg absent.1]
    split
    · exact .refl _
    · exact ((ih absent.2).cons first).trans (.swap _ _ _)

theorem insertEntry_above (above : ∀ entry ∈ entries, entry.1 < name) :
    insertEntry name value entries = entries ++ [(name, value)] := by
  induction entries with
  | nil => rfl
  | cons first rest ih =>
    obtain ⟨below, later⟩ := List.forall_mem_cons.1 above
    rw [insertEntry, if_neg below.not_gt, if_neg below.ne', ih later, List.cons_append]

theorem Ascending.foldl_insertEntry (ascending : Ascending entries) :
    entries.foldl (fun sorted entry => PolicyReview.insertEntry entry.1 entry.2 sorted) [] =
      entries := by
  induction entries using List.reverseRecOn with
  | nil => rfl
  | append_singleton before last ih =>
    obtain ⟨earlier, -, below⟩ := List.pairwise_append.1 ascending
    rw [List.foldl_append, ih earlier]
    exact insertEntry_above fun entry member => below entry member last List.mem_cons_self

end Entries

end PolicyReview
