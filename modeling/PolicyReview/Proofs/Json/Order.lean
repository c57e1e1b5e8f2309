import PolicyReview.Json
import PolicyReview.Proofs.Ascending
import Mathlib.Data.List.Induction

/-! Order of the fields of JSON objects. The fields of an object that was put together from entries
ascend, in whatever order these were. -/

namespace PolicyReview.Json

mutual

/-- The fields of all objects ascend. -/
def Ordered : Json → Prop
  | .array items => OrderedItems items
  | .object fields => Ascending fields ∧ OrderedFields fields
  | _ => True

def OrderedItems : List Json → Prop
  | [] => True
  | item :: rest => item.Ordered ∧ OrderedItems rest

def OrderedFields : Fields → Prop
  | [] => True
  | (_, value) :: rest => value.Ordered ∧ OrderedFields rest

end

theorem orderedItems_iff {items : List Json} :
    OrderedItems items ↔ ∀ item ∈ items, item.Ordered := by
  induction items with
  | nil => simp [OrderedItems]
  | cons item rest ih => simp [OrderedItems, ih]

theorem orderedFields_iff {fields : Fields} :
    OrderedFields fields ↔ ∀ field ∈ fields, field.2.Ordered := by
  induction fields with
  | nil => simp [OrderedFields]
  | cons field rest ih => simp [OrderedFields, ih]

variable {fields entries : Fields} {name : String} {value : Json}

theorem Ordered.of_lookup (ordered : (object fields).Ordered)
    (found : fields.lookup name = some value) : value.Ordered :=
  orderedFields_iff.1 ordered.2 (name, value) (ordered.1.lookup_eq_some.1 found)

theorem insertField_eq : insertField name value fields = insertEntry name value fields := by
  induction fields with
  | nil => rfl
  | cons first rest ih => rw [insertField, insertEntry, ih]

theorem fieldsOf_concat : fieldsOf (entries ++ [(name, value)]) =
    insertEntry name value (fieldsOf entries) := by
  rw [fieldsOf, List.foldl_append, ← insertField_eq]
  rfl

theorem fieldsOf_ascending (entries : Fields) : Ascending (fieldsOf entries) := by
  induction entries using List.reverseRecOn with
  | nil => exact List.Pairwise.nil
  | append_singleton before last ih => exact fieldsOf_concat ▸ ih.insertEntry last.1 last.2

/-- Of several entries of one name the last one counts. -/
theorem lookup_fieldsOf : (fieldsOf entries).lookup name = entries.reverse.lookup name := by
  induction entries using List.reverseRecOn with
  | nil => rfl
  | append_singleton before last ih =>
    rw [fieldsOf_concat, lookup_insertEntry, List.reverse_concat, lookup_cons_eq_ite, ih]

theorem fieldsOf_perm (distinct : (entries.map (·.1)).Nodup) :
    (fieldsOf entries).Perm entries := by
  induction entries using List.reverseRecOn with
  | nil => exact .refl _
  | append_singleton before last ih =>
    rw [List.map_append, List.map_singleton, List.nodup_append] at distinct
    have same := ih distinct.1
    have absent : last.1 ∉ (fieldsOf before).map (·.1) := fun member =>
      distinct.2.2 last.1 ((same.map (·.1)).mem_iff.1 member) last.1 (by simp) rfl
    calc List.Perm (fieldsOf (before ++ [last]))
          (insertEntry last.1 last.2 (fieldsOf before)) := .of_eq fieldsOf_concat
      List.Perm _ (last :: fieldsOf before) := insertEntry_perm absent
      List.Perm _ (last :: before) := same.cons last
      List.Perm _ (before ++ [last]) := (List.perm_append_singleton last before).symm

theorem fieldsOf_eq_self (ascending : Ascending entries) : fieldsOf entries = entries := by
  simp only [fieldsOf, insertField_eq]
  exact ascending.foldl_insertEntry

theorem mem_fieldsOf {field : String × Json} (member : field ∈ fieldsOf entries) :
    field ∈ entries := by
  have found := (fieldsOf_ascending entries).lookup_eq_some.2 member
  rw [lookup_fieldsOf] at found
  exact List.mem_reverse.1 (mem_of_lookup found)

theorem ofEntries_ordered (each : ∀ entry ∈ entries, entry.2.Ordered) :
    (ofEntries entries).Ordered :=
  ⟨fieldsOf_ascending entries,
    orderedFields_iff.2 fun field member => each field (mem_fieldsOf member)⟩

end PolicyReview.Json
