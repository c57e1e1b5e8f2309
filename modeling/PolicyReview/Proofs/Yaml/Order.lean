import PolicyReview.Proofs.Json.Order
import PolicyReview.Yaml.Value

/-! Order of the values of YAML documents. However a mapping lists its entries, the fields of the
object that it stands for ascend. -/

namespace PolicyReview.Yaml

section Scalars

variable {text : String} {value : Json}

theorem floatOf?_ordered {cs : List Char} (read : floatOf? cs = some value) : value.Ordered := by
  unfold floatOf? at read
  split at read
  · cases read
    trivial
  · obtain ⟨_, _, rfl⟩ := Option.map_eq_some_iff.1 read
    trivial

theorem plainValue?_ordered (read : plainValue? text = some value) : value.Ordered := by
  unfold plainValue? at read
  split at read
  · cases read
    trivial
  split at read
  · cases read
    trivial
  dsimp only at read
  split at read
  · cases read
    trivial
  · cases read
  split at read
  · cases read
    trivial
  · cases number : floatOf? text.toList with
    | none =>
      obtain rfl : .string text = value := by simpa [number] using read
      trivial
    | some other =>
      obtain rfl : other = value := by simpa [number] using read
      exact floatOf?_ordered number

theorem taggedValue?_ordered {tag : String} (read : taggedValue? tag text = some value) :
    value.Ordered := by
  unfold taggedValue? at read
  split at read
  · obtain ⟨_, _, rfl⟩ := Option.map_eq_some_iff.1 read
    trivial
  · split at read <;> cases read
    trivial
  · exact floatOf?_ordered read
  · split at read <;> cases read
    trivial
  · cases read
    trivial

end Scalars

namespace Evaluate

variable {α β : Type} {step : Evaluate α} {next : α → Evaluate β} {holds : α → Prop}
  {after : β → Prop}

/-- What the step yields has the property, however many aliases it may follow. -/
def Yields (step : Evaluate α) (holds : α → Prop) : Prop :=
  ∀ jumps result rest, step.run jumps = some (result, rest) → holds result

theorem yields_pure {result : α} (true : holds result) : Yields (pure result) holds := by
  rintro jumps _ rest ⟨⟩
  exact true

theorem yields_failure : Yields failure holds := by
  rintro jumps _ rest ⟨⟩

theorem yields_bind (first : Yields step holds)
    (later : ∀ result, holds result → Yields (next result) after) :
    Yields (step >>= next) after := by
  intro jumps result rest ran
  rw [StateT.run_bind] at ran
  obtain ⟨⟨middle, left⟩, here, there⟩ := Option.bind_eq_some_iff.1 ran
  exact later middle (first jumps middle left here) left result rest there

theorem yields_after (later : ∀ result, Yields (next result) after) :
    Yields (step >>= next) after := by
  have any : Yields step fun _ => True := fun _ _ _ _ => trivial
  exact yields_bind any fun result _ => later result

theorem yields_lift {read : Option α} (each : ∀ result, read = some result → holds result) :
    Yields (StateT.lift read) holds := by
  intro jumps result rest ran
  obtain ⟨value, here, same⟩ := Option.bind_eq_some_iff.1 ran
  cases same
  exact each _ here

theorem scalar_ordered (tag : Option String) (plain : Bool) (text : String) :
    Yields (scalar tag plain text) Json.Ordered := by
  unfold scalar
  split
  · exact yields_lift fun _ => taggedValue?_ordered
  split
  · exact yields_lift fun _ => plainValue?_ordered
  · exact yields_pure trivial

theorem items_ordered {value : Node → Evaluate Json}
    (each : ∀ node, Yields (value node) Json.Ordered) (nodes : List Node) :
    ∀ {read : List Json}, (∀ item ∈ read, item.Ordered) →
      Yields (items value nodes read) fun items => ∀ item ∈ items, item.Ordered := by
  induction nodes with
  | nil =>
    exact fun ordered => yields_pure fun item member => ordered item (List.mem_reverse.1 member)
  | cons node rest ih =>
    intro read ordered
    refine yields_bind (each node) fun item here => ih fun other member => ?_
    rcases List.mem_cons.1 member with rfl | there
    · exact here
    · exact ordered other there

theorem fields_ordered {key : Node → Evaluate String} {value : Node → Evaluate Json}
    (each : ∀ node, Yields (value node) Json.Ordered) (entries : List (Node × Node)) :
    ∀ {read : Json.Fields}, (∀ entry ∈ read, entry.2.Ordered) →
      Yields (fields key value entries read) fun entries => ∀ entry ∈ entries, entry.2.Ordered := by
  induction entries with
  | nil =>
    exact fun ordered => yields_pure fun item member => ordered item (List.mem_reverse.1 member)
  | cons entry rest ih =>
    intro read ordered
    refine yields_after fun name => yields_bind (each entry.2) fun member here =>
      ih fun other inside => ?_
    rcases List.mem_cons.1 inside with rfl | there
    · exact here
    · exact ordered other there

theorem value_ordered (anchors : Anchors) (depth : Nat) (node : Node) :
    Yields (value anchors depth node) Json.Ordered := by
  induction depth generalizing node with
  | zero =>
    refine yields_after fun target => ?_
    split
    · exact yields_after fun _ => scalar_ordered _ _ _
    · exact yields_failure
  | succ depth ih =>
    refine yields_after fun target => ?_
    split
    · exact yields_after fun _ => scalar_ordered _ _ _
    · refine yields_after fun _ => yields_bind (items_ordered ih _ (by simp)) fun items each => ?_
      exact yields_pure (Json.orderedItems_iff.2 each)
    · refine yields_after fun _ => yields_bind (fields_ordered ih _ (by simp)) fun fields each => ?_
      exact yields_pure (Json.ofEntries_ordered each)
    · exact yields_failure

end Evaluate

theorem mem_upToFault {value? : Option Json} {all : List (Option Json)}
    (member : value? ∈ values.upToFault all) : value? ∈ all := by
  induction all using values.upToFault.induct with
  | case1 => exact member
  | case2 rest =>
    rw [values.upToFault, List.mem_singleton] at member
    exact member ▸ .head _
  | case3 value rest ih =>
    rw [values.upToFault] at member
    rcases List.mem_cons.1 member with rfl | later
    · exact .head _
    · exact .tail _ (ih later)

theorem Entry.value?_ofDocument {read : Option Document} {value : Json}
    (same : (ofDocument read).value? = some value) :
    ∃ source, read = some source ∧ source.value? = some value := by
  cases read with
  | none => cases same
  | some source =>
    rw [ofDocument] at same
    cases found : source.value? with
    | none =>
      rw [found] at same
      cases same
    | some other =>
      rw [found] at same
      exact ⟨source, rfl, found.trans same⟩

/-- The fields of every object in a document of a text ascend. -/
theorem values_ordered {text : String} {document : Json} (member : some document ∈ values text) :
    document.Ordered := by
  obtain ⟨entry, inside, read⟩ := List.mem_map.1 (mem_upToFault member)
  obtain ⟨source, -, rfl⟩ := List.mem_map.1 inside
  obtain ⟨source, rfl, evaluated⟩ := Entry.value?_ofDocument read
  obtain ⟨⟨value, left⟩, ran, rfl⟩ := Option.map_eq_some_iff.1 evaluated
  exact Evaluate.value_ordered source.anchors maxDepth source.root _ value left ran

end PolicyReview.Yaml
