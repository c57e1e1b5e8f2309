import PolicyReview.Proofs.Json.Order
import PolicyReview.Proofs.Json.Quoted

/-! Values that read back. Where the items of an array, or the values of the fields of an object,
read back from what is written for them, so does the whole, one level deeper. -/

namespace PolicyReview.Json

variable {c : Char} {cs rest : List Char} {fuel depth : Nat} {value : Json} {items : List Json}
  {fields : Fields}

/-- A character at which a value can begin. -/
structure IsVisible (c : Char) : Prop where
  notBlank : isBlank c = false
  notClosing : c ≠ ']'

theorem skipBlanks_cons (visible : isBlank c = false) (cs : List Char) :
    skipBlanks (c :: cs) = c :: cs :=
  List.dropWhile_cons_of_neg (by simp [visible])

/-- What is written for the value is read as the value, whatever follows it, where arrays and
objects may nest this deep. -/
structure ReadsBack (depth : Nat) (value : Json) : Prop where
  begins : ∃ c cs, value.chars = c :: cs ∧ IsVisible c
  reads : ∀ {fuel : Nat} {rest : List Char}, value.chars.length ≤ fuel →
    readValue? fuel depth (value.chars ++ rest) = some (value, rest)

/-! Opening marks. -/

theorem readValue?_quoted {text : String}
    (read : readString? (cs.length + 1) [] cs = some (text, rest)) :
    readValue? (fuel + 1) depth ('\x22' :: cs) = some (.string text, rest) := by
  rw [readValue?]
  simp only [skipBlanks_cons (c := '\x22') rfl, read]

theorem readValue?_openBracket (visible : IsVisible c) (cs : List Char) :
    readValue? (fuel + 1) (depth + 1) ('[' :: c :: cs) = readItems? fuel depth [] (c :: cs) := by
  rw [readValue?]
  simp only [skipBlanks_cons (c := '[') rfl, skipBlanks_cons visible.notBlank]
  split
  next same => exact absurd (List.cons.inj same).1 visible.notClosing
  next => rfl

theorem readValue?_openBrace (cs : List Char) :
    readValue? (fuel + 1) (depth + 1) ('{' :: '\x22' :: cs) =
      readMembers? fuel depth [] ('\x22' :: cs) := rfl

/-! Texts. -/

theorem readString?_quote (text : String) (rest : List Char) :
    readString? ((text.toList.flatMap escape ++ '\x22' :: rest).length + 1) []
      (text.toList.flatMap escape ++ '\x22' :: rest) = some (text, rest) := by
  have enough := length_le_escape text.toList
  rw [readString?_text (by rw [List.length_append]; omega)]
  simp

theorem quote_append (text : String) (rest : List Char) :
    quote text ++ rest = '\x22' :: (text.toList.flatMap escape ++ '\x22' :: rest) := by
  simp [quote]

/-- Quoted texts are told apart, whatever follows them. -/
theorem quote_append_inj {text other : String} {rest' : List Char}
    (same : quote text ++ rest = quote other ++ rest') : text = other ∧ rest = rest' := by
  rw [quote_append, quote_append] at same
  have read := readString?_quote text rest
  rw [(List.cons.inj same).2, readString?_quote other rest', Option.some.injEq,
    Prod.mk.injEq] at read
  exact ⟨read.1.symm, read.2.symm⟩

theorem readsBack_string (depth : Nat) (text : String) : ReadsBack depth (.string text) := by
  refine ⟨⟨'\x22', _, rfl, ⟨rfl, by decide⟩⟩, fun {fuel rest} enough => ?_⟩
  cases fuel with
  | zero => cases enough
  | succ fuel =>
    change readValue? (fuel + 1) depth (quote text ++ rest) = _
    rw [quote_append, readValue?_quoted (readString?_quote text rest)]

/-! Arrays. -/

theorem readItems?_last {read : List Json} {item : Json}
    (value : readValue? fuel depth cs = some (item, ']' :: rest)) :
    readItems? (fuel + 1) depth read cs = some (.array (item :: read).reverse, rest) := by
  rw [readItems?, value]
  rfl

theorem readItems?_comma {read : List Json} {item : Json}
    (value : readValue? fuel depth cs = some (item, ',' :: rest)) :
    readItems? (fuel + 1) depth read cs = readItems? fuel depth (item :: read) rest := by
  rw [readItems?, value]
  rfl

theorem readItems?_chars (read : List Json) (rest : List Char) (filled : items ≠ [])
    (each : ∀ item ∈ items, ReadsBack depth item) (enough : (itemChars items).length < fuel) :
    readItems? fuel depth read (itemChars items ++ ']' :: rest) =
      some (.array (read.reverse ++ items), rest) := by
  induction items generalizing fuel read with
  | nil => exact absurd rfl filled
  | cons item later ih =>
    obtain ⟨here, others⟩ := List.forall_mem_cons.1 each
    obtain ⟨fuel, rfl⟩ := Nat.exists_eq_add_one_of_ne_zero (Nat.ne_zero_of_lt enough)
    cases later with
    | nil =>
      change readItems? (fuel + 1) depth read (item.chars ++ ']' :: rest) = _
      rw [readItems?_last (here.reads (Nat.le_of_lt_succ enough)), List.reverse_cons]
    | cons next later =>
      have whole : itemChars (item :: next :: later) ++ ']' :: rest =
          item.chars ++ ',' :: (itemChars (next :: later) ++ ']' :: rest) :=
        List.append_assoc _ _ _
      have length : (itemChars (item :: next :: later)).length =
          item.chars.length + ((itemChars (next :: later)).length + 1) := List.length_append
      rw [whole, readItems?_comma (here.reads (by omega)),
        ih _ (List.cons_ne_nil _ _) others (by omega), List.reverse_cons, List.append_assoc]
      rfl

theorem readsBack_array (each : ∀ item ∈ items, ReadsBack depth item) :
    ReadsBack (depth + 1) (.array items) := by
  refine ⟨⟨'[', _, rfl, ⟨rfl, by decide⟩⟩, fun {fuel rest} enough => ?_⟩
  have whole : (Json.array items).chars ++ rest = '[' :: (itemChars items ++ ']' :: rest) := by
    simp [chars]
  have length : (Json.array items).chars.length = (itemChars items).length + 2 := by
    simp [chars]
  obtain ⟨fuel, rfl⟩ := Nat.exists_eq_add_of_le' (length ▸ enough)
  rw [whole]
  cases items with
  | nil => rfl
  | cons item later =>
    obtain ⟨c, cs, written, visible⟩ := (each item List.mem_cons_self).begins
    obtain ⟨more, begins⟩ : ∃ more, itemChars (item :: later) ++ ']' :: rest = c :: more := by
      cases later with
      | nil => exact ⟨cs ++ ']' :: rest, by rw [itemChars, written]; rfl⟩
      | cons next later =>
        refine ⟨cs ++ ',' :: itemChars (next :: later) ++ ']' :: rest, ?_⟩
        change item.chars ++ ',' :: itemChars (next :: later) ++ _ = _
        rw [written]
        rfl
    have read := readItems?_chars [] rest (List.cons_ne_nil item later) each
      (Nat.lt_add_left fuel (Nat.lt_add_one _))
    rw [begins] at read ⊢
    exact (readValue?_openBracket visible more).trans read

/-! Objects. -/

theorem readMembers?_last {read : Fields} {value : Json} (name : String)
    (given : readValue? fuel depth cs = some (value, '}' :: rest)) :
    readMembers? (fuel + 1) depth read (quote name ++ ':' :: cs) =
      some (.object (insertField name value read), rest) := by
  rw [quote_append, readMembers?]
  simp only [skipBlanks_cons (c := '\x22') rfl, readString?_quote, skipBlanks_cons (c := ':') rfl,
    given, skipBlanks_cons (c := '}') rfl]

theorem readMembers?_comma {read : Fields} {value : Json} (name : String)
    (given : readValue? fuel depth cs = some (value, ',' :: rest)) :
    readMembers? (fuel + 1) depth read (quote name ++ ':' :: cs) =
      readMembers? fuel depth (insertField name value read) rest := by
  rw [quote_append, readMembers?]
  simp only [skipBlanks_cons (c := '\x22') rfl, readString?_quote, skipBlanks_cons (c := ':') rfl,
    given, skipBlanks_cons (c := ',') rfl]

theorem readMembers?_chars (read : Fields) (rest : List Char) (filled : fields ≠ [])
    (each : ∀ field ∈ fields, ReadsBack depth field.2)
    (enough : (fieldChars fields).length < fuel) :
    readMembers? fuel depth read (fieldChars fields ++ '}' :: rest) =
      some (.object (fields.foldl (fun read field => insertField field.1 field.2 read) read),
        rest) := by
  induction fields generalizing fuel read with
  | nil => exact absurd rfl filled
  | cons field later ih =>
    obtain ⟨name, value⟩ := field
    obtain ⟨here, others⟩ := List.forall_mem_cons.1 each
    obtain ⟨fuel, rfl⟩ := Nat.exists_eq_add_one_of_ne_zero (Nat.ne_zero_of_lt enough)
    cases later with
    | nil =>
      have whole : fieldChars [(name, value)] ++ '}' :: rest =
          quote name ++ ':' :: (value.chars ++ '}' :: rest) := List.append_assoc _ _ _
      have length : (fieldChars [(name, value)]).length =
          (quote name).length + (value.chars.length + 1) := List.length_append
      rw [whole, readMembers?_last name (here.reads (by dsimp only; omega))]
      rfl
    | cons next later =>
      have whole : fieldChars ((name, value) :: next :: later) ++ '}' :: rest =
          quote name ++ ':' ::
            (value.chars ++ ',' :: (fieldChars (next :: later) ++ '}' :: rest)) := by
        simp [fieldChars]
      have length : (fieldChars ((name, value) :: next :: later)).length =
          (quote name).length +
            (value.chars.length + ((fieldChars (next :: later)).length + 1) + 1) := by
        simp [fieldChars]
      rw [whole, readMembers?_comma name (here.reads (by dsimp only; omega))]
      exact ih _ (List.cons_ne_nil _ _) others (by omega)

theorem readsBack_object (ascending : Ascending fields)
    (each : ∀ field ∈ fields, ReadsBack depth field.2) :
    ReadsBack (depth + 1) (.object fields) := by
  refine ⟨⟨'{', _, rfl, ⟨rfl, by decide⟩⟩, fun {fuel rest} enough => ?_⟩
  have whole : (Json.object fields).chars ++ rest = '{' :: (fieldChars fields ++ '}' :: rest) := by
    simp [chars]
  have length : (Json.object fields).chars.length = (fieldChars fields).length + 2 := by
    simp [chars]
  obtain ⟨fuel, rfl⟩ := Nat.exists_eq_add_of_le' (length ▸ enough)
  rw [whole]
  cases fields with
  | nil => rfl
  | cons field later =>
    have begins : ∃ more, fieldChars (field :: later) ++ '}' :: rest = '\x22' :: more := by
      cases later with
      | nil => exact ⟨_, rfl⟩
      | cons next later => exact ⟨_, rfl⟩
    have read := readMembers?_chars [] rest (List.cons_ne_nil field later) each
      (Nat.lt_add_left fuel (Nat.lt_add_one _))
    have same : (field :: later).foldl (fun read field => insertField field.1 field.2 read) [] =
        field :: later := fieldsOf_eq_self ascending
    obtain ⟨more, begins⟩ := begins
    rw [same] at read
    rw [begins] at read ⊢
    exact (readValue?_openBrace more).trans read

/-! Whole texts. -/

theorem ReadsBack.read?_render (back : ReadsBack maxDepth value) :
    read? value.render = some value := by
  have whole : readValue? (2 * value.chars.length + 2) maxDepth (value.chars ++ []) =
      some (value, []) := back.reads (by omega)
  rw [List.append_nil] at whole
  rw [read?, render, String.toList_ofList, whole]
  rfl

end PolicyReview.Json
