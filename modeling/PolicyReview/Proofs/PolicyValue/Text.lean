import PolicyReview.Proofs.Json.ReadBack
import PolicyReview.Proofs.Number.Text
import PolicyReview.Proofs.PolicyValue.Decoding

/-! Texts of policy values. The text of a value is that of its JSON, and tells the value: where two values
are written alike, each part of the one is equal to the part of the other, up to binary numbers that
have one text. So the keys of a map are read in the order in which they were written, and no integer
is taken for a binary number. -/

namespace PolicyReview.PolicyValue

variable {value other : PolicyValue} {items : List PolicyValue} {entries : PolicyMap}
  {close : Char} {rest rest' : List Char}

/-! The text of the JSON value. -/

mutual

theorem chars_toJson : ∀ value : PolicyValue, value.toJson.chars = value.chars
  | .list items => by rw [toJson, Json.chars, itemChars_itemsToJson items, chars]
  | .map entries => by rw [toJson, Json.chars, fieldChars_mapToJson entries, chars]
  | .bool true | .bool false | .null | .number _ | .string _ => rfl

theorem itemChars_itemsToJson :
    ∀ items : List PolicyValue, Json.itemChars (itemsToJson items) = itemChars items
  | [] => rfl
  | [item] => chars_toJson item
  | item :: next :: rest => by
    change item.toJson.chars ++ ',' :: Json.itemChars (itemsToJson (next :: rest)) =
      item.chars ++ ',' :: itemChars (next :: rest)
    rw [chars_toJson item, itemChars_itemsToJson (next :: rest)]

theorem fieldChars_mapToJson :
    ∀ entries : PolicyMap, Json.fieldChars (mapToJson entries) = entryChars entries
  | [] => rfl
  | [(key, value)] => congrArg (Json.quote key ++ ':' :: ·) (chars_toJson value)
  | (key, value) :: next :: rest => by
    change Json.quote key ++ ':' :: value.toJson.chars ++
      ',' :: Json.fieldChars (mapToJson (next :: rest)) =
        Json.quote key ++ ':' :: value.chars ++ ',' :: entryChars (next :: rest)
    rw [chars_toJson value, fieldChars_mapToJson (next :: rest)]

end

theorem render_toJson (value : PolicyValue) : value.toJson.render = value.render := by
  rw [render, Json.render, chars_toJson]

/-! Parts between commas. -/

def entryText (entry : String × PolicyValue) : List Char :=
  Json.quote entry.1 ++ ':' :: entry.2.chars

theorem itemChars_eq (items : List PolicyValue) :
    itemChars items = [','].intercalate (items.map chars) := by
  induction items with
  | nil => rfl
  | cons item rest ih =>
    cases rest with
    | nil => exact List.intercalate_singleton.symm
    | cons next rest =>
      change item.chars ++ ',' :: itemChars (next :: rest) = _
      rw [ih]
      simp

theorem entryChars_eq (entries : PolicyMap) :
    entryChars entries = [','].intercalate (entries.map entryText) := by
  induction entries with
  | nil => rfl
  | cons entry rest ih =>
    cases rest with
    | nil => exact List.intercalate_singleton.symm
    | cons next rest =>
      change entryText entry ++ ',' :: entryChars (next :: rest) = _
      rw [ih]
      simp

/-- What stands after a part: the mark that closes the whole, or a comma and the other parts. -/
def afterPart (close : Char) (rest : List Char) : List (List Char) → List Char
  | [] => close :: rest
  | part :: parts => ',' :: ([','].intercalate (part :: parts) ++ close :: rest)

theorem intercalate_cons_append (close : Char) (rest part : List Char) (parts : List (List Char)) :
    [','].intercalate (part :: parts) ++ close :: rest = part ++ afterPart close rest parts := by
  cases parts <;> simp [afterPart]

theorem ends_afterPart (closes : Number.isTextChar close = false) (rest : List Char)
    (parts : List (List Char)) : Number.Ends (afterPart close rest parts) := by
  intro c first
  cases parts with
  | nil =>
    obtain rfl := Option.some.inj first
    exact closes
  | cons part parts =>
    obtain rfl := Option.some.inj first
    rfl

theorem afterPart_inj {parts others : List (List Char)} (mark : close ≠ ',')
    (same : afterPart close rest parts = afterPart close rest' others) :
    [','].intercalate parts ++ close :: rest = [','].intercalate others ++ close :: rest' := by
  cases parts with
  | nil =>
    cases others with
    | nil => exact same
    | cons other others => exact absurd (List.cons.inj same).1 mark
  | cons part parts =>
    cases others with
    | nil => exact absurd (List.cons.inj same).1.symm mark
    | cons other others => exact (List.cons.inj same).2

/-! What a text tells. -/

section Parts

variable {α : Type} {write : α → List Char} {Same : α → α → Prop}

/-- Wherever it ends, what is written for the part tells the part from others and from what
follows it. -/
def Tells (write : α → List Char) (Same : α → α → Prop) (part : α) : Prop :=
  ∀ {other : α} {rest rest' : List Char}, Number.Ends rest → Number.Ends rest' →
    write part ++ rest = write other ++ rest' → Same part other ∧ rest = rest'

theorem tells_parts {parts others : List α} (closes : Number.isTextChar close = false)
    (mark : close ≠ ',') (opens : ∀ part, ∃ c cs, write part = c :: cs ∧ c ≠ close)
    (each : ∀ part ∈ parts, Tells write Same part)
    (same : [','].intercalate (parts.map write) ++ close :: rest =
      [','].intercalate (others.map write) ++ close :: rest') :
    List.Forall₂ Same parts others ∧ rest = rest' := by
  have filled (part : α) (parts : List α) (rest rest' : List Char) :
      close :: rest ≠ [','].intercalate ((part :: parts).map write) ++ close :: rest' := by
    obtain ⟨c, cs, begins, different⟩ := opens part
    rw [List.map_cons, intercalate_cons_append, begins]
    exact fun same => different (List.cons.inj same).1.symm
  induction parts generalizing others with
  | nil =>
    cases others with
    | nil => exact ⟨.nil, (List.cons.inj same).2⟩
    | cons other others => exact absurd same (filled other others rest rest')
  | cons part parts ih =>
    obtain ⟨here, later⟩ := List.forall_mem_cons.1 each
    cases others with
    | nil => exact absurd same.symm (filled part parts rest' rest)
    | cons other others =>
      rw [List.map_cons, List.map_cons, intercalate_cons_append, intercalate_cons_append] at same
      obtain ⟨alike, same⟩ := here (ends_afterPart closes _ _) (ends_afterPart closes _ _) same
      obtain ⟨alikes, same⟩ := ih later (afterPart_inj mark same)
      exact ⟨.cons alike alikes, same⟩

end Parts

/-- The kind of the values whose text begins with the character. -/
def Kind.ofFirst? (c : Char) : Option Kind :=
  if c = 'n' then some .null
  else if c = 't' ∨ c = 'f' then some .bool
  else if c = '\x22' then some .string
  else if c = '[' then some .list
  else if c = '{' then some .map
  else if Number.isTextChar c then some .number
  else none

theorem Kind.ofFirst?_number {c : Char} (fit : Number.isTextChar c = true) :
    ofFirst? c = some .number := by
  have apart {d : Char} (unfit : Number.isTextChar d = false) : c ≠ d := by
    rintro rfl
    rw [unfit] at fit
    cases fit
  rw [ofFirst?, if_neg (apart rfl), if_neg (not_or.2 ⟨apart rfl, apart rfl⟩), if_neg (apart rfl),
    if_neg (apart rfl), if_neg (apart rfl), if_pos fit]

theorem exists_first (value : PolicyValue) :
    ∃ c cs, value.chars = c :: cs ∧ Kind.ofFirst? c = some value.kind := by
  cases value with
  | null | string | list | map => exact ⟨_, _, rfl, rfl⟩
  | bool b => cases b <;> exact ⟨_, _, rfl, rfl⟩
  | number n =>
    obtain ⟨c, cs, written⟩ := List.exists_cons_of_ne_nil n.text_ne_nil
    have fit : Number.isTextChar c = true := n.isText_text c (written ▸ List.mem_cons_self)
    exact ⟨c, cs, written, Kind.ofFirst?_number fit⟩

theorem kind_of_chars (same : value.chars ++ rest = other.chars ++ rest') :
    value.kind = other.kind := by
  obtain ⟨c, cs, begins, kind⟩ := value.exists_first
  obtain ⟨d, ds, begins', kind'⟩ := other.exists_first
  rw [begins, begins'] at same
  obtain rfl : c = d := (List.cons.inj same).1
  exact Option.some.inj (kind.symm.trans kind')

/-- The values are equal up to binary numbers that have one text. -/
inductive Alike : PolicyValue → PolicyValue → Prop where
  | null : Alike .null .null
  | bool (value : Bool) : Alike (.bool value) (.bool value)
  | number {number other : Number} (alike : Number.Alike number other) :
    Alike (.number number) (.number other)
  | string (text : String) : Alike (.string text) (.string text)
  | list {items others : List PolicyValue} (each : List.Forall₂ Alike items others) :
    Alike (.list items) (.list others)
  | map {entries others : PolicyMap} (keys : entries.map (·.1) = others.map (·.1))
    (each : List.Forall₂ Alike (entries.map (·.2)) (others.map (·.2))) :
    Alike (.map entries) (.map others)

abbrev IsTold : PolicyValue → Prop := Tells chars Alike

theorem isTold_null : IsTold .null := by
  intro other rest rest' _ _ same
  have kinds := kind_of_chars same
  cases other with
  | null => exact ⟨.null, List.append_cancel_left same⟩
  | _ => cases kinds

theorem isTold_bool (b : Bool) : IsTold (.bool b) := by
  intro other rest rest' _ _ same
  have kinds := kind_of_chars same
  cases other with
  | bool d =>
    have equal : b = d := by
      cases b with
      | false =>
        cases d with
        | false => rfl
        | true => cases (List.cons.inj same).1
      | true =>
        cases d with
        | false => cases (List.cons.inj same).1
        | true => rfl
    subst equal
    exact ⟨.bool b, List.append_cancel_left same⟩
  | _ => cases kinds

theorem isTold_number (number : Number) : IsTold (.number number) := by
  intro other rest rest' ends ends' same
  have kinds := kind_of_chars same
  cases other with
  | number n =>
    obtain ⟨texts, rests⟩ := Number.text_append_inj ends ends' same
    exact ⟨.number (Number.alike_of_text texts), rests⟩
  | _ => cases kinds

theorem isTold_string (text : String) : IsTold (.string text) := by
  intro other rest rest' _ _ same
  have kinds := kind_of_chars same
  cases other with
  | string t =>
    obtain ⟨rfl, rests⟩ := Json.quote_append_inj same
    exact ⟨.string text, rests⟩
  | _ => cases kinds

theorem opens_chars (value : PolicyValue) : ∃ c cs, value.chars = c :: cs ∧ c ≠ ']' := by
  obtain ⟨c, cs, begins, kind⟩ := value.exists_first
  refine ⟨c, cs, begins, ?_⟩
  rintro rfl
  cases kind

theorem isTold_list (each : ∀ item ∈ items, IsTold item) : IsTold (.list items) := by
  intro other rest rest' _ _ same
  have kinds := kind_of_chars same
  cases other with
  | list others =>
    have inner : itemChars items ++ ']' :: rest = itemChars others ++ ']' :: rest' := by
      simpa [chars] using same
    rw [itemChars_eq, itemChars_eq] at inner
    obtain ⟨alike, rests⟩ := tells_parts rfl (by decide) opens_chars each inner
    exact ⟨.list alike, rests⟩
  | _ => cases kinds

/-- The entries have one key, and values that are alike. -/
def AlikeEntries (entry other : String × PolicyValue) : Prop :=
  entry.1 = other.1 ∧ Alike entry.2 other.2

theorem tells_entry {entry : String × PolicyValue} (told : IsTold entry.2) :
    Tells entryText AlikeEntries entry := by
  intro other rest rest' ends ends' same
  simp only [entryText, List.append_assoc, List.cons_append] at same
  obtain ⟨keys, same⟩ := Json.quote_append_inj same
  obtain ⟨alike, rests⟩ := told ends ends' (List.cons.inj same).2
  exact ⟨⟨keys, alike⟩, rests⟩

theorem Alike.of_entries {others : PolicyMap} (each : List.Forall₂ AlikeEntries entries others) :
    Alike (.map entries) (.map others) := by
  constructor
  · rw [← List.forall₂_eq_eq_eq, List.forall₂_map_left_iff, List.forall₂_map_right_iff]
    exact each.imp fun _ _ alike => alike.1
  · rw [List.forall₂_map_left_iff, List.forall₂_map_right_iff]
    exact each.imp fun _ _ alike => alike.2

theorem isTold_map (each : ∀ entry ∈ entries, IsTold entry.2) : IsTold (.map entries) := by
  intro other rest rest' _ _ same
  have kinds := kind_of_chars same
  cases other with
  | map others =>
    have inner : entryChars entries ++ '}' :: rest = entryChars others ++ '}' :: rest' := by
      simpa [chars] using same
    rw [entryChars_eq, entryChars_eq] at inner
    obtain ⟨alike, rests⟩ := tells_parts rfl (by decide)
      (fun entry => ⟨'\x22', _, rfl, by decide⟩)
      (fun entry member => tells_entry (each entry member)) inner
    exact ⟨.of_entries alike, rests⟩
  | _ => cases kinds

theorem isTold (value : PolicyValue) : IsTold value := by
  induction value using inductionOn with
  | null => exact isTold_null
  | bool b => exact isTold_bool b
  | number n => exact isTold_number n
  | string text => exact isTold_string text
  | list items each => exact isTold_list each
  | map entries each => exact isTold_map each

theorem alike_of_render (same : value.render = other.render) : Alike value other := by
  have whole : value.chars ++ [] = other.chars ++ [] := by
    rw [List.append_nil, List.append_nil]
    exact String.ofList_injective same
  exact (value.isTold Number.ends_nil Number.ends_nil whole).1

end PolicyReview.PolicyValue
