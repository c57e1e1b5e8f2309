import PolicyReview.WorkerCounts
import PolicyReview.Proofs.Rules
import PolicyReview.Proofs.Text.Line
import PolicyReview.Proofs.Text.Numeral
import Mathlib.Data.List.Sort

/-! Lists of worker counts. What an entry denotes is said apart from how it is read, and the counts of
a text are those that its entries denote, whatever the order of the entries. A text with an entry
that denotes none is refused for the first such entry. -/

namespace PolicyReview.WorkerCounts

open Text (IsDecimal trimChars)

variable {cs entry : List Char} {n m : Nat} {counts values : List Nat} {fault : Fault}
  {text : String}

/-! Numbers. -/

inductive IsNumeral (n : Nat) : List Char → Prop where
  | plain {cs : List Char} (decimal : IsDecimal cs n) : IsNumeral n cs
  | plus {cs : List Char} (decimal : IsDecimal cs n) : IsNumeral n ('+' :: cs)

theorem isNumeral_iff : IsNumeral n cs ↔ IsDecimal (digits cs) n := by
  constructor
  · intro numeral
    cases numeral with
    | plus decimal => exact decimal
    | plain decimal =>
      have unsigned : ∀ rest, cs ≠ '+' :: rest := by
        rintro rest rfl
        have digit := (Text.isDecimal_iff.1 decimal).2.1 '+' List.mem_cons_self
        exact absurd digit (by decide)
      rwa [digits]
      exact unsigned
  · intro decimal
    unfold digits at decimal
    split at decimal
    · exact .plus decimal
    · exact .plain decimal

theorem IsNumeral.ne_nil (numeral : IsNumeral n cs) : cs ≠ [] := by
  cases numeral with
  | plain decimal => exact (Text.isDecimal_iff.1 decimal).1
  | plus => exact List.cons_ne_nil _ _

theorem word?_eq_some : word? cs = some n ↔ IsNumeral n cs ∧ n < 2 ^ 64 := by
  rw [isNumeral_iff, Text.isDecimal_iff, word?, ← List.all_eq_true]
  generalize digits cs = ds
  change (if ds ≠ [] ∧ ds.all Char.isDigit then
    if Nat.ofDigitChars 10 ds 0 < 2 ^ 64 then some (Nat.ofDigitChars 10 ds 0) else none
    else none) = some n ↔ _
  split
  next spelt =>
    split
    next fits => grind
    next large => grind
  next other => grind

theorem word?_eq_none : word? cs = none ↔ ∀ n < 2 ^ 64, ¬IsNumeral n cs := by
  rw [Option.eq_none_iff_forall_ne_some]
  constructor
  · intro unread n fits numeral
    exact unread n (word?_eq_some.2 ⟨numeral, fits⟩)
  · intro unread n read
    obtain ⟨numeral, fits⟩ := word?_eq_some.1 read
    exact unread n fits numeral

/-! Entries. -/

/-- The entry is the numeral of a count, a positive number of at most 64 bits, with or without
blanks around it. -/
structure Denotes (entry : List Char) (n : Nat) : Prop where
  numeral : IsNumeral n (trimChars entry)
  positive : 0 < n
  fits : n < 2 ^ 64

/-- What is wrong with an entry that denotes no count. -/
inductive Faulty (entry : List Char) : Fault → Prop where
  | empty (blank : trimChars entry = []) : Faulty entry .empty
  | notInteger (filled : trimChars entry ≠ [])
    (unread : ∀ n < 2 ^ 64, ¬IsNumeral n (trimChars entry)) : Faulty entry .notInteger
  | zero (numeral : IsNumeral 0 (trimChars entry)) : Faulty entry .zero

theorem parseEntry_filled (filled : trimChars entry ≠ []) : parseEntry entry =
    match word? (trimChars entry) with
    | none => .error .notInteger
    | some 0 => .error .zero
    | some n => .ok n := by
  unfold parseEntry
  generalize trimChars entry = trimmed at filled ⊢
  cases trimmed with
  | nil => exact absurd rfl filled
  | cons => rfl

theorem Denotes.parseEntry_eq (denotes : Denotes entry n) : parseEntry entry = .ok n := by
  rw [parseEntry_filled denotes.numeral.ne_nil, word?_eq_some.2 ⟨denotes.numeral, denotes.fits⟩]
  obtain ⟨m, rfl⟩ := Nat.exists_eq_add_one_of_ne_zero denotes.positive.ne'
  rfl

theorem Faulty.parseEntry_eq (faulty : Faulty entry fault) : parseEntry entry = .error fault := by
  cases faulty with
  | empty blank => rw [parseEntry, blank]
  | notInteger filled unread => rw [parseEntry_filled filled, word?_eq_none.2 unread]
  | zero numeral =>
    rw [parseEntry_filled numeral.ne_nil, word?_eq_some.2 ⟨numeral, Nat.two_pow_pos 64⟩]
    rfl

theorem denotes_or_faulty (entry : List Char) :
    (∃ n, Denotes entry n) ∨ ∃ fault, Faulty entry fault := by
  by_cases blank : trimChars entry = []
  · exact .inr ⟨.empty, .empty blank⟩
  cases read : word? (trimChars entry) with
  | none => exact .inr ⟨.notInteger, .notInteger blank (word?_eq_none.1 read)⟩
  | some n =>
    obtain ⟨numeral, fits⟩ := word?_eq_some.1 read
    rcases Nat.eq_zero_or_pos n with rfl | positive
    · exact .inr ⟨.zero, .zero numeral⟩
    · exact .inl ⟨n, numeral, positive, fits⟩

theorem parseEntry_eq_ok : parseEntry entry = .ok n ↔ Denotes entry n := by
  refine ⟨fun read => ?_, Denotes.parseEntry_eq⟩
  rcases denotes_or_faulty entry with ⟨m, denotes⟩ | ⟨fault, faulty⟩
  · rw [denotes.parseEntry_eq, Except.ok.injEq] at read
    exact read ▸ denotes
  · rw [faulty.parseEntry_eq] at read
    cases read

theorem parseEntry_eq_error : parseEntry entry = .error fault ↔ Faulty entry fault := by
  refine ⟨fun refused => ?_, Faulty.parseEntry_eq⟩
  rcases denotes_or_faulty entry with ⟨m, denotes⟩ | ⟨other, faulty⟩
  · rw [denotes.parseEntry_eq] at refused
    cases refused
  · rw [faulty.parseEntry_eq, Except.error.injEq] at refused
    exact refused ▸ faulty

theorem denotes_toDigits (positive : 0 < n) (fits : n < 2 ^ 64) :
    Denotes (Nat.toDigits 10 n) n := by
  have trimmed : trimChars (Nat.toDigits 10 n) = Nat.toDigits 10 n :=
    Text.trimChars_visible fun c member =>
      Text.not_isBlank_of_isDigit (Nat.isDigit_of_mem_toDigits (by decide) (by decide) member)
  exact ⟨trimmed.symm ▸ .plain (Text.isDecimal_toDigits n), positive, fits⟩

/-! Insertion. -/

theorem mem_insert : m ∈ insert n counts ↔ m = n ∨ m ∈ counts := by
  induction counts with
  | nil => exact List.mem_cons
  | cons first rest ih =>
    rw [insert]
    split
    · exact List.mem_cons
    split
    next same =>
      subst same
      simp
    · rw [List.mem_cons, ih, List.mem_cons]
      exact or_left_comm

theorem insert_ascending (ascending : counts.Pairwise (· < ·)) (n : Nat) :
    (insert n counts).Pairwise (· < ·) := by
  induction counts with
  | nil => exact List.pairwise_singleton _ _
  | cons first rest ih =>
    obtain ⟨above, later⟩ := List.pairwise_cons.1 ascending
    rw [insert]
    split
    next below =>
      refine List.pairwise_cons.2 ⟨fun other member => ?_, ascending⟩
      rcases List.mem_cons.1 member with rfl | inside
      · exact below
      · exact below.trans (above other inside)
    split
    · exact ascending
    next notBelow different =>
      refine List.pairwise_cons.2 ⟨fun other member => ?_, ih later⟩
      rcases mem_insert.1 member with rfl | inside
      · omega
      · exact above other inside

theorem mem_foldl_insert :
    m ∈ values.foldl (fun sorted n => insert n sorted) counts ↔ m ∈ values ∨ m ∈ counts := by
  induction values generalizing counts with
  | nil => simp
  | cons first rest ih =>
    rw [List.foldl_cons, ih, mem_insert, List.mem_cons]
    tauto

theorem foldl_insert_ascending (ascending : counts.Pairwise (· < ·)) (values : List Nat) :
    (values.foldl (fun sorted n => insert n sorted) counts).Pairwise (· < ·) := by
  induction values generalizing counts with
  | nil => exact ascending
  | cons first rest ih => exact ih (insert_ascending ascending first)

/-! Texts. -/

/-- The entries of a text, which commas separate. -/
def entries (text : String) : List (List Char) := text.toList.splitOn ','

structure Lists (counts : List Nat) (text : String) : Prop where
  each : ∀ entry ∈ entries text, ∃ n, Denotes entry n
  ascending : counts.Pairwise (· < ·)
  mem_iff : ∀ n, n ∈ counts ↔ ∃ entry ∈ entries text, Denotes entry n

theorem Lists.of_parse_eq_ok (read : parse text = .ok counts) : Lists counts text := by
  obtain ⟨values, all, sorted⟩ := bind_eq_ok.1 read
  obtain rfl := Except.ok.inj sorted
  refine ⟨fun entry member => ?_, foldl_insert_ascending .nil values, fun n => ?_⟩
  · obtain ⟨n, read⟩ := exists_mapM_eq_ok.1 ⟨values, all⟩ entry member
    exact ⟨n, parseEntry_eq_ok.1 read⟩
  · simp only [mem_foldl_insert, mem_of_mapM_eq_ok all, parseEntry_eq_ok, entries,
      List.not_mem_nil, or_false]

theorem exists_parse_eq_ok :
    (∃ counts, parse text = .ok counts) ↔ ∀ entry ∈ entries text, ∃ n, Denotes entry n := by
  constructor
  · rintro ⟨counts, read⟩
    exact (Lists.of_parse_eq_ok read).each
  · intro each
    obtain ⟨values, all⟩ := exists_mapM_eq_ok.2 fun entry member => by
      obtain ⟨n, denotes⟩ := each entry member
      exact ⟨n, denotes.parseEntry_eq⟩
    exact ⟨_, bind_eq_ok.2 ⟨values, all, rfl⟩⟩

/-- The counts of a text are told by what they are, so that they are read from every text that lists
them. -/
theorem Lists.parse_eq (lists : Lists counts text) : parse text = .ok counts := by
  obtain ⟨others, read⟩ := exists_parse_eq_ok.2 lists.each
  have also := Lists.of_parse_eq_ok read
  have same : others = counts :=
    also.ascending.eq_of_mem_iff lists.ascending fun n =>
      (also.mem_iff n).trans (lists.mem_iff n).symm
  exact same ▸ read

theorem parse_eq_error : parse text = .error fault ↔ ∃ entry,
    FirstBroken (fun entry => ∃ n, Denotes entry n) (entries text) entry ∧
      Faulty entry fault := by
  have only : parse text = .error fault ↔ (entries text).mapM parseEntry = .error fault :=
    bind_eq_error.trans (or_iff_left (by rintro ⟨_, _, ⟨⟩⟩))
  rw [only, mapM_eq_error]
  simp only [parseEntry_eq_ok, parseEntry_eq_error]

theorem Lists.congr (lists : Lists counts text) {other : String}
    (same : ∀ entry, entry ∈ entries other ↔ entry ∈ entries text) : Lists counts other := by
  obtain ⟨each, ascending, members⟩ := lists
  refine ⟨fun entry member => each entry ((same entry).1 member), ascending, fun n => ?_⟩
  simp only [members, same]

theorem Lists.ne_nil (lists : Lists counts text) : counts ≠ [] := by
  obtain ⟨entry, rest, cut⟩ := List.exists_cons_of_ne_nil (List.splitOn_ne_nil ',' text.toList)
  have member : entry ∈ entries text := by rw [entries, cut]; exact List.mem_cons_self
  obtain ⟨n, denotes⟩ := lists.each entry member
  exact List.ne_nil_of_mem ((lists.mem_iff n).2 ⟨entry, member, denotes⟩)

theorem Lists.range (lists : Lists counts text) : ∀ n ∈ counts, 0 < n ∧ n < 2 ^ 64 := by
  intro n inside
  obtain ⟨_, _, denotes⟩ := (lists.mem_iff n).1 inside
  exact ⟨denotes.positive, denotes.fits⟩

/-! Written counts. -/

/-- The text of counts, in decimal and with commas between them. -/
def written (counts : List Nat) : String :=
  String.ofList ([','].intercalate (counts.map (Nat.toDigits 10)))

theorem entries_written (filled : counts ≠ []) :
    entries (written counts) = counts.map (Nat.toDigits 10) := by
  rw [entries, written, String.toList_ofList]
  refine List.splitOn_intercalate ',' (fun digits member inside => ?_) (by simpa using filled)
  obtain ⟨n, -, rfl⟩ := List.mem_map.1 member
  exact Text.notMem_toDigits rfl inside

theorem lists_written (filled : counts ≠ []) (ascending : counts.Pairwise (· < ·))
    (range : ∀ n ∈ counts, 0 < n ∧ n < 2 ^ 64) : Lists counts (written counts) := by
  have denoted : ∀ n ∈ counts, Denotes (Nat.toDigits 10 n) n := fun n member =>
    denotes_toDigits (range n member).1 (range n member).2
  constructor
  case ascending => exact ascending
  case each =>
    rw [entries_written filled]
    intro entry member
    obtain ⟨n, inside, rfl⟩ := List.mem_map.1 member
    exact ⟨n, denoted n inside⟩
  case mem_iff =>
    rw [entries_written filled]
    intro n
    constructor
    · intro inside
      exact ⟨_, List.mem_map_of_mem inside, denoted n inside⟩
    · rintro ⟨entry, member, denotes⟩
      obtain ⟨m, inside, rfl⟩ := List.mem_map.1 member
      have same : m = n :=
        Except.ok.inj ((denoted m inside).parseEntry_eq.symm.trans denotes.parseEntry_eq)
      exact same ▸ inside

theorem Lists.parse_written (lists : Lists counts text) : parse (written counts) = .ok counts :=
  (lists_written lists.ne_nil lists.ascending lists.range).parse_eq

/-- A text is taken when each of its entries denotes a count, and refused for the first that denotes
none. The counts that are taken are those of the entries, ascending and each once; any text with the
same entries, in any order and any number of times, gives the same, and so do the counts themselves
when they are written out. -/
theorem parse_lists (text : String) :
    ((∃ counts, parse text = .ok counts) ↔ ∀ entry ∈ entries text, ∃ n, Denotes entry n) ∧
      (∀ counts, parse text = .ok counts →
        counts.Pairwise (· < ·) ∧
          (∀ n, n ∈ counts ↔ ∃ entry ∈ entries text, Denotes entry n) ∧
          (∀ other, (∀ entry, entry ∈ entries other ↔ entry ∈ entries text) →
            parse other = .ok counts) ∧
          parse (written counts) = .ok counts) ∧
      ∀ fault, parse text = .error fault ↔ ∃ entry,
        FirstBroken (fun entry => ∃ n, Denotes entry n) (entries text) entry ∧
          Faulty entry fault := by
  refine ⟨exists_parse_eq_ok, fun counts read => ?_, fun fault => parse_eq_error⟩
  have lists := Lists.of_parse_eq_ok read
  exact ⟨lists.ascending, lists.mem_iff, fun other same => (lists.congr same).parse_eq,
    lists.parse_written⟩

theorem parse_lists_padded :
    parse " 8, +1,4 ,01" = .ok [1, 4, 8] ∧
      parse "4 ,01, 8,4 , +1,01" = .ok [1, 4, 8] ∧
      parse (written [1, 4, 8]) = .ok [1, 4, 8] ∧
      parse "7,18446744073709551616,0" = .error .notInteger := by
  have read : parse " 8, +1,4 ,01" = .ok [1, 4, 8] := by decide +kernel
  obtain ⟨-, -, others, again⟩ := (parse_lists " 8, +1,4 ,01").2.1 _ read
  have given : entries " 8, +1,4 ,01" = [[' ', '8'], [' ', '+', '1'], ['4', ' '], ['0', '1']] := by
    decide +kernel
  have shuffled : entries "4 ,01, 8,4 , +1,01" =
      [['4', ' '], ['0', '1'], [' ', '8'], ['4', ' '], [' ', '+', '1'], ['0', '1']] := by
    decide +kernel
  refine ⟨read, others _ fun entry => ?_, again, ?_⟩
  · rw [shuffled, given]
    simp only [List.mem_cons, List.not_mem_nil, or_false]
    tauto
  · have kept : Denotes ['7'] 7 := parseEntry_eq_ok.1 (by decide +kernel)
    have faulty : Faulty "18446744073709551616".toList .notInteger :=
      parseEntry_eq_error.1 (by decide +kernel)
    have broken : ¬∃ n, Denotes "18446744073709551616".toList n := by
      rintro ⟨n, denotes⟩
      have read := denotes.parseEntry_eq
      rw [faulty.parseEntry_eq] at read
      cases read
    exact ((parse_lists "7,18446744073709551616,0").2.2 _).2
      ⟨_, .later ⟨7, kept⟩ (.here broken), faulty⟩

end PolicyReview.WorkerCounts
