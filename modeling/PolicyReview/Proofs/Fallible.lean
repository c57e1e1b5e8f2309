import Mathlib.Data.List.Basic

/-! Computations that can fail. One after another they give a result when all do, and otherwise the
fault of the first that fails. -/

namespace PolicyReview

variable {α β ε : Type} {fault : ε}

theorem ok_bind (item : α) (rest : α → Except ε β) : (Except.ok item >>= rest) = rest item := rfl

theorem bind_eq_ok {first : Except ε α} {rest : α → Except ε β} {result : β} :
    (first >>= rest) = .ok result ↔ ∃ item, first = .ok item ∧ rest item = .ok result := by
  cases first <;> simp [bind, Except.bind]

theorem bind_eq_error {first : Except ε α} {rest : α → Except ε β} :
    (first >>= rest) = .error fault ↔
      first = .error fault ∨ ∃ item, first = .ok item ∧ rest item = .error fault := by
  cases first <;> simp [bind, Except.bind]

theorem map_eq_ok {first : Except ε α} {f : α → β} {result : β} :
    first.map f = .ok result ↔ ∃ item, first = .ok item ∧ f item = result := by
  cases first <;> simp [Except.map]

theorem map_eq_error {first : Except ε α} {f : α → β} :
    first.map f = .error fault ↔ first = .error fault := by
  cases first <;> simp [Except.map]

theorem mapError_eq_ok {ε' : Type} {first : Except ε α} {f : ε → ε'} {result : α} :
    first.mapError f = .ok result ↔ first = .ok result := by
  cases first <;> simp [Except.mapError]

theorem mapError_eq_error {ε' : Type} {first : Except ε α} {f : ε → ε'} {found : ε'} :
    first.mapError f = .error found ↔ ∃ fault, first = .error fault ∧ f fault = found := by
  cases first <;> simp [Except.mapError]

/-- A check that refuses what it finds. -/
theorem unless_eq_ok {refused : Prop} [Decidable refused] {rest : Except ε β} {result : β} :
    (do if refused then throw fault
        rest) = Except.ok result ↔ ¬ refused ∧ rest = .ok result := by
  by_cases here : refused
  · simp [here, throw, throwThe, MonadExceptOf.throw, bind, Except.bind]
  · simp [here]

theorem forM_eq_ok {f : α → Except ε Unit} {items : List α} :
    items.forM f = .ok () ↔ ∀ item ∈ items, f item = .ok () := by
  induction items with
  | nil => simp [pure, Except.pure]
  | cons first rest ih =>
    rw [List.forall_mem_cons, ← ih]
    exact bind_eq_ok.trans
      ⟨fun ⟨(), passed, others⟩ => ⟨passed, others⟩, fun ⟨passed, others⟩ => ⟨(), passed, others⟩⟩

theorem exists_of_mapM_eq_ok {f : α → Except ε β} {items : List α} {results : List β}
    (all : items.mapM f = .ok results) : ∀ result ∈ results, ∃ item ∈ items, f item = .ok result := by
  induction items generalizing results with
  | nil =>
    obtain rfl := Except.ok.inj all
    simp
  | cons first rest ih =>
    rw [List.mapM_cons] at all
    obtain ⟨result, found, all⟩ := bind_eq_ok.1 all
    obtain ⟨others, later, whole⟩ := bind_eq_ok.1 all
    obtain rfl := Except.ok.inj whole
    rw [List.forall_mem_cons]
    refine ⟨⟨first, List.mem_cons_self, found⟩, fun other member => ?_⟩
    obtain ⟨item, inside, same⟩ := ih later other member
    exact ⟨item, List.mem_cons_of_mem first inside, same⟩

theorem mem_of_mapM_eq_ok {f : α → Except ε β} {items : List α} {results : List β} {result : β}
    (all : items.mapM f = .ok results) :
    result ∈ results ↔ ∃ item ∈ items, f item = .ok result := by
  refine ⟨exists_of_mapM_eq_ok all result, ?_⟩
  rintro ⟨item, member, found⟩
  induction items generalizing results with
  | nil => cases member
  | cons first rest ih =>
    rw [List.mapM_cons] at all
    obtain ⟨given, here, all⟩ := bind_eq_ok.1 all
    obtain ⟨others, later, whole⟩ := bind_eq_ok.1 all
    obtain rfl := Except.ok.inj whole
    rcases List.mem_cons.1 member with rfl | inside
    · rw [here, Except.ok.injEq] at found
      exact found ▸ List.mem_cons_self
    · exact List.mem_cons_of_mem given (ih later inside)

theorem exists_mapM_eq_ok {f : α → Except ε β} {items : List α} :
    (∃ results, items.mapM f = .ok results) ↔ ∀ item ∈ items, ∃ result, f item = .ok result := by
  induction items with
  | nil => exact iff_of_true ⟨[], rfl⟩ nofun
  | cons first rest ih =>
    simp only [List.forall_mem_cons, ← ih, List.mapM_cons, bind_eq_ok]
    constructor
    · rintro ⟨_, result, found, others, later, _⟩
      exact ⟨⟨result, found⟩, others, later⟩
    · rintro ⟨⟨result, found⟩, others, later⟩
      exact ⟨_, result, found, others, later, rfl⟩

theorem mapM_ne_error {f : α → Except ε β} (never : ∀ item, f item ≠ .error fault)
    (items : List α) : items.mapM f ≠ .error fault := by
  induction items with
  | nil => nofun
  | cons item rest ih =>
    rw [List.mapM_cons, Ne, bind_eq_error]
    rintro (failed | ⟨_, -, failed⟩)
    · exact never item failed
    · rcases bind_eq_error.1 failed with failed | ⟨_, -, ⟨⟩⟩
      exact ih failed

end PolicyReview
