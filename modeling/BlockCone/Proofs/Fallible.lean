/-
This file takes computations that may fail apart.

Such a computation is a chain of steps. It succeeds exactly when every step does, and it fails with
the failure of one of them. The lemmas say this of two steps, of a step for each item of a list
whose answers are kept, and of a check for each item.
-/

namespace BlockCone

variable {α β ε : Type}

/-- Two steps succeed exactly when the first does and the second does with its answer. -/
theorem bind_eq_ok_iff {first : Except ε α} {second : α → Except ε β} {answer : β} :
    (first >>= second) = .ok answer ↔ ∃ value, first = .ok value ∧ second value = .ok answer := by
  cases first with
  | error reason => simp [bind, Except.bind]
  | ok value => simp [bind, Except.bind]

/-- Two steps fail exactly when the first does or the second does with its answer. -/
theorem bind_eq_error_iff {first : Except ε α} {second : α → Except ε β} {reason : ε} :
    (first >>= second) = .error reason ↔
      first = .error reason ∨ ∃ value, first = .ok value ∧ second value = .error reason := by
  cases first with
  | error cause => simp [bind, Except.bind]
  | ok value => simp [bind, Except.bind]

theorem toOption_eq_some_iff {computed : Except ε α} {value : α} :
    computed.toOption = some value ↔ computed = .ok value := by
  cases computed <;> simp [Except.toOption]

theorem throw_ne_ok (reason : ε) (value : α) : (throw reason : Except ε α) ≠ .ok value := by
  intro equal
  cases equal

/-- A list of computations that all succeed gives the list of their answers. -/
theorem mapM_eq_ok {compute : α → Except ε β} {answer : α → β} (items : List α)
    (succeeds : ∀ item ∈ items, compute item = .ok (answer item)) :
    items.mapM compute = .ok (items.map answer) := by
  induction items with
  | nil => rfl
  | cons first rest inductionHypothesis =>
    rw [List.mapM_cons, succeeds first List.mem_cons_self,
      inductionHypothesis fun item member => succeeds item (List.mem_cons_of_mem _ member)]
    rfl

/-- A list of computations fails only with the failure of one of them. -/
theorem mapM_eq_error {compute : α → Except ε β} {items : List α} {reason : ε}
    (failed : items.mapM compute = .error reason) :
    ∃ item ∈ items, compute item = .error reason := by
  induction items with
  | nil => exact absurd failed (by simp [pure, Except.pure])
  | cons first rest inductionHypothesis =>
    rw [List.mapM_cons] at failed
    rcases bind_eq_error_iff.mp failed with here | ⟨answer, _, later⟩
    · exact ⟨first, List.mem_cons_self, here⟩
    · rcases bind_eq_error_iff.mp later with there | ⟨_, _, impossible⟩
      · obtain ⟨item, member, cause⟩ := inductionHypothesis there
        exact ⟨item, List.mem_cons_of_mem _ member, cause⟩
      · exact absurd impossible (by simp [pure, Except.pure])

/-- A list of checks passes exactly when each of them does. -/
theorem forM_eq_ok_iff (check : α → Except ε Unit) (items : List α) :
    items.forM check = .ok () ↔ ∀ item ∈ items, check item = .ok () := by
  induction items with
  | nil => simp [pure, Except.pure]
  | cons first rest inductionHypothesis =>
    rw [List.forM, List.forall_mem_cons, ← inductionHypothesis]
    cases check first with
    | error reason => simp [bind, Except.bind]
    | ok _ => simp [bind, Except.bind]

/-- A check of a list fails only with the failure of one of its items. -/
theorem forM_eq_error {check : α → Except ε Unit} {items : List α} {reason : ε}
    (failed : items.forM check = .error reason) : ∃ item ∈ items, check item = .error reason := by
  induction items with
  | nil => exact absurd failed (by simp [pure, Except.pure])
  | cons first rest inductionHypothesis =>
    rw [List.forM] at failed
    rcases bind_eq_error_iff.mp failed with here | ⟨_, _, later⟩
    · exact ⟨first, List.mem_cons_self, here⟩
    · obtain ⟨item, member, cause⟩ := inductionHypothesis later
      exact ⟨item, List.mem_cons_of_mem _ member, cause⟩

end BlockCone
