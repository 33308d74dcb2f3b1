/-
This file says for which reason a call is refused.

A call makes its checks one after the other and is refused for the first fault that it meets. So the
reasons of a call are a list of faults in the order of the checks, and what two calls in a row can
be refused for is the one list behind the other. `FailsWith` says that a computation fails for the
first fault of a list that is present, and that it succeeds if none is.

An expression has one fault for each of its inner products, from left to right, so the variable that
an error names is the one of the leftmost inner product that the problem does not recognise. The
steps of a call behind this check fail for reasons of their own and never for a variable, so a call
is refused for a variable exactly if it makes the check and does not recognise one.
-/

import BlockCone.Proofs.Runs

namespace BlockCone

/-! ### Faults in order -/

/-- A reason is the one of the first fault that is present. -/
def FirstFault : List (Prop × Error) → Error → Prop
  | [], _ => False
  | (fault, blame) :: later, reason => fault ∧ reason = blame ∨ ¬ fault ∧ FirstFault later reason

theorem exists_firstFault_iff (faults : List (Prop × Error)) :
    (∃ reason, FirstFault faults reason) ↔ ∃ fault ∈ faults, fault.1 := by
  induction faults with
  | nil => simp [FirstFault]
  | cons first later inductionHypothesis =>
    simp only [FirstFault, exists_or, exists_and_left, exists_eq, and_true, inductionHypothesis,
      List.exists_mem_cons_iff]
    tauto

theorem firstFault_append (first second : List (Prop × Error)) (reason : Error) :
    FirstFault (first ++ second) reason ↔
      FirstFault first reason ∨ (∀ fault ∈ first, ¬ fault.1) ∧ FirstFault second reason := by
  induction first with
  | nil => simp [FirstFault]
  | cons fault later inductionHypothesis =>
    simp only [List.cons_append, FirstFault, inductionHypothesis, List.forall_mem_cons]
    tauto

variable {β γ : Type}

/-- A computation fails for the first of some faults that is present. -/
def FailsWith (faults : List (Prop × Error)) (computed : Except Error β) : Prop :=
  ∀ reason, computed = .error reason ↔ FirstFault faults reason

theorem FailsWith.succeeds_iff {faults : List (Prop × Error)} {computed : Except Error β}
    (fails : FailsWith faults computed) :
    (∃ value, computed = .ok value) ↔ ∀ fault ∈ faults, ¬ fault.1 := by
  have present := exists_firstFault_iff faults
  simp only [← fails _] at present
  cases computed with
  | ok value => simpa using present
  | error reason => simpa using present

theorem failsWith_pure (value : β) : FailsWith [] (pure value : Except Error β) := by
  intro reason
  simp [FirstFault, pure, Except.pure]

/-- What comes behind a computation adds its faults behind those of the computation. -/
theorem FailsWith.bind {faults later : List (Prop × Error)} {computed : Except Error β}
    {next : β → Except Error γ} (first : FailsWith faults computed)
    (second : ∀ value, computed = .ok value → FailsWith later (next value)) :
    FailsWith (faults ++ later) (computed >>= next) := by
  intro reason
  rw [firstFault_append, bind_eq_error_iff, first reason, ← first.succeeds_iff]
  refine or_congr_right ⟨?_, ?_⟩
  · rintro ⟨value, passed, failed⟩
    exact ⟨⟨value, passed⟩, (second value passed reason).mp failed⟩
  · rintro ⟨⟨value, passed⟩, failed⟩
    exact ⟨value, passed, (second value passed reason).mpr failed⟩

theorem FailsWith.map {faults : List (Prop × Error)} {computed : Except Error β}
    (fails : FailsWith faults computed) (answer : β → γ) :
    FailsWith faults (computed >>= fun value => pure (answer value)) := by
  rw [← List.append_nil faults]
  exact fails.bind fun value _ => failsWith_pure (answer value)

/-- A check before a computation puts its fault before those of the computation. -/
theorem FailsWith.guard {fault : Prop} [Decidable fault] {blame : Error}
    {later : List (Prop × Error)} {computed : Except Error β} (second : FailsWith later computed) :
    FailsWith ((fault, blame) :: later) (if fault then .error blame else computed) := by
  intro reason
  rw [FirstFault, ← second reason]
  split
  · simp [*, eq_comm]
  · simp [*]

/-- A computation that is blamed when a fault is present, and that fails for later faults when it is
not. -/
theorem FailsWith.cons {fault : Prop} {blame : Error} {later : List (Prop × Error)}
    {computed : Except Error β} (present : fault → computed = .error blame)
    (absent : ¬ fault → FailsWith later computed) :
    FailsWith ((fault, blame) :: later) computed := by
  intro reason
  by_cases here : fault
  · simp [FirstFault, here, present here, eq_comm]
  · simp [FirstFault, here, absent here reason]

/-- A list of computations fails for the first of their faults. -/
theorem FailsWith.mapM {fault : β → Prop × Error} {compute : β → Except Error γ}
    (each : ∀ item, FailsWith [fault item] (compute item)) (items : List β) :
    FailsWith (items.map fault) (items.mapM compute) := by
  induction items with
  | nil => exact failsWith_pure []
  | cons first rest inductionHypothesis =>
    rw [List.mapM_cons, List.map_cons, ← List.singleton_append]
    exact (each first).bind fun answer _ => inductionHypothesis.map fun answers => answer :: answers

/-- Computations that fail for the same faults fail for them one after another as well, if there is
one at all. -/
theorem FailsWith.mapM_same {faults : List (Prop × Error)} {compute : β → Except Error γ}
    {items : List β} (some : items ≠ []) (each : ∀ item ∈ items, FailsWith faults (compute item)) :
    FailsWith faults (items.mapM compute) := by
  intro reason
  constructor
  · intro failed
    obtain ⟨item, member, cause⟩ := mapM_eq_error failed
    exact (each item member reason).mp cause
  · intro fault
    obtain ⟨first, rest, rfl⟩ := List.exists_cons_of_ne_nil some
    have cause := (each first List.mem_cons_self reason).mpr fault
    rw [List.mapM_cons, cause]
    rfl

namespace Problem

variable {α : Type} (problem : Problem α)

/-- The fault of a problem that was solved before. -/
def finalFault : Prop × Error :=
  (problem.solution ≠ none, .problemFinalized)

/-- The faults of the inner products of an expression: variables that are not recognised. -/
def foreignFaults (expr : Expr α) : List (Prop × Error) :=
  expr.terms.map fun term =>
    (problem.owns term.slice.source = false, .foreignVariable term.slice.source.label)

theorem failsWith_requireBuilding : FailsWith [problem.finalFault] problem.requireBuilding := by
  intro reason
  cases stage : problem.solution with
  | none =>
    rw [requireBuilding_of_building stage]
    simp [FirstFault, finalFault, stage]
  | some solution =>
    rw [requireBuilding_of_solution (by simp [stage])]
    simp [FirstFault, finalFault, stage, eq_comm]

theorem failsWith_building {later : List (Prop × Error)} {computed : Except Error β}
    (fails : FailsWith later computed) :
    FailsWith (problem.finalFault :: later) (problem.requireBuilding >>= fun _ => computed) :=
  problem.failsWith_requireBuilding.bind fun _ _ => fails

theorem failsWith_requireOwnedExpr (expr : Expr α) :
    FailsWith (problem.foreignFaults expr) (problem.requireOwnedExpr expr) := by
  rw [requireOwnedExpr_eq_forM, foreignFaults]
  induction expr.terms with
  | nil => exact failsWith_pure ()
  | cons term rest inductionHypothesis =>
    rw [List.map_cons, List.map_cons, List.forM_eq_forM, List.forM_cons, ← List.singleton_append]
    refine FailsWith.bind (fun reason => ?_) fun _ _ => inductionHypothesis
    simp [requireOwned_eq_error_iff, FirstFault]

/-! ### The calls that change a problem -/

theorem failsWith_declare (name : Option String) (count dim : Nat) :
    FailsWith
      [problem.finalFault, (count = 0 ∨ dim = 0, .invalidProblem (.emptyBlocks count dim)),
        (columnLimit ≤ problem.columns + count * dim * dim,
          .invalidProblem (.columnOverflow count dim))]
      (problem.declare name count dim) :=
  problem.failsWith_building (.guard (.guard (failsWith_pure _)))

theorem failsWith_setObjective (sense : Sense) (expr : Expr α) :
    FailsWith (problem.finalFault :: problem.foreignFaults expr)
      (problem.setObjective sense expr) :=
  problem.failsWith_building ((problem.failsWith_requireOwnedExpr expr).map _)

theorem failsWith_constrain [Scalar α] (expr : Expr α) (domain : Domain α) :
    FailsWith
      (problem.finalFault :: (problem.foreignFaults expr ++
        [(∃ dim count, domain = .semidefinite dim count,
          .invalidProblem (.constraintDomain domain.display))]))
      (problem.constrain expr domain) := by
  refine problem.failsWith_building
    ((problem.failsWith_requireOwnedExpr expr).bind fun _ _ reason => ?_)
  cases domain with
  | semidefinite dim count =>
    simp [FirstFault, Domain.relation?, throw, throwThe, MonadExceptOf.throw, eq_comm]
  | _ => simp [FirstFault, Domain.relation?, pure, Except.pure]

/-! ### Refusals of a variable -/

end Problem

/-- A computation fails because a variable is not recognised. -/
def IsForeign (computed : Except Error β) : Prop :=
  ∃ label, computed = .error (.foreignVariable label)

/-- A step behind a computation that names no variable leaves the name to the computation. -/
theorem bind_eq_foreign_iff {computed : Except Error β} {next : β → Except Error γ}
    (never : ∀ value, ¬ IsForeign (next value)) (label : String) :
    computed >>= next = .error (.foreignVariable label) ↔
      computed = .error (.foreignVariable label) := by
  rw [bind_eq_error_iff]
  exact or_iff_left fun ⟨value, _, failed⟩ => never value ⟨label, failed⟩

theorem isForeign_bind_iff {computed : Except Error β} {next : β → Except Error γ}
    (never : ∀ value, ¬ IsForeign (next value)) :
    IsForeign (computed >>= next) ↔ IsForeign computed :=
  exists_congr (bind_eq_foreign_iff never)

theorem not_isForeign_pure (value : β) : ¬ IsForeign (pure value : Except Error β) := by
  rintro ⟨_, ⟨⟩⟩

theorem not_isForeign_readPoint {α : Type} (point : Array α) (column : Nat) :
    ¬ IsForeign (readPoint point column) := by
  rintro ⟨label, failed⟩
  unfold readPoint at failed
  split at failed <;> cases failed

theorem not_isForeign_mapM {compute : β → Except Error γ} {items : List β}
    (never : ∀ item, ¬ IsForeign (compute item)) : ¬ IsForeign (items.mapM compute) := by
  rintro ⟨label, failed⟩
  obtain ⟨item, _, cause⟩ := mapM_eq_error failed
  exact never item ⟨label, cause⟩

namespace Problem

variable {α : Type} (problem : Problem α)

theorem isForeign_requireOwned_iff (used : Variable) :
    IsForeign (problem.requireOwned used) ↔ problem.owns used = false := by
  simp [IsForeign, requireOwned_eq_error_iff]

theorem isForeign_requireOwnedExpr_iff (expr : Expr α) :
    IsForeign (problem.requireOwnedExpr expr) ↔
      ∃ term ∈ expr.terms, problem.owns term.slice.source = false := by
  constructor
  · rintro ⟨label, failed⟩
    rw [requireOwnedExpr_eq_forM] at failed
    obtain ⟨source, used, refused⟩ := forM_eq_error failed
    obtain ⟨term, member, rfl⟩ := List.mem_map.mp used
    exact ⟨term, member, ((problem.requireOwned_eq_error_iff _ _).mp refused).1⟩
  · rintro ⟨term, member, foreign⟩
    cases asked : problem.requireOwnedExpr expr with
    | ok _ =>
      rw [(problem.requireOwnedExpr_eq_ok_iff expr).mp asked term member] at foreign
      exact Bool.noConfusion foreign
    | error reason =>
      rw [requireOwnedExpr_eq_forM] at asked
      obtain ⟨source, _, refused⟩ := forM_eq_error asked
      exact ⟨source.label, by rw [((problem.requireOwned_eq_error_iff _ _).mp refused).2]⟩

/-- A problem that was solved refuses a call before it looks at the variables. -/
theorem isForeign_building_iff (computed : Except Error β) :
    IsForeign (problem.requireBuilding >>= fun _ => computed) ↔
      problem.solution = none ∧ IsForeign computed := by
  cases stage : problem.solution with
  | none =>
    rw [requireBuilding_of_building stage]
    simp [bind, Except.bind]
  | some solution =>
    rw [requireBuilding_of_solution (by simp [stage])]
    simp [bind, Except.bind, IsForeign]

theorem isForeign_setObjective_iff (sense : Sense) (expr : Expr α) :
    IsForeign (problem.setObjective sense expr) ↔
      problem.solution = none ∧ ∃ term ∈ expr.terms, problem.owns term.slice.source = false := by
  rw [setObjective, isForeign_building_iff, isForeign_bind_iff fun _ => not_isForeign_pure _,
    isForeign_requireOwnedExpr_iff]

theorem not_isForeign_levels : ¬ IsForeign problem.levels := by
  rintro ⟨label, failed⟩
  unfold levels at failed
  split at failed <;> cases failed

theorem isForeign_level_iff (slice : Slice) :
    IsForeign (problem.level slice) ↔ problem.owns slice.source = false := by
  rw [level, isForeign_bind_iff, isForeign_requireOwned_iff]
  intro _
  rw [isForeign_bind_iff fun _ => not_isForeign_mapM fun _ => not_isForeign_readPoint _ _]
  exact problem.not_isForeign_levels

/-- The rank of a slice is looked at before its variable. -/
theorem isForeign_levelMatrix_iff (slice : Slice) :
    IsForeign (problem.levelMatrix slice) ↔
      slice.shape.rank ≤ 2 ∧ problem.owns slice.source = false := by
  have arranged : ∀ values : List α,
      ¬ IsForeign (Matrix.ofValues values slice.shape.rows slice.shape.cols) := by
    rintro values ⟨label, failed⟩
    unfold Matrix.ofValues at failed
    split at failed <;> cases failed
  unfold levelMatrix
  split
  · rename_i high
    refine iff_of_false ?_ fun ⟨low, _⟩ => absurd high (Nat.not_lt.mpr low)
    rintro ⟨label, ⟨⟩⟩
  · rename_i low
    rw [and_iff_right (Nat.not_lt.mp low), ← isForeign_level_iff]
    exact isForeign_bind_iff arranged

variable [Scalar α]

theorem isForeign_constrain_iff (expr : Expr α) (domain : Domain α) :
    IsForeign (problem.constrain expr domain) ↔
      problem.solution = none ∧ ∃ term ∈ expr.terms, problem.owns term.slice.source = false := by
  rw [constrain, isForeign_building_iff, isForeign_bind_iff, isForeign_requireOwnedExpr_iff]
  rintro _ ⟨label, failed⟩
  split at failed <;> cases failed

/-- What a problem does with an expression behind the check of its variables names no variable. -/
theorem not_isForeign_weigh (expr : Expr α) :
    ¬ IsForeign (do
      let levels ← problem.levels
      expr.linearForm.evaluate levels) := by
  rw [isForeign_bind_iff fun levels => ?_]
  · exact problem.not_isForeign_levels
  · rw [LinearForm.evaluate, isForeign_bind_iff fun _ => not_isForeign_pure _, weighedSum,
      isForeign_bind_iff fun _ => not_isForeign_pure _]
    refine not_isForeign_mapM fun coeff => ?_
    rw [isForeign_bind_iff fun _ => not_isForeign_pure _]
    exact not_isForeign_readPoint _ _

theorem isForeign_evaluate_iff (expr : Expr α) :
    IsForeign (problem.evaluate expr) ↔
      ∃ term ∈ expr.terms, problem.owns term.slice.source = false := by
  rw [evaluate, isForeign_bind_iff fun _ => problem.not_isForeign_weigh expr,
    isForeign_requireOwnedExpr_iff]

end Problem

end BlockCone
