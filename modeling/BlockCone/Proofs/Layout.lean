/-
This file proves where the columns of a problem lie.

Every declaration starts where the one before it ended, so the columns of a problem are the entries
of its variables one after another. `Arranged` says so, and every change keeps it. The expressions
that a problem keeps, in its objective and its constraints, are over these variables if the handles
in them were issued. `Sound` adds this; each honest change keeps it, and so does every honest run.

Three consequences are used elsewhere. Two declared variables that start at the same column are
one, every entry of a declared variable is a column of the problem, and the coefficients of an
expression over declared variables name columns of the problem only. None of this depends on how
numbers are rounded. So the linear form of such an expression can be evaluated wherever there is a
level for each column, and in exact arithmetic that gives the value of the expression.
-/

import BlockCone.Proofs.Collecting
import BlockCone.Proofs.Runs

namespace BlockCone

/-! ### Sizes of declarations -/

/-- The number of entries of a list of variables. -/
def totalSize (declared : List Variable) : Nat :=
  (declared.map Variable.size).foldr (· + ·) 0

theorem totalSize_nil : totalSize [] = 0 := rfl

theorem totalSize_cons (first : Variable) (rest : List Variable) :
    totalSize (first :: rest) = first.size + totalSize rest := rfl

theorem totalSize_append (left right : List Variable) :
    totalSize (left ++ right) = totalSize left + totalSize right := by
  induction left with
  | nil => rw [List.nil_append, totalSize_nil, Nat.zero_add]
  | cons first rest inductionHypothesis =>
    rw [List.cons_append, totalSize_cons, totalSize_cons, inductionHypothesis, Nat.add_assoc]

theorem totalSize_take_le (declared : List Variable) (place : Nat) :
    totalSize (declared.take place) ≤ totalSize declared := by
  conv_rhs => rw [← List.take_append_drop place declared, totalSize_append]
  exact Nat.le_add_right _ _

/-- Up to the end of a variable there are at most as many entries as there are altogether. -/
theorem totalSize_take_add_size {declared : List Variable} {place : Nat} {source : Variable}
    (present : declared[place]? = some source) :
    totalSize (declared.take place) + source.size = totalSize (declared.take (place + 1)) := by
  rw [List.take_add_one, present, totalSize_append]
  rfl

/-! ### The invariant -/

namespace Problem

variable {α : Type}

/-- The declared variables carry the number of the problem, are counted in the order of their
declarations, and tile the columns. -/
structure Arranged (problem : Problem α) : Prop where
  owner_eq : ∀ source ∈ problem.declared, source.owner = problem.id
  index_eq : ∀ (place : Nat) (source : Variable), problem.declared[place]? = some source →
    source.index = place
  offset_eq : ∀ (place : Nat) (source : Variable), problem.declared[place]? = some source →
    source.offset = totalSize (problem.declared.take place)
  positive : ∀ source ∈ problem.declared, 0 < source.blocks ∧ 0 < source.dim
  columns_eq : problem.columns = totalSize problem.declared
  columns_lt : problem.columns < columnLimit

/-- The declared variables are arranged, and what the problem keeps is over them. -/
structure Sound (problem : Problem α) : Prop extends problem.Arranged where
  objective_over : ∀ objective, problem.objective = some objective →
    objective.expr.Over problem.declared
  constraints_over : ∀ constraint ∈ problem.constraints, constraint.expr.Over problem.declared

theorem arranged_new (id : ProblemId) (name : Option String) :
    (Problem.new id name : Problem α).Arranged where
  owner_eq := by simp [new]
  index_eq := by simp [new]
  offset_eq := by simp [new]
  positive := by simp [new]
  columns_eq := rfl
  columns_lt := Nat.zero_lt_succ _

theorem sound_new (id : ProblemId) (name : Option String) :
    (Problem.new id name : Problem α).Sound where
  toArranged := arranged_new id name
  objective_over := by simp [new]
  constraints_over := by simp [new]

theorem fresh_size (problem : Problem α) (name : Option String) (count dim : Nat) :
    (problem.fresh name count dim).size = count * dim * dim :=
  Variable.size_eq _

/-- What stands in a list with one more element stood there before or is that element. -/
theorem eq_or_eq_of_getElem?_concat {β : Type} {list : List β} {last found : β} {place : Nat}
    (present : (list ++ [last])[place]? = some found) :
    list[place]? = some found ∨ place = list.length ∧ found = last := by
  by_cases old : place < list.length
  · rw [List.getElem?_append_left old] at present
    exact Or.inl present
  · rw [List.getElem?_append_right (Nat.le_of_not_lt old)] at present
    obtain ⟨small, rfl⟩ := List.getElem?_eq_some_iff.mp present
    rw [List.length_singleton] at small
    exact Or.inr ⟨by omega, List.getElem_singleton _⟩

/-- A variable behind the others starts where they end. -/
theorem Arranged.declare {problem : Problem α} (arranged : problem.Arranged) (name : Option String)
    {count dim : Nat} (counted : 0 < count) (sized : 0 < dim)
    (room : problem.columns + count * dim * dim < columnLimit) :
    Arranged { problem with
      declared := problem.declared ++ [problem.fresh name count dim]
      columns := problem.columns + count * dim * dim } := by
  refine ⟨?_, ?_, ?_, ?_, ?_, room⟩
  · intro source member
    rcases List.mem_append.mp member with old | new
    · exact arranged.owner_eq source old
    · rw [List.mem_singleton.mp new]
      rfl
  · intro place source present
    rcases eq_or_eq_of_getElem?_concat present with old | ⟨rfl, rfl⟩
    · exact arranged.index_eq place source old
    · rfl
  · intro place source present
    have prefixed : place ≤ problem.declared.length →
        (problem.declared ++ [problem.fresh name count dim]).take place =
          problem.declared.take place := fun early => List.take_append_of_le_length early
    rcases eq_or_eq_of_getElem?_concat present with old | ⟨rfl, rfl⟩
    · have early := (List.getElem?_eq_some_iff.mp old).1
      show _ = totalSize ((problem.declared ++ [problem.fresh name count dim]).take place)
      rw [prefixed (Nat.le_of_lt early)]
      exact arranged.offset_eq place source old
    · show _ = totalSize ((problem.declared ++ [problem.fresh name count dim]).take
        problem.declared.length)
      rw [prefixed (Nat.le_refl _), List.take_length]
      exact arranged.columns_eq
  · intro source member
    rcases List.mem_append.mp member with old | new
    · exact arranged.positive source old
    · rw [List.mem_singleton.mp new]
      exact ⟨counted, sized⟩
  · show problem.columns + count * dim * dim = totalSize (problem.declared ++ [_])
    rw [totalSize_append, totalSize_cons, totalSize_nil, fresh_size, arranged.columns_eq,
      Nat.add_zero]

/-- Every change keeps the variables of a problem arranged, whichever handles it uses. -/
theorem Arranged.change [Scalar α] (problem : Problem α) (honest : Prop) (next : Problem α)
    (arranged : problem.Arranged) (change : Change problem honest next) : next.Arranged := by
  cases change with
  | nothing => exact arranged
  | declaration name count dim building counted sized room =>
    exact arranged.declare name counted sized room
  | objective sense expr building issued owned => exact { arranged with }
  | constraint expr relation bound building issued owned => exact { arranged with }
  | solution outcome value building valued => exact { arranged with }

/-- An honest change keeps a problem sound. -/
theorem Sound.change [Scalar α] (problem : Problem α) (honest : Prop) (next : Problem α)
    (fair : honest) (sound : problem.Sound) (change : Change problem honest next) :
    next.Sound where
  toArranged := Arranged.change problem honest next sound.toArranged change
  objective_over := by
    cases change with
    | nothing => exact sound.objective_over
    | declaration name count dim building counted sized room =>
      intro objective present
      exact (sound.objective_over objective present).mono fun source member =>
        List.mem_append_left _ member
    | objective sense expr building issued owned =>
      rintro objective ⟨rfl⟩
      exact over_of_accepted (issued fair) owned
    | constraint expr relation bound building issued owned => exact sound.objective_over
    | solution outcome value building valued => exact sound.objective_over
  constraints_over := by
    cases change with
    | nothing => exact sound.constraints_over
    | declaration name count dim building counted sized room =>
      intro constraint member
      exact (sound.constraints_over constraint member).mono fun source known =>
        List.mem_append_left _ known
    | objective sense expr building issued owned => exact sound.constraints_over
    | constraint expr relation bound building issued owned =>
      intro constraint member
      rcases List.mem_append.mp member with old | new
      · exact sound.constraints_over constraint old
      · rw [List.mem_singleton.mp new]
        exact over_of_accepted (issued fair) owned
    | solution outcome value building valued => exact sound.constraints_over

/-- The variables of a problem are arranged after every run, whichever handles it uses. -/
theorem Visited.arranged [Scalar α] {problem : Problem α} (visited : problem.Visited) :
    problem.Arranged := by
  obtain ⟨id, name, operations, rfl⟩ := visited
  exact run_induction Arranged.change (arranged_new id name) operations

/-- Every problem that can be reached is sound. -/
theorem Reachable.sound [Scalar α] {problem : Problem α} (reached : problem.Reachable) :
    problem.Sound := by
  obtain ⟨id, name, operations, honest, rfl⟩ := reached
  exact honestRun_induction Sound.change (sound_new id name) operations honest

/-! ### Consequences -/

namespace Arranged

variable {problem : Problem α}

theorem getElem?_index (arranged : problem.Arranged) {source : Variable}
    (known : source ∈ problem.declared) : problem.declared[source.index]? = some source := by
  obtain ⟨place, present⟩ := List.mem_iff_getElem?.mp known
  rw [arranged.index_eq place source present]
  exact present

theorem size_pos (arranged : problem.Arranged) {source : Variable}
    (known : source ∈ problem.declared) : 0 < source.size := by
  obtain ⟨counted, sized⟩ := arranged.positive source known
  rw [Variable.size_eq]
  exact Nat.mul_pos (Nat.mul_pos counted sized) sized

theorem offset_add_size_le (arranged : problem.Arranged) {place : Nat} {source : Variable}
    (present : problem.declared[place]? = some source) {later : Nat} (after : place < later) :
    source.offset + source.size ≤ totalSize (problem.declared.take later) := by
  rw [arranged.offset_eq place source present, totalSize_take_add_size present]
  have inner := totalSize_take_le (problem.declared.take later) (place + 1)
  rwa [List.take_take, Nat.min_eq_left after] at inner

/-- Every entry of a declared variable is a column. -/
theorem column_lt (arranged : problem.Arranged) {source : Variable}
    (known : source ∈ problem.declared) {index : Nat} (inside : index < source.size) :
    source.offset + index < problem.columns := by
  obtain ⟨place, present⟩ := List.mem_iff_getElem?.mp known
  have stop := arranged.offset_add_size_le present (Nat.lt_add_one place)
  have total := totalSize_take_le problem.declared (place + 1)
  rw [arranged.columns_eq]
  omega

/-- Two declared variables that start at the same column are the same. -/
theorem offset_injective (arranged : problem.Arranged) {left right : Variable}
    (leftKnown : left ∈ problem.declared) (rightKnown : right ∈ problem.declared)
    (same : left.offset = right.offset) : left = right := by
  obtain ⟨first, firstPresent⟩ := List.mem_iff_getElem?.mp leftKnown
  obtain ⟨second, secondPresent⟩ := List.mem_iff_getElem?.mp rightKnown
  have leftSize := arranged.size_pos leftKnown
  have rightSize := arranged.size_pos rightKnown
  rcases Nat.lt_trichotomy first second with before | rfl | after
  · have stop := arranged.offset_add_size_le firstPresent before
    rw [← arranged.offset_eq second right secondPresent] at stop
    omega
  · rw [firstPresent] at secondPresent
    exact Option.some.inj secondPresent
  · have stop := arranged.offset_add_size_le secondPresent after
    rw [← arranged.offset_eq first left firstPresent] at stop
    omega

theorem sameStartSameSize (arranged : problem.Arranged) :
    Gathered.SameStartSameSize problem.declared := by
  intro left leftKnown right rightKnown same
  rw [arranged.offset_injective leftKnown rightKnown same]

/-- The coefficients of an expression over declared variables name entries of every vector with a
level for each column. -/
theorem within_of_over [Scalar α] (arranged : problem.Arranged) {levels : Array α}
    (fits : levels.size = problem.columns) {expr : Expr α} (isOver : expr.Over problem.declared) :
    ∀ coeff ∈ expr.linearForm.columns, coeff.1 < levels.size := by
  intro coeff member
  rw [fits]
  obtain ⟨source, known, index, inside, column⟩ :=
    Expr.mem_columns arranged.sameStartSameSize isOver member
  rw [column]
  exact arranged.column_lt known inside

/-- The linear form of an expression over the declared variables evaluates to the exact value of
the expression. -/
theorem evaluate_linearForm {K : Type} [ExactScalar K] {problem : Problem K}
    (arranged : problem.Arranged) {levels : Array K} (fits : levels.size = problem.columns)
    {expr : Expr K} (isOver : expr.Over problem.declared) :
    expr.linearForm.evaluate levels = .ok (expr.valueAt (entryOf levels)) := by
  refine bind_eq_ok_iff.mpr ⟨_, weighedSum_exact (arranged.within_of_over fits isOver), ?_⟩
  rw [← Expr.value_linearForm isOver]
  rfl

end Arranged

end Problem

end BlockCone
