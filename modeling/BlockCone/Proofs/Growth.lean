/-
This file proves that a problem only grows.

Whatever is called on a problem, with whichever handles and backends, what was declared and what was
added stays where it is. Later variables come behind the earlier ones, and later constraints behind
the earlier ones. `Extends` says this of two states of a problem; every change keeps it, and it can
be chained, so it holds between any two points of a run.

The flat form of a problem takes this over. The cone of a variable depends on the variable alone,
and the row of a constraint on the constraint alone, not on how many columns there are. So a cone or
a row that was there once is there ever after, to the last bit, with new ones behind it.
-/

import BlockCone.Dump
import BlockCone.Proofs.WellFormed

namespace BlockCone

theorem getElem?_kept {β : Type} {earlier later : List β} (grown : earlier <+: later)
    {place : Nat} {entry : β} (present : earlier[place]? = some entry) :
    later[place]? = some entry := by
  obtain ⟨inside, rfl⟩ := List.getElem?_eq_some_iff.mp present
  exact List.prefix_iff_getElem?.mp grown place inside

namespace Problem

variable {α : Type} {problem next : Problem α}

/-- One state of a problem has what another one has, in the same places, and maybe more. -/
structure Extends (later earlier : Problem α) : Prop where
  declared_kept : earlier.declared <+: later.declared
  constraints_kept : earlier.constraints <+: later.constraints
  columns_le : earlier.columns ≤ later.columns

namespace Extends

theorem refl (problem : Problem α) : problem.Extends problem where
  declared_kept := List.prefix_rfl
  constraints_kept := List.prefix_rfl
  columns_le := Nat.le_refl _

theorem trans {first second third : Problem α} (later : third.Extends second)
    (earlier : second.Extends first) : third.Extends first where
  declared_kept := earlier.declared_kept.trans later.declared_kept
  constraints_kept := earlier.constraints_kept.trans later.constraints_kept
  columns_le := earlier.columns_le.trans later.columns_le

section Scalars

variable [Scalar α]

/-- Every change of a problem only adds to it. -/
theorem of_change {honest : Prop} (change : Change problem honest next) :
    next.Extends problem := by
  cases change with
  | nothing => exact .refl problem
  | declaration name count dim building counted sized room =>
    exact ⟨List.prefix_append _ _, List.prefix_rfl, Nat.le_add_right _ _⟩
  | objective sense expr building issued owned =>
    exact ⟨List.prefix_rfl, List.prefix_rfl, Nat.le_refl _⟩
  | constraint expr relation bound building issued owned =>
    exact ⟨List.prefix_rfl, List.prefix_append _ _, Nat.le_refl _⟩
  | solution outcome value building valued =>
    exact ⟨List.prefix_rfl, List.prefix_rfl, Nat.le_refl _⟩

theorem cones_kept {later earlier : Problem α} (grown : later.Extends earlier) :
    earlier.conicForm.cones <+: later.conicForm.cones :=
  grown.declared_kept.map _

theorem rows_kept {later earlier : Problem α} (grown : later.Extends earlier) :
    earlier.conicForm.constraints <+: later.conicForm.constraints :=
  grown.constraints_kept.map flatConstraint

end Scalars

end Extends

variable [Scalar α]

/-- A problem after a run has everything that it had before. -/
theorem extends_run (problem : Problem α) (later : List (Operation α)) :
    (problem.run later).Extends problem := by
  have keeps : ∀ between honest next, between.Extends problem → Change between honest next →
      next.Extends problem :=
    fun _ _ _ grown change => (Extends.of_change change).trans grown
  exact run_induction keeps (.refl problem) later

/-! ### What a call returns -/

/-- A handle is found under its number after the declaration that returned it. -/
theorem getElem?_of_declare {name : Option String} {count dim : Nat} {handle : Variable}
    (returned : problem.declare name count dim = .ok (handle, next)) :
    next.declared[handle.index]? = some handle := by
  obtain ⟨rfl, rfl, _⟩ := declare_eq_ok returned
  exact List.getElem?_concat_length

/-- A constraint is found under the number that was returned when it was added. -/
theorem getElem?_of_constrain {expr : Expr α} {domain : Domain α} {index : Nat}
    (returned : problem.constrain expr domain = .ok (index, next)) :
    ∃ relation bound, domain.relation? = some (relation, bound) ∧
      next.constraints[index]? = some ⟨index, expr, relation, bound⟩ := by
  obtain ⟨relation, bound, bounds, rfl, rfl, _⟩ := constrain_eq_ok returned
  exact ⟨relation, bound, bounds, List.getElem?_concat_length⟩

/-! ### Any two points of a run -/

/-- From any point of a run on, the variables keep their numbers and their offsets, each of which is
the total size of the variables before, and a constraint stays under the number that was returned
for it. The cones and the rows of the flat form stay, with new ones only behind them, and at every
point the cones are those of the dump and cover the columns. -/
theorem append_only {problem : Problem Float} (visited : problem.Visited)
    (later : List (Operation Float)) :
    (∀ place source, problem.declared[place]? = some source →
      (problem.run later).declared[place]? = some source ∧ source.index = place ∧
        source.offset = totalSize ((problem.run later).declared.take place)) ∧
      (∀ name count dim handle next, problem.declare name count dim = .ok (handle, next) →
        (next.run later).declared[handle.index]? = some handle) ∧
      (∀ expr domain index next, problem.constrain expr domain = .ok (index, next) →
        ∃ relation bound, domain.relation? = some (relation, bound) ∧
          (next.run later).constraints[index]? = some ⟨index, expr, relation, bound⟩) ∧
      problem.conicForm.cones <+: (problem.run later).conicForm.cones ∧
      problem.conicForm.constraints <+: (problem.run later).conicForm.constraints ∧
      problem.conicForm.columns ≤ (problem.run later).conicForm.columns ∧
      List.Forall₂ (fun described cone => described.domain = .semidefinite cone.dim cone.count ∧
        described.offset = cone.offset) problem.dump.declared problem.conicForm.cones ∧
      problem.conicForm.columns =
        (problem.declared.map fun source => source.blocks * source.dim * source.dim).foldr
          (· + ·) 0 := by
  have grown := problem.extends_run later
  refine ⟨?_, ?_, ?_, grown.cones_kept, grown.rows_kept, grown.columns_le, ?_, ?_⟩
  · intro place source present
    have stays := getElem?_kept grown.declared_kept present
    exact ⟨stays, visited.arranged.index_eq place source present,
      (visited.run later).arranged.offset_eq place source stays⟩
  · intro name count dim handle next returned
    exact getElem?_kept (next.extends_run later).declared_kept
      (getElem?_of_declare returned)
  · intro expr domain index next returned
    obtain ⟨relation, bound, bounds, kept⟩ := getElem?_of_constrain returned
    exact ⟨relation, bound, bounds,
      getElem?_kept (next.extends_run later).constraints_kept kept⟩
  · rw [cones_conicForm, dump, List.forall₂_map_left_iff, List.forall₂_map_right_iff,
      List.forall₂_same]
    exact fun source _ => ⟨rfl, rfl⟩
  · simp only [← Variable.size_eq]
    exact visited.arranged.columns_eq

end Problem

/-! ### A problem that grows -/

namespace Sample

/-- One block with the irregular inner product in its constraint. -/
def grown : Problem Float :=
  (Problem.new 0 none).run [.declare none 1 2, .constrain (.dot irregularTerm) (.greaterThan 1.0)]

/-- A second variable, an objective, a second constraint and a solve that is cut short. -/
def growth : List (Operation Float) :=
  [.declare (some "Y") 2 1, .setObjective .maximize (.dot irregularTerm),
    .constrain (.constant 0.0) (.lessThan 2.0), .attempt fun _ => .error .backendStopped]

end Sample

/-- The block and its row are the first of the flat form before and after the problem grows. -/
theorem Problem.append_only_grown :
    Sample.grown.Visited ∧
      (Sample.grown.run Sample.growth).declared[0]? = some Sample.handle ∧
      Sample.grown.conicForm.constraints <+:
        (Sample.grown.run Sample.growth).conicForm.constraints ∧
      Sample.grown.conicForm.constraints.length = 1 ∧
      (Sample.grown.run Sample.growth).conicForm.constraints.length = 2 := by
  have visited : Sample.grown.Visited := ⟨0, none, _, rfl⟩
  obtain ⟨declared, _, _, _, rows, _⟩ := append_only visited Sample.growth
  exact ⟨visited, (declared 0 Sample.handle rfl).1, rows, rfl, rfl⟩

end BlockCone
