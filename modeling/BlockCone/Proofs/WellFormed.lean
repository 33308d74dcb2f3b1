/-
This file proves that the flat form of a problem is well formed and can be lowered.

A flat problem is well formed if the coefficients of its objective and of its constraints are
canonical and its cones tile the columns, each starting where the one before it ended. The cones
of a tiling have as many columns as they span and end inside of them, and canonical coefficients
name only columns that are there. That is all that lowering looks at, and also what it fails to
look at, so a well formed problem is refused for the size of a block and for nothing else.

Every problem that can be reached has such a flat form. Nothing is asked of its numbers: a
coefficient may be infinite or not a number at all.
-/

import BlockCone.Proofs.CanonicalRows
import BlockCone.Proofs.NamedColumns

namespace BlockCone

/-! ### Tilings -/

/-- The cones follow each other from one column to another, without a gap and without overlap. -/
def Cone.Tiles : Nat → List Cone → Nat → Prop
  | start, [], stop => start = stop
  | start, cone :: rest, stop => cone.offset = start ∧ Tiles (start + cone.size) rest stop

namespace Cone.Tiles

variable {start stop column : Nat} {cones : List Cone}

/-- The cones of a tiling have as many columns as it spans. -/
theorem total (tiles : Tiles start cones stop) :
    start + (cones.map Cone.size).foldr (· + ·) 0 = stop := by
  induction cones generalizing start with
  | nil => exact tiles
  | cons first rest inductionHypothesis =>
    rw [← inductionHypothesis tiles.2, List.map_cons, List.foldr_cons, Nat.add_assoc]

theorem bounds (tiles : Tiles start cones stop) {cone : Cone} (member : cone ∈ cones) :
    start ≤ cone.offset ∧ cone.offset + cone.size ≤ stop := by
  induction cones generalizing start with
  | nil => exact absurd member List.not_mem_nil
  | cons first rest inductionHypothesis =>
    obtain ⟨rfl, tilesRest⟩ := tiles
    rcases List.mem_cons.mp member with rfl | later
    · exact ⟨Nat.le_refl _, Nat.le.intro tilesRest.total⟩
    · obtain ⟨after, inside⟩ := inductionHypothesis tilesRest later
      exact ⟨(Nat.le_add_right _ _).trans after, inside⟩

/-- Every column that a tiling spans lies in exactly one of its cones. -/
theorem existsUnique_cone (tiles : Tiles start cones stop) (after : start ≤ column)
    (before : column < stop) :
    ∃! place : Nat, ∃ cone : Cone, cones[place]? = some cone ∧ cone.offset ≤ column ∧
      column < cone.offset + cone.size := by
  induction cones generalizing start with
  | nil =>
    obtain rfl : start = stop := tiles
    exact absurd after (Nat.not_le.mpr before)
  | cons first rest inductionHypothesis =>
    obtain ⟨rfl, tilesRest⟩ := tiles
    by_cases here : column < first.offset + first.size
    · refine ⟨0, ⟨first, rfl, after, here⟩, ?_⟩
      rintro (_ | place) ⟨cone, present, notAfter, _⟩
      · rfl
      · have late := (tilesRest.bounds (List.mem_of_getElem? present)).1
        omega
    · obtain ⟨place, ⟨cone, present, inside⟩, unique⟩ :=
        inductionHypothesis tilesRest (Nat.le_of_not_lt here)
      refine ⟨place + 1, ⟨cone, present, inside⟩, ?_⟩
      rintro (_ | other) ⟨found, foundPresent, foundInside⟩
      · obtain rfl : first = found := Option.some.inj foundPresent
        exact absurd foundInside.2 here
      · rw [unique other ⟨found, foundPresent, foundInside⟩]

end Cone.Tiles

/-! ### Well formed flat problems -/

section Scalars

variable {α : Type} [Scalar α]

/-- Canonical coefficients over columns that the cones tile. -/
structure ConicProblem.WellFormed (problem : ConicProblem α) : Prop where
  objective : IsCanonical problem.columns problem.objective.coeffs
  constraint : ∀ constraint ∈ problem.constraints, IsCanonical problem.columns constraint.coeffs
  tiles : Cone.Tiles 0 problem.cones problem.columns

namespace ConicProblem.WellFormed

variable {problem : ConicProblem α}

theorem checkColumns_eq_ok (wellFormed : problem.WellFormed) :
    StandardForm.checkColumns problem = .ok () := by
  refine StandardForm.checkColumns_eq_ok_iff.mpr ⟨?_, wellFormed.objective.within, ?_⟩
  · exact (Nat.zero_add _).symm.trans wellFormed.tiles.total
  · exact fun constraint member => (wellFormed.constraint constraint member).within

/-- A well formed problem is refused only for a block that no cone can hold. -/
theorem ofConic_eq_error_iff (wellFormed : problem.WellFormed) {triangleCone : Bool}
    {reason : Error} :
    StandardForm.ofConic triangleCone problem = .error reason ↔
      triangleCone = false ∧ ∃ cone,
        problem.cones.find? (fun cone => decide (2 < cone.dim)) = some cone ∧
          reason = .invalidProblem (.largeBlock cone.dim) := by
  have fits : ¬ ∃ cone ∈ problem.cones, ¬ cone.Fits problem.columns := by
    rintro ⟨cone, known, sticksOut⟩
    exact sticksOut fun _ _ => (wellFormed.tiles.bounds known).2
  simp only [StandardForm.ofConic_eq_error_iff, wellFormed.checkColumns_eq_ok, fits, reduceCtorEq,
    and_false, or_false, false_or, true_and]
  exact StandardForm.checkBlocks_eq_error_iff

end ConicProblem.WellFormed

/-! ### Flat forms -/

/-- The cone of a variable. -/
def Variable.cone (source : Variable) : Cone :=
  ⟨source.dim, source.blocks, source.offset⟩

theorem Variable.size_cone (source : Variable) : source.cone.size = source.size :=
  source.size_eq.symm

theorem Problem.cones_conicForm (problem : Problem α) :
    problem.conicForm.cones = problem.declared.map Variable.cone := rfl

/-- Variables that start where those before them end have cones that tile the columns. -/
theorem tiles_declared {start : Nat} {declared : List Variable}
    (consecutive : ∀ (place : Nat) (source : Variable), declared[place]? = some source →
      source.offset = start + totalSize (declared.take place)) :
    Cone.Tiles start (declared.map Variable.cone) (start + totalSize declared) := by
  induction declared generalizing start with
  | nil => rfl
  | cons first rest inductionHypothesis =>
    refine ⟨consecutive 0 first rfl, ?_⟩
    rw [Variable.size_cone, totalSize_cons, ← Nat.add_assoc]
    refine inductionHypothesis fun place source present => ?_
    rw [consecutive (place + 1) source present, List.take_succ_cons, totalSize_cons,
      Nat.add_assoc]

namespace Problem

variable {problem : Problem α}

theorem Sound.wellFormed (sound : problem.Sound) : problem.conicForm.WellFormed where
  objective := by
    cases present : problem.objective with
    | none =>
      simp only [conicForm, present, flatObjective, LinearObjective.feasibility]
      exact ⟨List.Pairwise.nil, by simp, by simp⟩
    | some objective =>
      simp only [conicForm, present, flatObjective]
      exact sound.isCanonical (sound.objective_over objective present)
  constraint := by
    intro flat member
    obtain ⟨constraint, known, rfl⟩ := List.mem_map.mp member
    exact sound.isCanonical (sound.constraints_over constraint known)
  tiles := by
    have tiles : Cone.Tiles 0 (problem.declared.map Variable.cone)
        (0 + totalSize problem.declared) := by
      refine tiles_declared fun place source present => ?_
      rw [sound.offset_eq place source present, Nat.zero_add]
    rwa [Nat.zero_add, ← sound.columns_eq] at tiles

/-- The flat form of every problem that can be reached is well formed, its cones are those of the
variables in the order of their declarations, and lowering it fails exactly if there is no cone
for triangles and some variable needs one, naming the dimension of the first that does. -/
theorem conicForm_wellFormed (reached : problem.Reachable) :
    problem.conicForm.WellFormed ∧ problem.conicForm.columns = problem.columns ∧
      problem.conicForm.cones = problem.declared.map Variable.cone ∧
      (∀ column < problem.columns, ∃! place : Nat, ∃ cone : Cone,
        problem.conicForm.cones[place]? = some cone ∧ cone.offset ≤ column ∧
          column < cone.offset + cone.size) ∧
      ∀ (triangleCone : Bool) (reason : Error),
        StandardForm.ofConic triangleCone problem.conicForm = .error reason ↔
          triangleCone = false ∧ ∃ source,
            problem.declared.find? (fun source => decide (2 < source.dim)) = some source ∧
              reason = .invalidProblem (.largeBlock source.dim) := by
  have wellFormed := reached.sound.wellFormed
  refine ⟨wellFormed, rfl, rfl, fun column inside => ?_, fun triangleCone reason => ?_⟩
  · exact wellFormed.tiles.existsUnique_cone (Nat.zero_le column) inside
  · rw [wellFormed.ofConic_eq_error_iff, cones_conicForm, List.find?_map]
    simp only [Option.map_eq_some_iff, exists_exists_and_eq_and]
    rfl

end Problem

end Scalars

/-! ### Irregular numbers -/

namespace Sample

/-- An inner product whose weights are not a number, zero, infinite and the other zero. -/
def irregularTerm : DotTerm Float := ⟨⟨2, 2, [0.0 / 0.0, 0.0, 1.0 / 0.0, -0.0], rfl⟩, block, rfl⟩

/-- Declares a small and a large block and makes the inner product large. -/
def irregularOperations : List (Operation Float) :=
  [.declare none 1 2, .declare none 1 3, .setObjective .maximize (.dot irregularTerm)]

/-- The problem that they lead to. -/
def irregularProblem : Problem Float := (Problem.new 0 none).run irregularOperations

theorem irregular_reachable : irregularProblem.Reachable := by
  refine ⟨0, none, irregularOperations, ⟨trivial, trivial, ?_, trivial⟩, rfl⟩
  intro used listed
  obtain rfl : used = irregularTerm := List.mem_singleton.mp listed
  exact ⟨.block block_cut, fun _ => by decide⟩

end Sample

/-- The irregular problem is well formed, and whether it can be lowered depends on the cone for
its large block. -/
theorem Problem.conicForm_wellFormed_irregular :
    Sample.irregularProblem.Reachable ∧ Sample.irregularProblem.conicForm.WellFormed ∧
      StandardForm.ofConic false Sample.irregularProblem.conicForm =
        .error (.invalidProblem (.largeBlock 3)) ∧
      ∃ form, StandardForm.ofConic true Sample.irregularProblem.conicForm = .ok form := by
  obtain ⟨wellFormed, _, _, _, fails⟩ := conicForm_wellFormed Sample.irregular_reachable
  refine ⟨Sample.irregular_reachable, wellFormed, (fails false _).mpr ⟨rfl, _, rfl, rfl⟩, ?_⟩
  cases lowered : StandardForm.ofConic true Sample.irregularProblem.conicForm with
  | ok form => exact ⟨form, rfl⟩
  | error reason => exact absurd ((fails true reason).mp lowered).1 Bool.noConfusion

end BlockCone
