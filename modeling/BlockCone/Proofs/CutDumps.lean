/-
This file proves that a dump that was cut short is never taken for a dump.

The text of a dump ends with the brace that closes it, and everything in it is closed by something
but its numbers, which are followed by a comma or a line break. So wherever the text is cut, inside
a number, a string, an escape, a name or a key, or between them, the reader finds it truncated. It
does not matter whether the reader finds the doubles of the dump again, because no head of the text
of a finite double is out of range for it. A double that is not finite is printed as `null`, which
is a mismatch as soon as it is complete, so the doubles have to be finite.
-/

import BlockCone.Proofs.CutRecords
import BlockCone.Proofs.SavedProblems

namespace BlockCone

open Json (Endures MemberEndures NeedsAll Reader endures_index endures_real endures_none
  endures_some_string endures_name endures_holding naturalLimit)

theorem endures_name? (name : Option String) :
    Endures Reader.string.optional (nameJson name) := by
  cases name with
  | none => exact endures_none rfl
  | some name => exact endures_some_string name

theorem Relation.endures (relation : Relation) : Endures Relation.reader relation.json := by
  cases relation <;> exact endures_name rfl

theorem Sense.endures (sense : Sense) : Endures Sense.reader sense.json := by
  cases sense <;> exact endures_name rfl

theorem Domain.endures {domain : Domain Float}
    (small : ∀ value ∈ domain.naturals, value < naturalLimit)
    (finite : ∀ value ∈ domain.doubles, value.isFinite = true) :
    Endures Domain.reader domain.json := by
  cases domain with
  | greaterThan bound =>
    exact endures_holding rfl
      ((endures_real (finite bound List.mem_cons_self)).map Domain.greaterThan)
  | lessThan bound =>
    exact endures_holding rfl ((endures_real (finite bound List.mem_cons_self)).map Domain.lessThan)
  | equalsTo bound =>
    exact endures_holding rfl ((endures_real (finite bound List.mem_cons_self)).map Domain.equalsTo)
  | semidefinite dim count =>
    have sizes : Endures semidefiniteLayout.reader
        (.object [("dim", .natural dim), ("count", .natural count)]) :=
      .record (by decide)
        (.cons (.of (endures_index (small dim (by simp [naturals]))))
          (.cons (.of (endures_index (small count (by simp [naturals])))) .nil))
    exact endures_holding rfl
      (sizes.map fun sizes => (Domain.semidefinite sizes.1 sizes.2 : Domain Float))

theorem Cone.endures {cone : Cone} (small : ∀ value ∈ cone.naturals, value < naturalLimit) :
    Endures Cone.layout.reader cone.json :=
  .record (by decide)
    (.cons (.of (endures_name rfl))
      (.cons (.of (endures_index (small cone.dim (by simp [naturals]))))
        (.cons (.of (endures_index (small cone.count (by simp [naturals]))))
          (.cons (.of (endures_index (small cone.offset (by simp [naturals])))) .nil))))

theorem endures_coeffs {coeffs : List (Nat × Float)}
    (small : ∀ value ∈ coeffs.map Prod.fst, value < naturalLimit)
    (finite : ∀ value ∈ coeffs.map Prod.snd, value.isFinite = true) :
    Endures coeffsReader (coeffsJson coeffs) := by
  refine .array (List.forall_mem_map.mpr fun coeff member => ?_)
  exact .pair (endures_index (small coeff.1 (List.mem_map_of_mem member)))
    (endures_real (finite coeff.2 (List.mem_map_of_mem member)))

theorem LinearObjective.endures {objective : LinearObjective Float}
    (small : ∀ value ∈ objective.coeffs.map Prod.fst, value < naturalLimit)
    (finite : ∀ value ∈ objective.doubles, value.isFinite = true) :
    Endures LinearObjective.layout.reader objective.json := by
  obtain ⟨coeffsFinite, constantFinite⟩ := List.forall_mem_append.mp finite
  exact .record (by decide)
    (.cons (.of objective.sense.endures)
      (.cons (.of (endures_coeffs small coeffsFinite))
        (.cons (.of (endures_real (constantFinite _ List.mem_cons_self))) .nil)))

theorem LinearConstraint.endures {constraint : LinearConstraint Float}
    (small : ∀ value ∈ constraint.coeffs.map Prod.fst, value < naturalLimit)
    (finite : ∀ value ∈ constraint.doubles, value.isFinite = true) :
    Endures LinearConstraint.layout.reader constraint.json := by
  obtain ⟨coeffsFinite, boundFinite⟩ := List.forall_mem_append.mp finite
  exact .record (by decide)
    (.cons (.of (endures_coeffs small coeffsFinite))
      (.cons (.of constraint.relation.endures)
        (.cons (.of (endures_real (boundFinite _ List.mem_cons_self))) .nil)))

theorem ConicProblem.endures {problem : ConicProblem Float}
    (small : ∀ value ∈ problem.naturals, value < naturalLimit)
    (finite : ∀ value ∈ problem.doubles, value.isFinite = true) :
    Endures ConicProblem.layout.reader problem.json := by
  obtain ⟨objectiveFinite, constraintsFinite⟩ := List.forall_mem_append.mp finite
  obtain ⟨conesSmall, coeffsSmall⟩ := List.forall_mem_append.mp small
  obtain ⟨columnsSmall, conesSmall⟩ := List.forall_mem_cons.mp conesSmall
  obtain ⟨objectiveSmall, constraintsSmall⟩ := List.forall_mem_append.mp coeffsSmall
  have cones : Endures (Reader.array Cone.layout.reader) (.array (problem.cones.map Cone.json)) :=
    .array (List.forall_mem_map.mpr fun cone member =>
      Cone.endures fun value listed => conesSmall value (List.mem_flatMap_of_mem member listed))
  have constraints : Endures (Reader.array LinearConstraint.layout.reader)
      (.array (problem.constraints.map LinearConstraint.json)) :=
    .array (List.forall_mem_map.mpr fun constraint member => LinearConstraint.endures
      (fun value listed => constraintsSmall value (List.mem_flatMap_of_mem member listed))
      fun value listed => constraintsFinite value (List.mem_flatMap_of_mem member listed))
  exact .record (by decide)
    (.cons (.of (endures_index columnsSmall))
      (.cons (.of cones)
        (.cons (.of (LinearObjective.endures objectiveSmall objectiveFinite))
          (.cons (.of constraints) .nil))))

theorem VariableDump.endures {dump : VariableDump}
    (small : ∀ value ∈ dump.naturals, value < naturalLimit)
    (finite : ∀ value ∈ dump.domain.doubles, value.isFinite = true) :
    Endures VariableDump.layout.reader dump.json := by
  obtain ⟨indexSmall, later⟩ := List.forall_mem_cons.mp small
  obtain ⟨domainSmall, offsetSmall⟩ := List.forall_mem_append.mp later
  exact .record (by decide)
    (.cons (.of (endures_index indexSmall))
      (.cons (.of (endures_name? dump.name))
        (.cons (.of (Domain.endures domainSmall finite))
          (.cons (.of (endures_index (offsetSmall _ List.mem_cons_self))) .nil))))

/-- The text of a dump of finite doubles is needed to its last character. -/
theorem ProblemDump.needsAll {dump : ProblemDump}
    (small : ∀ value ∈ dump.naturals, value < naturalLimit)
    (finite : ∀ value ∈ dump.doubles, value.isFinite = true) (spacing : Json.Spacing)
    (level : Nat) :
    NeedsAll ProblemDump.layout.reader (dump.json.chars spacing level) := by
  obtain ⟨declaredSmall, conicSmall⟩ := List.forall_mem_append.mp small
  obtain ⟨declaredFinite, conicFinite⟩ := List.forall_mem_append.mp finite
  have declared : Endures (Reader.array VariableDump.layout.reader)
      (.array (dump.declared.map VariableDump.json)) :=
    .array (List.forall_mem_map.mpr fun source member => VariableDump.endures
      (fun value listed => declaredSmall value (List.mem_flatMap_of_mem member listed))
      fun value listed => declaredFinite value (List.mem_flatMap_of_mem member listed))
  exact Json.needsAll_record (by decide)
    (.cons (.of (endures_name? dump.name))
      (.cons (.of declared)
        (.cons (.of (ConicProblem.endures conicSmall conicFinite)) .nil))) spacing level

/-- A dump of finite doubles that was cut short, wherever that is, is read as a truncated text. -/
theorem ProblemDump.ofText_cutShort {dump : ProblemDump}
    (small : ∀ value ∈ dump.naturals, value < naturalLimit)
    (finite : ∀ value ∈ dump.doubles, value.isFinite = true) {part : String}
    (cut : part.toList <+: dump.toText.toList) (proper : part ≠ dump.toText) :
    ofText part = .error (.unreadable .truncated) :=
  (needsAll small finite .indented 0).run_print cut proper

/-- A dump with an escape in its name and a number of two digits. -/
def Sample.numbered : ProblemDump :=
  { name := some "\x01"
    declared := [⟨12, none, .semidefinite 2 1, 0⟩]
    conic := ⟨3, [⟨2, 1, 0⟩], ⟨.minimize, [(1, 0.25)], -0.0⟩, []⟩ }

/-- The text of a dump is cut inside an escape, and inside a number behind its first digit. -/
theorem ProblemDump.ofText_cutShort_numbered :
    ofText "\x7b\n  \"name\": \"\\u00" = .error (.unreadable .truncated) ∧
      ofText "\x7b\n  \"name\": \"\\u0001\",\n  \"variables\": [\n    \x7b\n      \"index\": 1" =
        .error (.unreadable .truncated) := by
  have small : ∀ value ∈ Sample.numbered.naturals, value < naturalLimit := by
    show ∀ value ∈ [12, 2, 1, 0, 3, 2, 1, 0, 1], value < naturalLimit
    decide
  have finite : ∀ value ∈ Sample.numbered.doubles, value.isFinite = true := by
    decide +kernel
  have written : Sample.numbered.toText.toList = Sample.numbered.json.chars .indented 0 :=
    String.toList_ofList
  have shorter {part : String}
      (short : part.toList ≠ Sample.numbered.json.chars .indented 0) :
      part ≠ Sample.numbered.toText :=
    fun same => short (same ▸ written)
  refine ⟨ofText_cutShort small finite ?_ (shorter ?_),
    ofText_cutShort small finite ?_ (shorter ?_)⟩
  · rw [written]
    decide +kernel
  · decide +kernel
  · rw [written]
    decide +kernel
  · decide +kernel

end BlockCone
