/-
This file proves what becomes of a problem that is saved and read back.

The text of a dump is made of records, lists, alternatives, names, natural numbers and doubles, and
each part of it is recalled by the reader of that part. So a dump comes back exactly as it was,
whatever its names are, if its numbers can be written down at all: the natural numbers have to fit
into 64 bits, and the doubles have to be finite. If one of them is not, reading fails with a
mismatch, and never gives another dump. The doubles of the dump are compared by their bits here, so
a negative zero stays one.

The reader does not find every double again, so that a double is read back from its own text is a
hypothesis, for the doubles that occur. For the dump of a problem that was built up by calls the
condition on the natural numbers always holds.
-/

import BlockCone.Proofs.CanonicalRows
import BlockCone.Proofs.JsonRecords
import BlockCone.Dump

namespace BlockCone

open Json (Recalls InOrder Reader recalls_name recalls_holding recalls_real recalls_index
  recalls_none recalls_some_string recalls_array recalls_array_plain recalls_pair naturalLimit)

/-! ### The numbers of a dump -/

/-- The doubles of a domain. -/
def Domain.doubles : Domain Float → List Float
  | .greaterThan bound => [bound]
  | .lessThan bound => [bound]
  | .equalsTo bound => [bound]
  | .semidefinite _ _ => []

/-- The natural numbers of a domain. -/
def Domain.naturals : Domain Float → List Nat
  | .semidefinite dim count => [dim, count]
  | _ => []

/-- The natural numbers of a cone. -/
def Cone.naturals (cone : Cone) : List Nat :=
  [cone.dim, cone.count, cone.offset]

/-- The doubles of an objective. -/
def LinearObjective.doubles (objective : LinearObjective Float) : List Float :=
  objective.coeffs.map Prod.snd ++ [objective.constant]

/-- The doubles of a constraint. -/
def LinearConstraint.doubles (constraint : LinearConstraint Float) : List Float :=
  constraint.coeffs.map Prod.snd ++ [constraint.bound]

/-- The doubles of a flat problem. -/
def ConicProblem.doubles (problem : ConicProblem Float) : List Float :=
  problem.objective.doubles ++ problem.constraints.flatMap LinearConstraint.doubles

/-- The natural numbers of a flat problem. -/
def ConicProblem.naturals (problem : ConicProblem Float) : List Nat :=
  problem.columns :: problem.cones.flatMap Cone.naturals ++
    (problem.objective.coeffs.map Prod.fst ++
      problem.constraints.flatMap fun constraint => constraint.coeffs.map Prod.fst)

/-- The natural numbers of a variable of a dump. -/
def VariableDump.naturals (dump : VariableDump) : List Nat :=
  dump.index :: dump.domain.naturals ++ [dump.offset]

/-- All doubles of a dump: bounds, coefficients and constants. -/
def ProblemDump.doubles (dump : ProblemDump) : List Float :=
  (dump.declared.flatMap fun source => source.domain.doubles) ++ dump.conic.doubles

/-- All natural numbers of a dump. -/
def ProblemDump.naturals (dump : ProblemDump) : List Nat :=
  dump.declared.flatMap VariableDump.naturals ++ dump.conic.naturals

/-! ### Parts of a dump -/

theorem recalls_name? (name : Option String) :
    Recalls Reader.string.optional (nameJson name) [] name := by
  cases name with
  | none => exact recalls_none Reader.string
  | some name => exact recalls_some_string name

theorem Relation.recalls (relation : Relation) :
    Recalls Relation.reader relation.json [] relation := by
  cases relation <;> exact recalls_name rfl

theorem Sense.recalls (sense : Sense) : Recalls Sense.reader sense.json [] sense := by
  cases sense <;> exact recalls_name rfl

theorem Domain.recalls {domain : Domain Float}
    (small : ∀ value ∈ domain.naturals, value < naturalLimit)
    (reads : ∀ value ∈ domain.doubles, Decimal.ReadsBack value) :
    Recalls Domain.reader domain.json domain.doubles domain := by
  cases domain with
  | greaterThan bound =>
    exact recalls_holding rfl
      ((recalls_real (reads bound List.mem_cons_self)).map Domain.greaterThan)
  | lessThan bound =>
    exact recalls_holding rfl ((recalls_real (reads bound List.mem_cons_self)).map Domain.lessThan)
  | equalsTo bound =>
    exact recalls_holding rfl ((recalls_real (reads bound List.mem_cons_self)).map Domain.equalsTo)
  | semidefinite dim count =>
    have sizes : Recalls semidefiniteLayout.reader
        (.object [("dim", .natural dim), ("count", .natural count)]) [] (dim, count) :=
      InOrder.recalls (by decide)
        (.plain (recalls_index (small dim (by simp [naturals])))
          (.plain (recalls_index (small count (by simp [naturals]))) (.done _)))
    exact recalls_holding rfl
      (sizes.map fun sizes => (Domain.semidefinite sizes.1 sizes.2 : Domain Float))

theorem Cone.recalls {cone : Cone} (small : ∀ value ∈ cone.naturals, value < naturalLimit) :
    Recalls Cone.layout.reader cone.json [] cone :=
  InOrder.recalls (by decide)
    (.plain (recalls_name rfl)
      (.plain (recalls_index (small cone.dim (by simp [naturals])))
        (.plain (recalls_index (small cone.count (by simp [naturals])))
          (.plain (recalls_index (small cone.offset (by simp [naturals]))) (.done _)))))

theorem recalls_coeffs {coeffs : List (Nat × Float)}
    (small : ∀ value ∈ coeffs.map Prod.fst, value < naturalLimit)
    (reads : ∀ value ∈ coeffs.map Prod.snd, Decimal.ReadsBack value) :
    Recalls coeffsReader (coeffsJson coeffs) (coeffs.map Prod.snd) coeffs := by
  have each : ∀ coeff ∈ coeffs, Recalls (Reader.pair Reader.index Reader.real)
      (.array [.natural coeff.1, .real coeff.2]) [coeff.2] coeff := by
    intro coeff member
    exact recalls_pair (recalls_index (small coeff.1 (List.mem_map_of_mem member)))
      (recalls_real (reads coeff.2 (List.mem_map_of_mem member)))
  have all := recalls_array coeffs each
  rwa [← List.map_eq_flatMap] at all

theorem LinearObjective.recalls {objective : LinearObjective Float}
    (small : ∀ value ∈ objective.coeffs.map Prod.fst, value < naturalLimit)
    (reads : ∀ value ∈ objective.doubles, Decimal.ReadsBack value) :
    Recalls LinearObjective.layout.reader objective.json objective.doubles objective := by
  obtain ⟨coeffReads, constantReads⟩ := List.forall_mem_append.mp reads
  exact InOrder.recalls (by decide)
    (.plain objective.sense.recalls
      (.of (recalls_coeffs small coeffReads)
        (.of (recalls_real (constantReads _ List.mem_cons_self)) (.done _))))

theorem LinearConstraint.recalls {constraint : LinearConstraint Float}
    (small : ∀ value ∈ constraint.coeffs.map Prod.fst, value < naturalLimit)
    (reads : ∀ value ∈ constraint.doubles, Decimal.ReadsBack value) :
    Recalls LinearConstraint.layout.reader constraint.json constraint.doubles constraint := by
  obtain ⟨coeffReads, boundReads⟩ := List.forall_mem_append.mp reads
  exact InOrder.recalls (by decide)
    (.of (recalls_coeffs small coeffReads)
      (.plain constraint.relation.recalls
        (.of (recalls_real (boundReads _ List.mem_cons_self)) (.done _))))

theorem ConicProblem.recalls {problem : ConicProblem Float}
    (small : ∀ value ∈ problem.naturals, value < naturalLimit)
    (reads : ∀ value ∈ problem.doubles, Decimal.ReadsBack value) :
    Recalls ConicProblem.layout.reader problem.json problem.doubles problem := by
  obtain ⟨objectiveReads, constraintReads⟩ := List.forall_mem_append.mp reads
  obtain ⟨coneSmall, coeffSmall⟩ := List.forall_mem_append.mp small
  obtain ⟨columnsSmall, coneSmall⟩ := List.forall_mem_cons.mp coneSmall
  obtain ⟨objectiveSmall, constraintSmall⟩ := List.forall_mem_append.mp coeffSmall
  have cones : Recalls (Reader.array Cone.layout.reader)
      (.array (problem.cones.map Cone.json)) [] problem.cones :=
    recalls_array_plain problem.cones fun cone member =>
      Cone.recalls fun value listed => coneSmall value (List.mem_flatMap_of_mem member listed)
  have constraints : Recalls (Reader.array LinearConstraint.layout.reader)
      (.array (problem.constraints.map LinearConstraint.json))
      (problem.constraints.flatMap LinearConstraint.doubles) problem.constraints :=
    recalls_array problem.constraints fun constraint member =>
      LinearConstraint.recalls
        (fun value listed => constraintSmall value (List.mem_flatMap_of_mem member listed))
        fun value listed => constraintReads value (List.mem_flatMap_of_mem member listed)
  have whole : Recalls ConicProblem.layout.reader problem.json
      (problem.objective.doubles ++
        (problem.constraints.flatMap LinearConstraint.doubles ++ [])) problem :=
    InOrder.recalls (by decide)
      (.plain (recalls_index columnsSmall)
        (.plain cones
          (.of (LinearObjective.recalls objectiveSmall objectiveReads)
            (.of constraints (.done _)))))
  rwa [List.append_nil] at whole

theorem VariableDump.recalls {dump : VariableDump}
    (small : ∀ value ∈ dump.naturals, value < naturalLimit)
    (reads : ∀ value ∈ dump.domain.doubles, Decimal.ReadsBack value) :
    Recalls VariableDump.layout.reader dump.json dump.domain.doubles dump := by
  obtain ⟨indexSmall, later⟩ := List.forall_mem_cons.mp small
  obtain ⟨domainSmall, offsetSmall⟩ := List.forall_mem_append.mp later
  have whole : Recalls VariableDump.layout.reader dump.json (dump.domain.doubles ++ []) dump :=
    InOrder.recalls (by decide)
      (.plain (recalls_index indexSmall)
        (.plain (recalls_name? dump.name)
          (.of (Domain.recalls domainSmall reads)
            (.plain (recalls_index (offsetSmall _ List.mem_cons_self)) (.done _)))))
  rwa [List.append_nil] at whole

theorem ProblemDump.recalls {dump : ProblemDump}
    (small : ∀ value ∈ dump.naturals, value < naturalLimit)
    (reads : ∀ value ∈ dump.doubles, Decimal.ReadsBack value) :
    Recalls ProblemDump.layout.reader dump.json dump.doubles dump := by
  obtain ⟨declaredSmall, conicSmall⟩ := List.forall_mem_append.mp small
  obtain ⟨declaredReads, conicReads⟩ := List.forall_mem_append.mp reads
  have declared : Recalls (Reader.array VariableDump.layout.reader)
      (.array (dump.declared.map VariableDump.json))
      (dump.declared.flatMap fun source => source.domain.doubles) dump.declared :=
    recalls_array dump.declared fun source member =>
      VariableDump.recalls
        (fun value listed => declaredSmall value (List.mem_flatMap_of_mem member listed))
        fun value listed => declaredReads value (List.mem_flatMap_of_mem member listed)
  have whole : Recalls ProblemDump.layout.reader dump.json
      ((dump.declared.flatMap fun source => source.domain.doubles) ++ (dump.conic.doubles ++ []))
      dump :=
    InOrder.recalls (by decide)
      (.plain (recalls_name? dump.name)
        (.of declared (.of (ConicProblem.recalls conicSmall conicReads) (.done _))))
  rwa [List.append_nil] at whole

/-- Reading the text of a dump gives the dump if its doubles are finite, and a mismatch if not. -/
theorem ProblemDump.ofText_toText {dump : ProblemDump}
    (small : ∀ value ∈ dump.naturals, value < naturalLimit)
    (reads : ∀ value ∈ dump.doubles, Decimal.ReadsBack value) :
    ofText dump.toText =
      if dump.doubles.all Float.isFinite then .ok dump else .error (.unreadable .mismatched) :=
  (recalls small reads).run_print .indented

/-! ### The dump of a problem -/

theorem length_le_totalSize {declared : List Variable}
    (positive : ∀ source ∈ declared, 0 < source.size) : declared.length ≤ totalSize declared := by
  induction declared with
  | nil => exact Nat.le_refl 0
  | cons first rest inductionHypothesis =>
    obtain ⟨firstPositive, restPositive⟩ := List.forall_mem_cons.mp positive
    have deeper := inductionHypothesis restPositive
    rw [totalSize_cons, List.length_cons]
    omega

namespace Problem

section Sizes

variable {α : Type} {problem : Problem α}

/-- What a dump says of a declared variable is less than the number of column numbers. -/
theorem Arranged.numbers_lt (arranged : problem.Arranged) {source : Variable}
    (known : source ∈ problem.declared) :
    source.index < naturalLimit ∧ source.dim < naturalLimit ∧ source.blocks < naturalLimit ∧
      source.offset < naturalLimit := by
  have limited : problem.columns < naturalLimit := arranged.columns_lt
  obtain ⟨place, present⟩ := List.mem_iff_getElem?.mp known
  obtain ⟨counted, sized⟩ := arranged.positive source known
  have size := Variable.size_eq source
  have startInside := arranged.column_lt known (arranged.size_pos known)
  have endInside := arranged.column_lt known (Nat.sub_lt (arranged.size_pos known) Nat.one_pos)
  have dimLe : source.dim ≤ source.size := by
    rw [size]
    exact Nat.le_mul_of_pos_left _ (Nat.mul_pos counted sized)
  have blocksLe : source.blocks ≤ source.size := by
    rw [size, Nat.mul_assoc]
    exact Nat.le_mul_of_pos_right _ (Nat.mul_pos sized sized)
  have indexLe : source.index ≤ source.offset := by
    have earlier := length_le_totalSize fun other member =>
      arranged.size_pos (List.mem_of_mem_take (i := place) member)
    rw [List.length_take, ← arranged.offset_eq place source present] at earlier
    rw [arranged.index_eq place source present]
    have bound := (List.getElem?_eq_some_iff.mp present).1
    omega
  omega

end Sizes

/-- The natural numbers in the dump of a sound problem fit into 64 bits. -/
theorem Sound.dump_naturals_lt {problem : Problem Float} (sound : problem.Sound) :
    ∀ value ∈ problem.dump.naturals, value < naturalLimit := by
  have limited : problem.columns < naturalLimit := sound.columns_lt
  have coeffs {expr : Expr Float} (isOver : expr.Over problem.declared) :
      ∀ value ∈ expr.linearForm.columns.map Prod.fst, value < naturalLimit := by
    intro value member
    obtain ⟨coeff, listed, rfl⟩ := List.mem_map.mp member
    exact ((sound.isCanonical isOver).within coeff listed).trans limited
  have declared : ∀ value ∈ problem.dump.declared.flatMap VariableDump.naturals,
      value < naturalLimit := by
    intro value member
    obtain ⟨dumped, dumpedMember, listed⟩ := List.mem_flatMap.mp member
    obtain ⟨source, known, rfl⟩ := List.mem_map.mp dumpedMember
    obtain ⟨index, dim, blocks, offset⟩ := sound.numbers_lt known
    simp only [VariableDump.naturals, Variable.domain, Domain.naturals, List.cons_append,
      List.nil_append, List.mem_cons, List.not_mem_nil, or_false] at listed
    omega
  have cones : ∀ value ∈ problem.dump.conic.cones.flatMap Cone.naturals,
      value < naturalLimit := by
    intro value member
    obtain ⟨cone, coneMember, listed⟩ := List.mem_flatMap.mp member
    obtain ⟨source, known, rfl⟩ := List.mem_map.mp coneMember
    obtain ⟨_, dim, blocks, offset⟩ := sound.numbers_lt known
    simp only [Cone.naturals, List.mem_cons, List.not_mem_nil, or_false] at listed
    omega
  have objective : ∀ value ∈ problem.dump.conic.objective.coeffs.map Prod.fst,
      value < naturalLimit := by
    show ∀ value ∈ (flatObjective problem.objective).coeffs.map Prod.fst, value < naturalLimit
    cases kept : problem.objective with
    | none => exact fun value member => absurd member List.not_mem_nil
    | some objective => exact coeffs (sound.objective_over objective kept)
  have constraints : ∀ value ∈ problem.dump.conic.constraints.flatMap
      (fun constraint => constraint.coeffs.map Prod.fst), value < naturalLimit := by
    intro value member
    obtain ⟨flat, flatMember, listed⟩ := List.mem_flatMap.mp member
    obtain ⟨constraint, known, rfl⟩ := List.mem_map.mp flatMember
    exact coeffs (sound.constraints_over constraint known) value listed
  exact List.forall_mem_append.mpr ⟨declared, List.forall_mem_append.mpr
    ⟨List.forall_mem_cons.mpr ⟨limited, cones⟩,
      List.forall_mem_append.mpr ⟨objective, constraints⟩⟩⟩

end Problem

/-- A dump whose natural numbers fit into 64 bits, and whose finite doubles are each read back from
their own texts, is read back from its text exactly as it was if all of its doubles are finite, and
is refused as a mismatch otherwise. So the dump of a problem that was built up by calls is read
back exactly if all of its doubles are finite. Doubles are equal here if their bits are. -/
theorem ProblemDump.roundTrip :
    (∀ dump : ProblemDump, (∀ value ∈ dump.naturals, value < naturalLimit) →
      (∀ value ∈ dump.doubles, value.isFinite = true → Decimal.ReadsBack value) →
      ((∀ value ∈ dump.doubles, value.isFinite = true) → ofText dump.toText = .ok dump) ∧
      ((∃ value ∈ dump.doubles, value.isFinite = false) →
        ofText dump.toText = .error (.unreadable .mismatched))) ∧
    ∀ problem : Problem Float, problem.Reachable →
      (∀ value ∈ problem.dump.doubles, value.isFinite = true → Decimal.ReadsBack value) →
      (ofText problem.dump.toText = .ok problem.dump ↔
        ∀ value ∈ problem.dump.doubles, value.isFinite = true) := by
  refine ⟨fun dump small reads => ?_, fun problem reached reads => ?_⟩
  · have read := ofText_toText small fun value member =>
      Decimal.readsBack_of_isFinite (reads value member)
    refine ⟨fun finite => ?_, fun ⟨value, member, notFinite⟩ => ?_⟩
    · rw [read, if_pos (List.all_eq_true.mpr finite)]
    · have some : ¬ dump.doubles.all Float.isFinite = true := fun all =>
        absurd (List.all_eq_true.mp all value member) (by simp [notFinite])
      rw [read, if_neg some]
  · have read := ofText_toText reached.sound.dump_naturals_lt fun value member =>
      Decimal.readsBack_of_isFinite (reads value member)
    rw [read, ← List.all_eq_true]
    cases problem.dump.doubles.all Float.isFinite <;> simp

namespace Sample

/-- An inner product with coefficients of either sign, among them both zeros. -/
def savedTerm : DotTerm Float := ⟨⟨2, 2, [1.5, 0.0, -0.25, -0.0], rfl⟩, block, rfl⟩

/-- A problem with a name to be escaped, a block and a bound on the inner product. -/
def saved : Problem Float :=
  (Problem.new 0 (some "a \"saved\"\tproblem")).run
    [.declare none 1 2, .constrain (.dot savedTerm) (.lessThan 2.5)]

theorem saved_reachable : saved.Reachable := by
  have honest : (Problem.new 0 (some "a \"saved\"\tproblem")).HonestRun
      [.declare none 1 2, .constrain (.dot savedTerm) (.lessThan 2.5)] := by
    refine ⟨trivial, fun used listed => ?_, trivial⟩
    obtain rfl : used = savedTerm := List.mem_singleton.mp listed
    exact ⟨.block block_cut, fun _ => by decide⟩
  exact ⟨0, _, _, honest, rfl⟩

/-- The zeros of the inner product are no coefficients. -/
theorem columns_savedTerm :
    (Expr.dot savedTerm).linearForm.columns = [(0, 1.5), (2, -0.25)] := by
  have rows : (Expr.dot savedTerm).linearForm.rows =
      [(0, .assemble 1 4 (rowTriplets savedTerm.coefficients))] := by
    rw [Expr.linearForm, Gathered.visit, Gathered.visit]
    rfl
  have assembled : (Sparse.assemble 1 4 (rowTriplets savedTerm.coefficients)).rowEntries =
      savedTerm.coefficients := by
    rw [Sparse.assemble, List.mergeSort_of_pairwise (by decide)]
    rfl
  have kept : savedTerm.coefficients.filter (fun entry => !Scalar.isZero entry.2) =
      [(0, 1.5), (2, -0.25)] := by decide +kernel
  rw [LinearForm.columns, rows, List.flatMap_singleton]
  simp only [assembled]
  refine (congrArg (List.mergeSort · _) kept).trans ?_
  exact List.mergeSort_of_pairwise (by decide)

theorem doubles_saved : saved.dump.doubles = [0.0, 1.5, -0.25, 2.5] := by
  have declared : (saved.dump.declared.flatMap fun source => source.domain.doubles) = [] := rfl
  have conic : saved.dump.conic.doubles =
      [0.0] ++ ((Expr.dot savedTerm).linearForm.columns.map Prod.snd ++
        [2.5 - (Expr.dot savedTerm).linearForm.constant] ++ []) := rfl
  rw [ProblemDump.doubles, declared, conic, columns_savedTerm]
  decide +kernel

/-- A dump with the largest natural number, a negative zero, and a name of quotes, backslashes,
control characters and letters beyond one byte, around a given bound. -/
def corners (bound : Float) : ProblemDump :=
  { name := some "\"\\\x00\x1f\n é ∑"
    declared := [⟨18446744073709551615, none, .greaterThan bound, 0⟩,
      ⟨1, some "", .semidefinite 18446744073709551615 0, 7⟩]
    conic := ⟨18446744073709551615, [⟨2, 1, 0⟩],
      ⟨.maximize, [(18446744073709551615, -0.0), (0, 0.1)], 1e-8⟩,
      [⟨[], .equalTo, -2.5e300⟩]⟩ }

end Sample

/-- A saved problem and a dump of corner cases are read back, and a dump that is not finite is
refused. -/
theorem ProblemDump.roundTrip_samples :
    Sample.saved.Reachable ∧
      (∀ value ∈ Sample.saved.dump.doubles, value.isFinite = true → Decimal.ReadsBack value) ∧
      ofText Sample.saved.dump.toText = .ok Sample.saved.dump ∧
      ofText (Sample.corners (-0.0)).toText = .ok (Sample.corners (-0.0)) ∧
      ofText (Sample.corners (0.0 / 0.0)).toText = .error (.unreadable .mismatched) := by
  have savedReads : ∀ value ∈ Sample.saved.dump.doubles,
      value.isFinite = true → Decimal.ReadsBack value := by
    rw [Sample.doubles_saved]
    decide +kernel
  have savedFinite : ∀ value ∈ Sample.saved.dump.doubles, value.isFinite = true := by
    rw [Sample.doubles_saved]
    decide +kernel
  have small : ∀ bound, ∀ value ∈ (Sample.corners bound).naturals, value < naturalLimit := by
    intro bound
    show ∀ value ∈ [18446744073709551615, 0, 1, 18446744073709551615, 0, 7, 18446744073709551615,
      2, 1, 0, 18446744073709551615, 0], value < naturalLimit
    decide
  have reads : ∀ bound ∈ [-0.0, 0.0 / 0.0], ∀ value ∈ (Sample.corners bound).doubles,
      value.isFinite = true → Decimal.ReadsBack value := by decide +kernel
  have finite : ∀ value ∈ (Sample.corners (-0.0)).doubles, value.isFinite = true := by
    decide +kernel
  have notFinite : ∃ value ∈ (Sample.corners (0.0 / 0.0)).doubles, value.isFinite = false := by
    decide +kernel
  exact ⟨Sample.saved_reachable, savedReads,
    (roundTrip.2 Sample.saved Sample.saved_reachable savedReads).mpr savedFinite,
    (roundTrip.1 _ (small _) (reads _ List.mem_cons_self)).1 finite,
    (roundTrip.1 _ (small _)
      (reads _ (List.mem_cons_of_mem _ List.mem_cons_self))).2 notFinite⟩

end BlockCone
