/-
This file proves in which order an expression names its variables, and which of them is blamed.

Where an inner product stands in an expression is told by a path: the places of the parts that lead
to it, from the outermost sum inwards. A part that is used several times is reached by several
paths, and so are its inner products. Paths are compared place by place, which is the order from
left to right, and the terms of an expression are its inner products in the order of their paths.

A path is a first use if no path to the left of it leads to the same variable. Collecting the
variables goes through the uses from left to right and drops the handles that mean a variable seen
before, so what it keeps are the first uses in their order. A problem then asks for each variable
once. The first one that it does not recognise is the one of the leftmost inner product that it
does not recognise: handles that mean the same variable are recognised together, so the uses that
were dropped would have given the same answer as the earlier use that stands for them.
-/

import BlockCone.Proofs.Interleaving

namespace BlockCone

variable {α : Type}

/-! ### Paths -/

namespace Expr

/-- An inner product stands at a path of an expression. -/
inductive HasAt : Expr α → List Nat → DotTerm α → Prop where
  | dot (term : DotTerm α) : HasAt (.dot term) [] term
  | sum {children : List (Expr α)} {place : Nat} {child : Expr α} {path : List Nat}
      {term : DotTerm α} :
      children[place]? = some child → HasAt child path term →
        HasAt (.sum children) (place :: path) term

mutual

/-- The inner products of an expression from left to right, with their paths. -/
def uses : Expr α → List (List Nat × DotTerm α)
  | .dot term => [([], term)]
  | .sum children => usesFrom 0 children
  | .constant _ => []

/-- The inner products of the parts of a sum from a place on, with their paths in the sum. -/
def usesFrom : Nat → List (Expr α) → List (List Nat × DotTerm α)
  | _, [] => []
  | place, first :: rest =>
      (uses first).map (fun (path, term) => (place :: path, term)) ++ usesFrom (place + 1) rest

end

mutual

theorem map_snd_uses : ∀ expr : Expr α, expr.uses.map Prod.snd = expr.terms
  | .dot _ => rfl
  | .sum children => by rw [uses, terms_sum, map_snd_usesFrom]
  | .constant _ => rfl

theorem map_snd_usesFrom : ∀ (place : Nat) (exprs : List (Expr α)),
    (usesFrom place exprs).map Prod.snd = exprs.flatMap terms
  | _, [] => rfl
  | place, first :: rest => by
    rw [usesFrom, List.map_append, List.map_map, List.flatMap_cons, map_snd_usesFrom,
      ← map_snd_uses first]
    rfl

end

mutual

/-- An expression has its inner products at their paths, and no others. -/
theorem mem_uses_iff : ∀ (expr : Expr α) (path : List Nat) (term : DotTerm α),
    (path, term) ∈ expr.uses ↔ expr.HasAt path term
  | .dot used, path, term => by
    rw [uses, List.mem_singleton, Prod.mk.injEq]
    constructor
    · rintro ⟨rfl, rfl⟩
      exact .dot _
    · rintro ⟨⟩
      exact ⟨rfl, rfl⟩
  | .sum children, path, term => by
    rw [uses, mem_usesFrom_iff]
    constructor
    · rintro ⟨place, child, inner, present, stands, rfl⟩
      rw [Nat.zero_add]
      exact .sum present stands
    · rintro (_ | ⟨present, stands⟩)
      exact ⟨_, _, _, present, stands, by rw [Nat.zero_add]⟩
  | .constant _, path, term => by
    rw [uses]
    exact iff_of_false List.not_mem_nil nofun

theorem mem_usesFrom_iff : ∀ (start : Nat) (exprs : List (Expr α)) (path : List Nat)
    (term : DotTerm α), (path, term) ∈ usesFrom start exprs ↔
      ∃ place child inner, exprs[place]? = some child ∧ child.HasAt inner term ∧
        path = (start + place) :: inner
  | start, [], path, term => by simp [usesFrom]
  | start, first :: rest, path, term => by
    have here : (path, term) ∈ (uses first).map (fun (path, term) => (start :: path, term)) ↔
        ∃ inner, first.HasAt inner term ∧ path = start :: inner := by
      simp only [List.mem_map, Prod.exists, Prod.mk.injEq, mem_uses_iff first]
      constructor
      · rintro ⟨inner, _, stands, rfl, rfl⟩
        exact ⟨inner, stands, rfl⟩
      · rintro ⟨inner, stands, rfl⟩
        exact ⟨inner, term, stands, rfl, rfl⟩
    rw [usesFrom, List.mem_append, here, mem_usesFrom_iff (start + 1) rest]
    constructor
    · rintro (⟨inner, stands, rfl⟩ | ⟨place, child, inner, present, stands, rfl⟩)
      · exact ⟨0, first, inner, rfl, stands, rfl⟩
      · exact ⟨place + 1, child, inner, present, stands, by rw [Nat.add_assoc, Nat.add_comm 1]⟩
    · rintro ⟨place, child, inner, present, stands, rfl⟩
      cases place with
      | zero =>
        obtain rfl := Option.some.inj present
        exact Or.inl ⟨inner, stands, rfl⟩
      | succ place =>
        exact Or.inr ⟨place, child, inner, present, stands,
          by rw [Nat.add_assoc, Nat.add_comm 1]⟩

end

/-- The terms of an expression are the inner products that stand in it. -/
theorem mem_terms_iff (expr : Expr α) (term : DotTerm α) :
    term ∈ expr.terms ↔ ∃ path, expr.HasAt path term := by
  rw [← map_snd_uses, List.mem_map]
  constructor
  · rintro ⟨⟨path, _⟩, member, rfl⟩
    exact ⟨path, (expr.mem_uses_iff path _).mp member⟩
  · rintro ⟨path, stands⟩
    exact ⟨(path, term), (expr.mem_uses_iff path term).mpr stands, rfl⟩

/-- One use stands to the left of another. -/
def IsBefore {β : Type} (left right : List Nat × β) : Prop :=
  left.1 < right.1

mutual

/-- The inner products come in the order of their paths. -/
theorem uses_pairwise : ∀ expr : Expr α, expr.uses.Pairwise IsBefore
  | .dot _ => List.pairwise_singleton _ _
  | .sum children => usesFrom_pairwise 0 children
  | .constant _ => .nil

theorem usesFrom_pairwise : ∀ (start : Nat) (exprs : List (Expr α)),
    (usesFrom start exprs).Pairwise IsBefore
  | _, [] => .nil
  | start, first :: rest => by
    rw [usesFrom]
    refine List.pairwise_append.mpr ⟨?_, usesFrom_pairwise (start + 1) rest, ?_⟩
    · rw [List.pairwise_map]
      exact (uses_pairwise first).imp fun before =>
        List.cons_lt_cons_iff.mpr (Or.inr ⟨rfl, before⟩)
    · rintro left leftMember ⟨path, term⟩ rightMember
      obtain ⟨_, _, rfl⟩ := List.mem_map.mp leftMember
      obtain ⟨place, _, inner, _, _, rfl⟩ := (mem_usesFrom_iff _ rest path term).mp rightMember
      exact List.cons_lt_cons_iff.mpr (Or.inl (by omega))

end

/-! ### First uses -/

/-- A variable is first met at a path: no path to the left of it leads to the same variable. -/
def FirstUse (expr : Expr α) (path : List Nat) (source : Variable) : Prop :=
  (∃ term, expr.HasAt path term ∧ term.slice.source = source) ∧
    ∀ earlier term, expr.HasAt earlier term → earlier < path →
      term.slice.source.sameAs source = false

end Expr

namespace Variable

theorem sameAs_trans {first second third : Variable} (left : first.sameAs second = true)
    (right : second.sameAs third = true) : first.sameAs third = true := by
  rw [sameAs_iff] at *
  exact ⟨left.1.trans right.1, left.2.trans right.2⟩

theorem sameAs_comm (first second : Variable) : first.sameAs second = second.sameAs first := by
  rw [Bool.eq_iff_iff, sameAs_iff, sameAs_iff]
  exact and_congr eq_comm eq_comm

end Variable

/-! ### The leftmost of some uses -/

section Leftmost

variable {β : Type} {uses : List (List Nat × β)}

/-- A use has a property, and none to the left of it has. -/
def IsLeftmost (uses : List (List Nat × β)) (property : β → Prop) (use : List Nat × β) : Prop :=
  use ∈ uses ∧ property use.2 ∧ ∀ earlier ∈ uses, earlier.1 < use.1 → ¬ property earlier.2

/-- Behind a use without the property, the leftmost one is the leftmost of the others. -/
theorem isLeftmost_cons_iff {first : List Nat × β} {rest : List (List Nat × β)}
    (ordered : (first :: rest).Pairwise Expr.IsBefore) (property : β → Prop)
    (use : List Nat × β) :
    IsLeftmost (first :: rest) property use ↔
      use = first ∧ property first.2 ∨ ¬ property first.2 ∧ IsLeftmost rest property use := by
  obtain ⟨before, _⟩ := List.pairwise_cons.mp ordered
  constructor
  · rintro ⟨member, has, leftmost⟩
    rcases List.mem_cons.mp member with rfl | later
    · exact Or.inl ⟨rfl, has⟩
    · refine Or.inr ⟨leftmost first List.mem_cons_self (before use later), later, has, ?_⟩
      exact fun earlier earlierMember => leftmost earlier (List.mem_cons_of_mem _ earlierMember)
  · rintro (⟨rfl, has⟩ | ⟨lacks, member, has, leftmost⟩)
    · refine ⟨List.mem_cons_self, has, fun earlier earlierMember less => ?_⟩
      rcases List.mem_cons.mp earlierMember with rfl | later
      · exact absurd less (List.lt_irrefl _)
      · exact absurd (List.lt_trans less (before earlier later)) (List.lt_irrefl _)
    · exact ⟨List.mem_cons_of_mem _ member, has,
        List.forall_mem_cons.mpr ⟨fun _ => lacks, leftmost⟩⟩

/-- A use with a property has a leftmost one among the uses. -/
theorem exists_leftmost (ordered : uses.Pairwise Expr.IsBefore) (property : β → Prop)
    (occurs : ∃ use ∈ uses, property use.2) : ∃ use, IsLeftmost uses property use := by
  induction uses with
  | nil => simp at occurs
  | cons first rest inductionHypothesis =>
    simp only [isLeftmost_cons_iff ordered]
    by_cases here : property first.2
    · exact ⟨first, Or.inl ⟨rfl, here⟩⟩
    · obtain ⟨use, member, has⟩ := occurs
      have later : use ∈ rest := by
        rcases List.mem_cons.mp member with rfl | later
        · exact absurd has here
        · exact later
      obtain ⟨leftmost, isLeftmost⟩ :=
        inductionHypothesis (List.pairwise_cons.mp ordered).2 ⟨use, later, has⟩
      exact ⟨leftmost, Or.inr ⟨here, isLeftmost⟩⟩

/-- Of the faults of the uses, the first one is that of the leftmost use that has one. -/
theorem firstFault_map_iff (ordered : uses.Pairwise Expr.IsBefore) (fault : β → Prop)
    (blame : β → Error) (reason : Error) :
    FirstFault (uses.map fun use => (fault use.2, blame use.2)) reason ↔
      ∃ use, IsLeftmost uses fault use ∧ reason = blame use.2 := by
  induction uses with
  | nil => simp [FirstFault, IsLeftmost]
  | cons first rest inductionHypothesis =>
    have behind := inductionHypothesis (List.pairwise_cons.mp ordered).2
    simp only [List.map_cons, FirstFault, behind, isLeftmost_cons_iff ordered]
    constructor
    · rintro (⟨here, named⟩ | ⟨lacks, use, leftmost, named⟩)
      · exact ⟨first, Or.inl ⟨rfl, here⟩, named⟩
      · exact ⟨use, Or.inr ⟨lacks, leftmost⟩, named⟩
    · rintro ⟨use, ⟨rfl, here⟩ | ⟨lacks, leftmost⟩, named⟩
      · exact Or.inl ⟨here, named⟩
      · exact Or.inr ⟨lacks, use, leftmost, named⟩

end Leftmost

/-! ### Collecting -/

/-- Of handles that come in the order of their paths, the scan keeps those that mean no variable
seen before, in the same order. -/
theorem Expr.firstUses_eq {uses : List (List Nat × Variable)} (ordered : uses.Pairwise IsBefore)
    (seen : List Variable) :
    ∃ firsts : List (List Nat × Variable), firsts.Sublist uses ∧
      firstUses seen (uses.map Prod.snd) = seen.reverse ++ firsts.map Prod.snd ∧
      ∀ use, use ∈ firsts ↔ (∀ known ∈ seen, known.sameAs use.2 = false) ∧ use ∈ uses ∧
        ∀ earlier ∈ uses, earlier.1 < use.1 → earlier.2.sameAs use.2 = false := by
  induction uses generalizing seen with
  | nil => exact ⟨[], .slnil, (List.append_nil _).symm, by simp⟩
  | cons next rest inductionHypothesis =>
    obtain ⟨before, orderedRest⟩ := List.pairwise_cons.mp ordered
    have notItself : ¬ next.1 < next.1 := List.lt_irrefl _
    have notBefore : ∀ use ∈ rest, ¬ use.1 < next.1 := fun use later less =>
      notItself (List.lt_trans (before use later) less)
    rw [List.map_cons, firstUses]
    split
    · rename_i known
      -- what is dropped means a variable seen before, and so does what means the same as it
      obtain ⟨earlier, earlierSeen, same⟩ := List.any_eq_true.mp known
      obtain ⟨firsts, kept, collected, member⟩ := inductionHypothesis orderedRest seen
      refine ⟨firsts, kept.cons next, collected, fun use => ?_⟩
      rw [member, List.mem_cons, List.forall_mem_cons]
      constructor
      · rintro ⟨unseen, later, first⟩
        refine ⟨unseen, Or.inr later, fun _ => ?_, first⟩
        rw [← Bool.not_eq_true]
        exact fun repeated => Bool.eq_false_iff.mp (unseen earlier earlierSeen)
          (Variable.sameAs_trans same repeated)
      · rintro ⟨unseen, rfl | later, _, first⟩
        · exact absurd same (Bool.eq_false_iff.mp (unseen earlier earlierSeen))
        · exact ⟨unseen, later, first⟩
    · rename_i unknown
      have new : ∀ known ∈ seen, known.sameAs next.2 = false := by
        simpa only [List.any_eq_true, not_exists, not_and, Bool.not_eq_true] using unknown
      obtain ⟨firsts, kept, collected, member⟩ := inductionHypothesis orderedRest (next.2 :: seen)
      refine ⟨next :: firsts, kept.cons_cons next, by simp [collected], fun use => ?_⟩
      rw [List.mem_cons, member, List.forall_mem_cons, List.mem_cons, List.forall_mem_cons]
      constructor
      · rintro (rfl | ⟨⟨apart, unseen⟩, later, first⟩)
        · exact ⟨new, Or.inl rfl, fun less => absurd less notItself,
            fun other later less => absurd less (notBefore other later)⟩
        · exact ⟨unseen, Or.inr later, fun _ => apart, first⟩
      · rintro ⟨unseen, rfl | later, apart, first⟩
        · exact Or.inl rfl
        · exact Or.inr ⟨⟨apart (before use later), unseen⟩, later, first⟩

/-- What collecting the variables of an expression gives. -/
structure Expr.Collected (expr : Expr α) : Prop where
  /-- Every inner product is counted once for each path to it. -/
  counted : ∃ uses : List (List Nat × DotTerm α), uses.Pairwise IsBefore ∧
    (∀ path term, (path, term) ∈ uses ↔ expr.HasAt path term) ∧ expr.termCount = uses.length
  /-- The variables are those of the first uses, from left to right. -/
  listed : ∃ firsts : List (List Nat × Variable), firsts.Pairwise IsBefore ∧
    (∀ path source, (path, source) ∈ firsts ↔ expr.FirstUse path source) ∧
    expr.usedVariables = firsts.map Prod.snd
  /-- No variable is listed twice. -/
  distinct : expr.usedVariables.Pairwise fun first second => first.sameAs second = false
  /-- Every variable of an inner product is listed. -/
  complete : ∀ path term, expr.HasAt path term →
    ∃ source ∈ expr.usedVariables, source.sameAs term.slice.source = true

namespace Expr

/-- The variables of the inner products of an expression, with their paths. -/
def sources (expr : Expr α) : List (List Nat × Variable) :=
  expr.uses.map fun (path, term) => (path, term.slice.source)

theorem sources_pairwise (expr : Expr α) : expr.sources.Pairwise IsBefore := by
  rw [sources, List.pairwise_map]
  exact expr.uses_pairwise

theorem mem_sources_iff (expr : Expr α) (use : List Nat × Variable) :
    use ∈ expr.sources ↔ ∃ term, expr.HasAt use.1 term ∧ term.slice.source = use.2 := by
  obtain ⟨path, source⟩ := use
  simp only [sources, List.mem_map, Prod.exists, Prod.mk.injEq, mem_uses_iff]
  constructor
  · rintro ⟨_, term, stands, rfl, named⟩
    exact ⟨term, stands, named⟩
  · rintro ⟨term, stands, named⟩
    exact ⟨path, term, stands, rfl, named⟩

theorem firstUse_iff (expr : Expr α) (path : List Nat) (source : Variable) :
    expr.FirstUse path source ↔ (path, source) ∈ expr.sources ∧
      ∀ earlier ∈ expr.sources, earlier.1 < path → earlier.2.sameAs source = false := by
  simp only [FirstUse, mem_sources_iff]
  refine and_congr_right fun _ => ⟨?_, ?_⟩
  · rintro first ⟨earlier, _⟩ ⟨term, stands, rfl⟩ less
    exact first earlier term stands less
  · intro first earlier term stands less
    exact first (earlier, term.slice.source) ⟨term, stands, rfl⟩ less

theorem collected (expr : Expr α) : expr.Collected := by
  have read : expr.terms.map (fun term => term.slice.source) = expr.sources.map Prod.snd := by
    rw [← map_snd_uses, sources, List.map_map, List.map_map]
    rfl
  obtain ⟨firsts, kept, collected, member⟩ := firstUses_eq expr.sources_pairwise []
  have listed : expr.usedVariables = firsts.map Prod.snd := by
    rw [usedVariables, read, collected]
    rfl
  have isFirst : ∀ path source, (path, source) ∈ firsts ↔ expr.FirstUse path source := by
    intro path source
    rw [member, firstUse_iff]
    simp only [List.not_mem_nil, false_implies, implies_true, true_and]
  have ordered := expr.sources_pairwise.sublist kept
  refine ⟨⟨expr.uses, expr.uses_pairwise, expr.mem_uses_iff, ?_⟩,
    ⟨firsts, ordered, isFirst, listed⟩,
    ?_, ?_⟩
  · rw [termCount, ← map_snd_uses, List.length_map]
  · rw [listed, List.pairwise_map]
    refine ordered.imp_of_mem fun {first second} firstMember secondMember before => ?_
    obtain ⟨term, stands, named⟩ := ((isFirst first.1 first.2).mp firstMember).1
    rw [← named]
    exact ((isFirst second.1 second.2).mp secondMember).2 first.1 term stands before
  · intro path term stands
    have occurs : ∃ use ∈ expr.sources, use.2.sameAs term.slice.source = true :=
      ⟨(path, term.slice.source), (expr.mem_sources_iff _).mpr ⟨term, stands, rfl⟩,
        (Variable.sameAs_iff _ _).mpr ⟨rfl, rfl⟩⟩
    obtain ⟨first, inside, same, leftmost⟩ := exists_leftmost expr.sources_pairwise
      (fun source : Variable => source.sameAs term.slice.source = true) occurs
    refine ⟨first.2, ?_, same⟩
    rw [listed]
    refine List.mem_map_of_mem ((isFirst first.1 first.2).mpr ((expr.firstUse_iff _ _).mpr
      ⟨inside, fun earlier earlierInside less => ?_⟩))
    rw [← Bool.not_eq_true]
    exact fun repeated => leftmost earlier earlierInside less (Variable.sameAs_trans repeated same)

end Expr

/-! ### Blame -/

namespace Problem

variable (problem : Problem α) (expr : Expr α)

/-- The leftmost inner product whose variable a problem does not recognise. -/
def LeftmostForeign (path : List Nat) (term : DotTerm α) : Prop :=
  expr.HasAt path term ∧ problem.owns term.slice.source = false ∧
    ∀ earlier other, expr.HasAt earlier other → earlier < path →
      problem.owns other.slice.source = true

/-- A computation fails for a variable exactly if an inner product is over one that the problem does
not recognise, and the error names the variable of the leftmost such inner product. -/
structure Blames {β : Type} (computed : Except Error β) : Prop where
  refused_iff : IsForeign computed ↔
    ∃ path term, expr.HasAt path term ∧ problem.owns term.slice.source = false
  named_iff : ∀ label, computed = .error (.foreignVariable label) ↔
    ∃ path term, problem.LeftmostForeign expr path term ∧ label = term.slice.source.label

theorem isLeftmost_uses_iff (use : List Nat × DotTerm α) :
    IsLeftmost expr.uses (fun term => problem.owns term.slice.source = false) use ↔
      problem.LeftmostForeign expr use.1 use.2 := by
  have stands : use ∈ expr.uses ↔ expr.HasAt use.1 use.2 := expr.mem_uses_iff use.1 use.2
  simp only [IsLeftmost, LeftmostForeign, stands, Prod.forall, Expr.mem_uses_iff,
    Bool.not_eq_false]

theorem blames_requireOwnedExpr : problem.Blames expr (problem.requireOwnedExpr expr) where
  refused_iff := by
    rw [isForeign_requireOwnedExpr_iff, exists_comm]
    simp only [Expr.mem_terms_iff, exists_and_right]
  named_iff label := by
    have faults : problem.foreignFaults expr = expr.uses.map fun use =>
        (problem.owns use.2.slice.source = false,
          Error.foreignVariable use.2.slice.source.label) := by
      rw [foreignFaults, ← Expr.map_snd_uses, List.map_map]
      rfl
    rw [problem.failsWith_requireOwnedExpr expr, faults, firstFault_map_iff expr.uses_pairwise
      (fun term => problem.owns term.slice.source = false)
      (fun term => .foreignVariable term.slice.source.label)]
    simp only [isLeftmost_uses_iff, Prod.exists, Error.foreignVariable.injEq]

/-- A call that names the same variables as the check is to be blamed like the check. -/
theorem Blames.of_same {β : Type} {computed : Except Error β}
    (same : ∀ label, computed = .error (.foreignVariable label) ↔
      problem.requireOwnedExpr expr = .error (.foreignVariable label)) :
    problem.Blames expr computed where
  refused_iff := (exists_congr same).trans (problem.blames_requireOwnedExpr expr).refused_iff
  named_iff label := (same label).trans ((problem.blames_requireOwnedExpr expr).named_iff label)

variable [Scalar α]

/-- How a problem answers for the variables of an expression. -/
structure BlamesLeftmost : Prop where
  setObjective : problem.solution = none →
    ∀ sense, problem.Blames expr (problem.setObjective sense expr)
  constrain : problem.solution = none →
    ∀ domain, problem.Blames expr (problem.constrain expr domain)
  evaluate : problem.Blames expr (problem.evaluate expr)
  /-- Without inner products there is nothing to refuse. -/
  accepted : (∀ path term, ¬ expr.HasAt path term) → problem.requireOwnedExpr expr = .ok ()

theorem blamesLeftmost : problem.BlamesLeftmost expr where
  setObjective building sense := .of_same problem expr fun label => by
    rw [Problem.setObjective, requireBuilding_of_building building]
    exact bind_eq_foreign_iff (fun _ => not_isForeign_pure _) label
  constrain building domain := .of_same problem expr fun label => by
    rw [Problem.constrain, requireBuilding_of_building building]
    show problem.requireOwnedExpr expr >>= _ = _ ↔ _
    rw [bind_eq_foreign_iff]
    rintro _ ⟨_, failed⟩
    split at failed <;> cases failed
  evaluate := .of_same problem expr
    (bind_eq_foreign_iff fun _ => problem.not_isForeign_weigh expr)
  accepted none := by
    rw [requireOwnedExpr_eq_ok_iff]
    intro term member
    obtain ⟨path, stands⟩ := (expr.mem_terms_iff term).mp member
    exact absurd stands (none path term)

end Problem

variable [Scalar α]

/-- The variables of every expression are collected in the order of their first uses, and every
problem blames the leftmost inner product that it does not recognise. In every workspace the
handles that it does not recognise are those that it did not return, and handles that count as the
same are the same. -/
theorem Workspace.blames_leftmost (steps : List (Step α)) :
    (∀ expr : Expr α, expr.Collected) ∧
    (∀ (problem : Problem α) (expr : Expr α), problem.BlamesLeftmost expr) ∧
    (∀ id problem, ((empty : Workspace α).run steps).problem? id = some problem →
      ∀ owner handle, (owner, handle) ∈ (empty : Workspace α).history steps →
        (problem.owns handle = false ↔ (id, handle) ∉ (empty : Workspace α).history steps)) ∧
    ∀ first ∈ (empty : Workspace α).history steps,
      ∀ second ∈ (empty : Workspace α).history steps,
        (first.2.sameAs second.2 = true ↔ first = second) := by
  have recorded := recorded_run (α := α) steps
  refine ⟨Expr.collected, fun problem expr => problem.blamesLeftmost expr, ?_, ?_⟩
  · intro id problem present owner handle listed
    rw [← Bool.not_eq_true, recorded.owns_iff present listed]
  · intro first firstListed second secondListed
    constructor
    · intro same
      by_contra apart
      have symmetric : Std.Symm fun left right : ProblemId × Variable =>
          left.2.sameAs right.2 = false := ⟨fun left right other => by rwa [Variable.sameAs_comm]⟩
      have other := recorded.distinct.forall firstListed secondListed apart
      exact Bool.eq_false_iff.mp other same
    · rintro rfl
      exact (Variable.sameAs_iff _ _).mpr ⟨rfl, rfl⟩

/-! ### A foreign variable between own ones -/

namespace Sample

/-- Of two problems, the first declares two numbers and the second one. -/
def sharing : List (Step ℚ) :=
  [.create none, .create none, .call 0 (.declare (some "A") 1 1),
    .call 0 (.declare (some "B") 1 1), .call 1 (.declare (some "C") 1 1)]

/-- The inner product of the number one with a variable of one entry. -/
def numberOf (owner index : Nat) (name : String) : DotTerm ℚ :=
  ⟨⟨1, 1, [1], rfl⟩, ⟨⟨owner, index, index, some name, 1, 1⟩, ⟨0, [1, 1, 1], [1, 1, 1], .scalar⟩⟩,
    rfl⟩

/-- An expression that the second problem is asked about. -/
def medley : Expr ℚ :=
  .sum [.dot (numberOf 1 0 "C"), .sum [.constant 1, .dot (numberOf 0 1 "B"),
    .dot (numberOf 0 0 "A")], .dot (numberOf 0 1 "B")]

end Sample

/-- Each variable is listed once, behind its first use. The first variable has the number of an own
one, and the second problem names the other one, which stands to the left of it. -/
theorem Workspace.blames_leftmost_medley :
    Sample.medley.usedVariables.map Variable.label = ["C", "B", "A"] ∧
      Sample.medley.termCount = 4 ∧
      ∃ problem, ((empty : Workspace ℚ).run Sample.sharing).problem? 1 = some problem ∧
        problem.evaluate Sample.medley = .error (.foreignVariable "B") := by
  have listed : (empty : Workspace ℚ).history Sample.sharing =
      [(0, (Sample.numberOf 0 0 "A").slice.source), (0, (Sample.numberOf 0 1 "B").slice.source),
        (1, (Sample.numberOf 1 0 "C").slice.source)] := rfl
  obtain ⟨_, blames, foreign, _⟩ := blames_leftmost Sample.sharing
  refine ⟨by decide, by decide, _, rfl, ?_⟩
  refine ((blames _ Sample.medley).evaluate.named_iff "B").mpr
    ⟨[1, 1], Sample.numberOf 0 1 "B", ⟨.sum rfl (.sum rfl (.dot _)), ?_, ?_⟩, rfl⟩
  · rw [foreign 1 _ rfl 0 _ (by rw [listed]; decide), listed]
    decide
  · intro earlier other stands less
    have used : Sample.medley.uses =
        [([0], Sample.numberOf 1 0 "C"), ([1, 1], Sample.numberOf 0 1 "B"),
          ([1, 2], Sample.numberOf 0 0 "A"), ([2], Sample.numberOf 0 1 "B")] := rfl
    have member := (Sample.medley.mem_uses_iff earlier other).mpr stands
    rw [used] at member
    simp only [List.mem_cons, Prod.mk.injEq, List.not_mem_nil, or_false] at member
    rcases member with ⟨rfl, rfl⟩ | ⟨rfl, rfl⟩ | ⟨rfl, rfl⟩ | ⟨rfl, rfl⟩
    · decide
    all_goals exact absurd less (by decide)

end BlockCone
