/-
This file proves that the problems of a workspace are isolated from each other.

A step creates a problem or makes a call on one, with handles from anywhere. So a run of steps
interleaves the calls on any number of problems. What becomes of one of them depends on the calls on
it alone, in their order, whatever happens to the others in between; what holds after every run of
calls on one problem therefore holds of each problem of a workspace.

The history of a run lists the handles that were returned, each under the number of the problem
that returned it. A problem has declared exactly the handles under its own number, and every handle
carries the number under which it is listed. That is why a problem accepts the handles that it
returned, for good, and refuses all others, however much alike two of them look. A handle is known
by two numbers only, but no two entries of a history agree in both, so these two identify the
declaration that returned the handle.
-/

import BlockCone.Proofs.Reading
import BlockCone.Proofs.Refusals
import BlockCone.Workspace

namespace BlockCone

/-- A step of a workspace. -/
inductive Step (α : Type) where
  | create (name : Option String)
  /-- A call on the problem with a number. -/
  | call (id : ProblemId) (operation : Operation α)

variable {α : Type}

/-- The call that a step makes on the problem with a number. -/
def Step.callOn? (id : ProblemId) : Step α → Option (Operation α)
  | .create _ => none
  | .call other operation => if other = id then some operation else none

namespace Workspace

variable {workspace : Workspace α}

/-! ### Histories -/

/-- The handles of a history that are listed under a number. -/
def issuedBy (id : ProblemId) (history : List (ProblemId × Variable)) : List Variable :=
  history.filterMap fun (owner, handle) => if owner = id then some handle else none

theorem mem_issuedBy {id : ProblemId} {history : List (ProblemId × Variable)} {handle : Variable} :
    handle ∈ issuedBy id history ↔ (id, handle) ∈ history := by
  simp [issuedBy]

theorem issuedBy_append (id : ProblemId) (earlier later : List (ProblemId × Variable)) :
    issuedBy id (earlier ++ later) = issuedBy id earlier ++ issuedBy id later :=
  List.filterMap_append

theorem issuedBy_entry (id owner : ProblemId) (handle? : Option Variable) :
    issuedBy id (handle?.map fun handle => (owner, handle)).toList =
      if owner = id then handle?.toList else [] := by
  cases handle? with
  | none => exact (ite_self _).symm
  | some handle =>
    by_cases own : owner = id
    · simp [issuedBy, own]
    · simp [issuedBy, own]

variable [Scalar α]

/-- A problem was created under a number, and it has declared what a history lists under it. -/
structure Accounts (history : List (ProblemId × Variable)) (id : ProblemId)
    (problem : Problem α) : Prop where
  created : ∃ name operations, (Problem.new id name).run operations = problem
  declared_eq : problem.declared = issuedBy id history

theorem Accounts.visited {history : List (ProblemId × Variable)} {id : ProblemId}
    {problem : Problem α} (accounts : Accounts history id problem) : problem.Visited :=
  ⟨id, accounts.created⟩

theorem Accounts.id_eq {history : List (ProblemId × Variable)} {id : ProblemId}
    {problem : Problem α} (accounts : Accounts history id problem) : problem.id = id := by
  obtain ⟨name, operations, rfl⟩ := accounts.created
  have keeps : ∀ between : Problem α, ∀ honest next, between.id = id →
      Problem.Change between honest next → next.id = id :=
    fun _ _ _ same change => change.id_eq.trans same
  exact Problem.run_induction keeps rfl operations

/-- A history lists what the problems of a workspace have declared, each declaration once. -/
structure Recorded (workspace : Workspace α) (history : List (ProblemId × Variable)) : Prop where
  accounts : ∀ id problem, workspace.problem? id = some problem → Accounts history id problem
  created : ∀ entry ∈ history, ∃ problem, workspace.problem? entry.1 = some problem
  distinct : history.Pairwise fun earlier later => earlier.2.sameAs later.2 = false

theorem recorded_empty : (empty : Workspace α).Recorded [] where
  accounts := by simp [problem?, empty]
  created := by simp
  distinct := .nil

namespace Recorded

variable {history : List (ProblemId × Variable)}

/-- A handle carries the number under which it is listed, and was declared there. -/
theorem declared_of_listed (recorded : workspace.Recorded history) {owner : ProblemId}
    {handle : Variable} (listed : (owner, handle) ∈ history) :
    handle.owner = owner ∧ ∃ problem, workspace.problem? owner = some problem ∧
      handle ∈ problem.declared := by
  obtain ⟨problem, present⟩ := recorded.created _ listed
  have known : handle ∈ problem.declared := by
    rw [(recorded.accounts owner problem present).declared_eq, mem_issuedBy]
    exact listed
  refine ⟨?_, problem, present, known⟩
  rw [(recorded.accounts owner problem present).visited.arranged.owner_eq handle known,
    (recorded.accounts owner problem present).id_eq]

/-- A problem recognises exactly the handles that are listed under its number. -/
theorem owns_iff (recorded : workspace.Recorded history) {id owner : ProblemId}
    {problem : Problem α} (present : workspace.problem? id = some problem) {handle : Variable}
    (listed : (owner, handle) ∈ history) :
    problem.owns handle = true ↔ (id, handle) ∈ history := by
  constructor
  · intro owned
    obtain ⟨carried, _⟩ := recorded.declared_of_listed listed
    rw [Problem.owner_of_owns owned, (recorded.accounts id problem present).id_eq] at carried
    rwa [carried]
  · intro own
    refine (recorded.accounts id problem present).visited.arranged.owns ?_
    rwa [(recorded.accounts id problem present).declared_eq, mem_issuedBy]

/-- The next handle of a problem is none of those that were returned before. -/
theorem fresh_not_sameAs (recorded : workspace.Recorded history) {id : ProblemId}
    {problem : Problem α} (present : workspace.problem? id = some problem)
    {entry : ProblemId × Variable} (listed : entry ∈ history) (name : Option String)
    (count dim : Nat) : entry.2.sameAs (problem.fresh name count dim) = false := by
  rw [Bool.eq_false_iff]
  intro same
  obtain ⟨sameOwner, sameIndex⟩ := (Variable.sameAs_iff _ _).mp same
  obtain ⟨carried, declaring, known, declared⟩ := recorded.declared_of_listed listed
  have own : entry.1 = id := by
    rw [← carried, sameOwner, ← (recorded.accounts id problem present).id_eq]
    rfl
  rw [own, present] at known
  obtain rfl := Option.some.inj known
  have inside := (recorded.accounts id problem present).visited.arranged.getElem?_index declared
  rw [sameIndex] at inside
  exact Nat.lt_irrefl _ (List.getElem?_eq_some_iff.mp inside).1

end Recorded

/-! ### Steps -/

/-- The workspace after a step. A call that fails changes nothing, nor does one on a number that was
not given. -/
def after (workspace : Workspace α) : Step α → Workspace α
  | .create name => (workspace.create name).2
  | .call id operation =>
      let changed := workspace.update id fun problem => do
        let next ← operation.carryOut problem
        pure ((), next)
      match changed with
      | some (.ok (_, next)) => next
      | _ => workspace

/-- The workspace after a list of steps. -/
def run (workspace : Workspace α) (steps : List (Step α)) : Workspace α :=
  steps.foldl after workspace

/-- The handle that a step returns, under the number of its problem. -/
def returned (workspace : Workspace α) : Step α → Option (ProblemId × Variable)
  | .create _ => none
  | .call id operation =>
      (workspace.problem? id).bind fun problem =>
        (operation.declared? problem).map fun handle => (id, handle)

/-- The handles that a list of steps returns, in order. -/
def history (workspace : Workspace α) : List (Step α) → List (ProblemId × Variable)
  | [] => []
  | step :: rest => (workspace.returned step).toList ++ (workspace.after step).history rest

/-! ### What a step does -/

theorem problem?_create (workspace : Workspace α) (name : Option String) (id : ProblemId) :
    (workspace.after (.create name)).problem? id =
      if id = workspace.problems.length then some (Problem.new id name)
      else workspace.problem? id := by
  show (workspace.problems ++ [Problem.new workspace.problems.length name])[id]? = _
  split
  · rename_i next
    rw [next, List.getElem?_concat_length]
  · rename_i other
    rcases Nat.lt_or_gt_of_ne other with old | none
    · exact List.getElem?_append_left old
    · rw [problem?, List.getElem?_eq_none (by simp; omega), List.getElem?_eq_none (by omega)]

theorem after_call (workspace : Workspace α) (id : ProblemId) (operation : Operation α) :
    workspace.after (.call id operation) =
      match workspace.problem? id with
      | none => workspace
      | some problem => workspace.replace id (problem.after operation) := by
  cases present : workspace.problem? id with
  | none => simp [after, update, present]
  | some problem =>
    cases carried : operation.carryOut problem with
    | error reason =>
      obtain ⟨inside, rfl⟩ := List.getElem?_eq_some_iff.mp present
      simp [after, update, present, Problem.after, carried, replace, bind, Except.bind]
    | ok next =>
      simp [after, update, present, Problem.after, carried, bind, Except.bind, pure, Except.pure]

/-- A call changes the problem that it is made on, and no other. -/
theorem problem?_call (workspace : Workspace α) (id other : ProblemId) (operation : Operation α) :
    (workspace.after (.call id operation)).problem? other =
      if id = other then (workspace.problem? other).map fun problem => problem.after operation
      else workspace.problem? other := by
  rw [after_call]
  by_cases same : id = other
  · rw [if_pos same, ← same]
    cases present : workspace.problem? id with
    | none => exact present
    | some problem => exact List.getElem?_set_self (List.getElem?_eq_some_iff.mp present).1
  · rw [if_neg same]
    cases workspace.problem? id with
    | none => rfl
    | some problem => exact List.getElem?_set_ne same

/-- A step makes at most one call on a problem that was created, and so does what it does to it. -/
theorem problem?_after {id : ProblemId} {problem : Problem α}
    (present : workspace.problem? id = some problem) (step : Step α) :
    (workspace.after step).problem? id = some (problem.run (step.callOn? id).toList) := by
  cases step with
  | create name =>
    have old := (List.getElem?_eq_some_iff.mp present).1
    rw [problem?_create, if_neg (Nat.ne_of_lt old), present]
    rfl
  | call other operation =>
    rw [problem?_call, present, Step.callOn?]
    split <;> rfl

/-- A run of steps does to a problem what the calls on it do. -/
theorem problem?_run {id : ProblemId} {problem : Problem α}
    (present : workspace.problem? id = some problem) (steps : List (Step α)) :
    (workspace.run steps).problem? id =
      some (problem.run (steps.filterMap (Step.callOn? id))) := by
  induction steps generalizing workspace problem with
  | nil => exact present
  | cons step rest inductionHypothesis =>
    have next := inductionHypothesis (problem?_after present step)
    rw [← Problem.run_append] at next
    cases called : step.callOn? id with
    | none =>
      rw [called] at next
      rw [List.filterMap_cons_none called]
      exact next
    | some operation =>
      rw [called] at next
      rw [List.filterMap_cons_some called]
      exact next

/-! ### The history of a run -/

/-- A new problem has not returned a handle yet. -/
theorem Recorded.create {history : List (ProblemId × Variable)}
    (recorded : workspace.Recorded history) (name : Option String) :
    (workspace.after (.create name)).Recorded history := by
  have unused : issuedBy workspace.problems.length history = [] := by
    refine List.eq_nil_iff_forall_not_mem.mpr fun handle listed => ?_
    obtain ⟨problem, present⟩ := recorded.created _ (mem_issuedBy.mp listed)
    exact Nat.lt_irrefl _ (List.getElem?_eq_some_iff.mp present).1
  refine ⟨fun id problem present => ?_, fun entry listed => ?_, recorded.distinct⟩
  · rw [problem?_create] at present
    split at present
    · rename_i next
      obtain rfl := Option.some.inj present
      exact ⟨⟨name, [], rfl⟩, by rw [next, unused]; rfl⟩
    · exact recorded.accounts id problem present
  · obtain ⟨problem, present⟩ := recorded.created entry listed
    exact ⟨_, problem?_after present _⟩

/-- A call that returns a handle is recorded under the number of its problem. -/
theorem Recorded.call {history : List (ProblemId × Variable)}
    (recorded : workspace.Recorded history) (id : ProblemId) (operation : Operation α) :
    (workspace.after (.call id operation)).Recorded
      (history ++ (workspace.returned (.call id operation)).toList) := by
  cases present : workspace.problem? id with
  | none =>
    rw [after_call, returned, present, Option.bind_none, Option.toList_none, List.append_nil]
    exact recorded
  | some problem =>
    have answer : workspace.returned (.call id operation) =
        (operation.declared? problem).map fun handle => (id, handle) := by
      rw [returned, present, Option.bind_some]
    refine ⟨?_, ?_, ?_⟩
    · intro other next changed
      rw [answer]
      rw [problem?_call] at changed
      split at changed
      · rename_i same
        subst same
        rw [present, Option.map_some, Option.some_inj] at changed
        subst changed
        obtain ⟨⟨name, operations, reached⟩, declared_eq⟩ := recorded.accounts id problem present
        refine ⟨⟨name, operations ++ [operation], by rw [Problem.run_append, reached]; rfl⟩, ?_⟩
        rw [Problem.declared_after, declared_eq, issuedBy_append, issuedBy_entry, if_pos rfl]
      · rename_i apart
        obtain ⟨created, declared_eq⟩ := recorded.accounts other next changed
        refine ⟨created, ?_⟩
        rw [declared_eq, issuedBy_append, issuedBy_entry, if_neg apart, List.append_nil]
    · intro entry listed
      rcases List.mem_append.mp listed with old | new
      · obtain ⟨known, knownPresent⟩ := recorded.created entry old
        exact ⟨_, problem?_after knownPresent _⟩
      · rw [answer, Option.mem_toList, Option.map_eq_some_iff] at new
        obtain ⟨handle, _, rfl⟩ := new
        exact ⟨_, problem?_after present _⟩
    · rw [answer]
      cases returned : operation.declared? problem with
      | none =>
        rw [Option.map_none, Option.toList_none, List.append_nil]
        exact recorded.distinct
      | some handle =>
        obtain ⟨name, count, dim, rfl⟩ := Problem.eq_fresh_of_declared? returned
        refine List.pairwise_append.mpr ⟨recorded.distinct, List.pairwise_singleton _ _, ?_⟩
        intro earlier listed later new
        rw [List.mem_singleton.mp new]
        exact recorded.fresh_not_sameAs present listed name count dim

/-- After a run of steps its history is recorded. -/
theorem Recorded.run {history : List (ProblemId × Variable)}
    (recorded : workspace.Recorded history) (steps : List (Step α)) :
    (workspace.run steps).Recorded (history ++ workspace.history steps) := by
  induction steps generalizing workspace history with
  | nil => rwa [Workspace.history, List.append_nil]
  | cons step rest inductionHypothesis =>
    rw [Workspace.history, ← List.append_assoc]
    refine inductionHypothesis ?_
    cases step with
    | create name =>
      rw [returned, Option.toList_none, List.append_nil]
      exact recorded.create name
    | call id operation => exact recorded.call id operation

theorem recorded_run (steps : List (Step α)) :
    ((empty : Workspace α).run steps).Recorded ((empty : Workspace α).history steps) :=
  recorded_empty.run steps

theorem history_append (workspace : Workspace α) (earlier later : List (Step α)) :
    workspace.history (earlier ++ later) =
      workspace.history earlier ++ (workspace.run earlier).history later := by
  induction earlier generalizing workspace with
  | nil => rfl
  | cons step rest inductionHypothesis =>
    rw [List.cons_append, history, inductionHypothesis, history, List.append_assoc]
    rfl

/-! ### Isolation -/

/-- Which calls on a problem with a number are refused for a variable: those that come to look at
one that the history does not list under the number. -/
structure Guards (history : List (ProblemId × Variable)) (id : ProblemId)
    (problem : Problem α) : Prop where
  level : ∀ slice owner, (owner, slice.source) ∈ history →
    (IsForeign (problem.level slice) ↔ (id, slice.source) ∉ history)
  levelMatrix : ∀ slice owner, (owner, slice.source) ∈ history →
    (IsForeign (problem.levelMatrix slice) ↔
      slice.shape.rank ≤ 2 ∧ (id, slice.source) ∉ history)
  evaluate : ∀ expr : Expr α,
    (∀ term ∈ expr.terms, ∃ owner, (owner, term.slice.source) ∈ history) →
      (IsForeign (problem.evaluate expr) ↔
        ∃ term ∈ expr.terms, (id, term.slice.source) ∉ history)
  setObjective : ∀ sense, ∀ expr : Expr α,
    (∀ term ∈ expr.terms, ∃ owner, (owner, term.slice.source) ∈ history) →
      (IsForeign (problem.setObjective sense expr) ↔
        problem.solution = none ∧ ∃ term ∈ expr.terms, (id, term.slice.source) ∉ history)
  constrain : ∀ domain, ∀ expr : Expr α,
    (∀ term ∈ expr.terms, ∃ owner, (owner, term.slice.source) ∈ history) →
      (IsForeign (problem.constrain expr domain) ↔
        problem.solution = none ∧ ∃ term ∈ expr.terms, (id, term.slice.source) ∉ history)

theorem Recorded.guards {history : List (ProblemId × Variable)}
    (recorded : workspace.Recorded history) {id : ProblemId} {problem : Problem α}
    (present : workspace.problem? id = some problem) : Guards history id problem := by
  have foreign : ∀ source, (∃ owner, (owner, source) ∈ history) →
      (problem.owns source = false ↔ (id, source) ∉ history) := by
    rintro source ⟨owner, listed⟩
    rw [← Bool.not_eq_true, recorded.owns_iff present listed]
  have foreignTerm : ∀ expr : Expr α,
      (∀ term ∈ expr.terms, ∃ owner, (owner, term.slice.source) ∈ history) →
        ((∃ term ∈ expr.terms, problem.owns term.slice.source = false) ↔
          ∃ term ∈ expr.terms, (id, term.slice.source) ∉ history) := by
    intro expr listed
    refine exists_congr fun term => and_congr_right fun member => ?_
    exact foreign _ (listed term member)
  refine ⟨?_, ?_, ?_, ?_, ?_⟩
  · intro slice owner listed
    rw [problem.isForeign_level_iff, foreign _ ⟨owner, listed⟩]
  · intro slice owner listed
    rw [problem.isForeign_levelMatrix_iff, foreign _ ⟨owner, listed⟩]
  · intro expr listed
    rw [problem.isForeign_evaluate_iff, foreignTerm expr listed]
  · intro sense expr listed
    rw [problem.isForeign_setObjective_iff, foreignTerm expr listed]
  · intro domain expr listed
    rw [problem.isForeign_constrain_iff, foreignTerm expr listed]

/-- However the calls on the problems of a workspace are interleaved: a handle that a problem has
returned is accepted by that problem ever after and refused by all others; the calls that are given
variables are refused for one exactly if they come to look at one that their problem did not
declare; and the state of a problem is the one that the calls on it alone lead to. No two
declarations return handles that count as the same. -/
theorem ownership_isolated (earlier later : List (Step α)) :
    (∀ owner handle, (owner, handle) ∈ (empty : Workspace α).history earlier →
      (∃ problem, ((empty : Workspace α).run (earlier ++ later)).problem? owner = some problem ∧
        problem.requireOwned handle = .ok ()) ∧
      ∀ id problem, ((empty : Workspace α).run (earlier ++ later)).problem? id = some problem →
        id ≠ owner → problem.requireOwned handle = .error (.foreignVariable handle.label)) ∧
    (∀ id problem, ((empty : Workspace α).run earlier).problem? id = some problem →
      Guards ((empty : Workspace α).history earlier) id problem ∧
      ((empty : Workspace α).run (earlier ++ later)).problem? id =
        some (problem.run (later.filterMap (Step.callOn? id)))) ∧
    ((empty : Workspace α).history earlier).Pairwise
      fun first second => first.2.sameAs second.2 = false := by
  have recorded := recorded_run earlier
  have recordedLater := recorded_run (earlier ++ later)
  refine ⟨fun owner handle listed => ?_, fun id problem present => ⟨?_, ?_⟩, recorded.distinct⟩
  · have stillListed : (owner, handle) ∈ (empty : Workspace α).history (earlier ++ later) := by
      rw [history_append]
      exact List.mem_append_left _ listed
    obtain ⟨carried, problem, present, known⟩ := recordedLater.declared_of_listed stillListed
    refine ⟨⟨problem, present, ?_⟩, fun id other otherPresent apart => ?_⟩
    · rw [Problem.requireOwned_eq_ok_iff]
      exact (recordedLater.accounts owner problem present).visited.arranged.owns known
    · rw [Problem.requireOwned_eq_error_iff, ← Bool.not_eq_true,
        recordedLater.owns_iff otherPresent stillListed]
      refine ⟨fun own => apart ?_, rfl⟩
      rw [← (recordedLater.declared_of_listed own).1, carried]
  · exact recorded.guards present
  · rw [run, List.foldl_append]
    exact problem?_run present later

end Workspace

/-! ### Two problems that look alike -/

namespace Sample

/-- Two problems are created, and each declares a block of the same shape. -/
def twins : List (Step ℚ) :=
  [.create none, .create none, .call 0 (.declare none 1 2), .call 1 (.declare none 1 2)]

/-- The second problem tries to constrain the block of the first one and its own. -/
def mixup : List (Step ℚ) :=
  [.call 1 (.constrain expr (.lessThan 5)), .call 1 (.setObjective .minimize (.constant 0))]

end Sample

/-- The handles of the two blocks differ in the number of their problem only, and the second problem
refuses the first one. -/
theorem Workspace.ownership_isolated_twins :
    (empty : Workspace ℚ).history Sample.twins =
        [(0, Sample.handle), (1, { Sample.handle with owner := 1 })] ∧
      ∃ problem, ((empty : Workspace ℚ).run (Sample.twins ++ Sample.mixup)).problem? 1 =
          some problem ∧
        problem.requireOwned Sample.handle = .error (.foreignVariable "X0") ∧
        problem.requireOwned { Sample.handle with owner := 1 } = .ok () := by
  have listed : (empty : Workspace ℚ).history Sample.twins =
      [(0, Sample.handle), (1, { Sample.handle with owner := 1 })] := rfl
  obtain ⟨accepted, _⟩ := ownership_isolated Sample.twins Sample.mixup
  obtain ⟨⟨problem, present, own⟩, _⟩ :=
    accepted 1 { Sample.handle with owner := 1 } (by rw [listed]; decide)
  refine ⟨listed, problem, present, ?_, own⟩
  exact (accepted 0 Sample.handle (by rw [listed]; decide)).2 1 problem present (by decide)

end BlockCone
