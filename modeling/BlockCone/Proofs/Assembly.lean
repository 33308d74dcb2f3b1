/-
This file proves what assembling a sparse matrix keeps.

Assembling sorts triplets and adds up neighbours at one position. Whatever the addition is, no
position appears that was not named, and the stored entries are strictly ordered, so each position
is stored at most once. Sorting does not disturb triplets of one position, so what is stored there
is the sum of their values in the order in which they were given. In exact arithmetic the sum of all
values is kept too, each weighed by any function of its position. That sum is how rows, products and
whole matrices are read off the stored entries.
-/

import Mathlib.Algebra.BigOperators.Group.Finset.Basic
import Mathlib.Algebra.BigOperators.Group.List.Basic
import Mathlib.Tactic.Ring
import BlockCone.Proofs.ExactScalar
import BlockCone.Sparse

namespace BlockCone

/-! ### Order and positions -/

namespace Triplet

variable {α : Type}

/-- The strict order of storage: by column, then by row. -/
def Before (left right : Triplet α) : Prop :=
  left.col < right.col ∨ left.col = right.col ∧ left.row < right.row

theorem notAfter_iff (left right : Triplet α) :
    left.notAfter right = true ↔
      left.col < right.col ∨ left.col = right.col ∧ left.row ≤ right.row := by
  simp only [notAfter, Bool.or_eq_true, Bool.and_eq_true, decide_eq_true_eq, beq_iff_eq]

theorem samePosition_iff (left right : Triplet α) :
    left.samePosition right = true ↔ left.col = right.col ∧ left.row = right.row := by
  simp only [samePosition, Bool.and_eq_true, beq_iff_eq]

theorem isWithin_iff (rows cols : Nat) (triplet : Triplet α) :
    triplet.isWithin rows cols = true ↔ triplet.row < rows ∧ triplet.col < cols := by
  simp only [isWithin, Bool.and_eq_true, decide_eq_true_eq]

theorem notAfter_trans (first second third : Triplet α) (left : first.notAfter second = true)
    (right : second.notAfter third = true) : first.notAfter third = true := by
  rw [notAfter_iff] at left right ⊢
  omega

theorem notAfter_total (left right : Triplet α) :
    (left.notAfter right || right.notAfter left) = true := by
  rw [Bool.or_eq_true, notAfter_iff, notAfter_iff]
  omega

/-- Of two triplets in order that name different positions, the first comes strictly before. -/
theorem before_of_notAfter {left right : Triplet α} (ordered : left.notAfter right = true)
    (apart : ¬ left.samePosition right = true) : left.Before right := by
  rw [notAfter_iff] at ordered
  rw [samePosition_iff] at apart
  unfold Before
  omega

section Order

variable {left right : Triplet α}

/-- Triplets in strict order name different positions. -/
theorem Before.apart (before : left.Before right) :
    ¬ (right.row = left.row ∧ right.col = left.col) := by
  unfold Before at before
  omega

theorem Before.asymm (before : left.Before right) : ¬ right.Before left := by
  unfold Before at before ⊢
  omega

theorem Before.col_le (before : left.Before right) : left.col ≤ right.col := by
  unfold Before at before
  omega

theorem Before.row_lt (before : left.Before right) (sameCol : left.col = right.col) :
    left.row < right.row := by
  unfold Before at before
  omega

theorem Before.col_lt (before : left.Before right) (sameRow : left.row = right.row) :
    left.col < right.col := by
  unfold Before at before
  omega

theorem Before.trans_notAfter {later : Triplet α} (before : left.Before right)
    (ordered : right.notAfter later = true) : left.Before later := by
  rw [notAfter_iff] at ordered
  unfold Before at before ⊢
  omega

end Order

section Sorted

variable {first next : Triplet α} {rest : List (Triplet α)}

/-- The head of a sorted list stays in order when its neighbour is merged into it. -/
theorem sorted_merged
    (sorted : (first :: next :: rest).Pairwise fun left right => left.notAfter right = true)
    (value : α) :
    ({ first with value := value } :: rest).Pairwise
      fun left right => left.notAfter right = true := by
  obtain ⟨least, sortedRest⟩ := List.pairwise_cons.mp sorted
  exact List.pairwise_cons.mpr ⟨fun triplet member => least triplet (List.mem_cons_of_mem _ member),
    (List.pairwise_cons.mp sortedRest).2⟩

/-- A head that names another position than its neighbour comes strictly before all others. -/
theorem before_of_sorted
    (sorted : (first :: next :: rest).Pairwise fun left right => left.notAfter right = true)
    (apart : ¬ first.samePosition next = true) :
    ∀ triplet ∈ next :: rest, first.Before triplet := by
  obtain ⟨least, sortedRest⟩ := List.pairwise_cons.mp sorted
  have start := before_of_notAfter (least next List.mem_cons_self) apart
  exact List.forall_mem_cons.mpr ⟨start, fun triplet later =>
    start.trans_notAfter ((List.pairwise_cons.mp sortedRest).1 triplet later)⟩

end Sorted

end Triplet

namespace Sparse

variable {α : Type} [Add α]

/-- Merging names no new position. -/
theorem position_mergeInto {first triplet : Triplet α} {rest : List (Triplet α)}
    (member : triplet ∈ mergeInto first rest) :
    ∃ named ∈ first :: rest, named.row = triplet.row ∧ named.col = triplet.col := by
  induction rest generalizing first with
  | nil =>
    exact ⟨first, List.mem_cons_self, by rw [List.mem_singleton.mp member], by
      rw [List.mem_singleton.mp member]⟩
  | cons next rest inductionHypothesis =>
    rw [mergeInto] at member
    split at member
    · obtain ⟨named, namedMember, position⟩ := inductionHypothesis member
      rcases List.mem_cons.mp namedMember with rfl | later
      · exact ⟨first, List.mem_cons_self, position⟩
      · exact ⟨named, List.mem_cons_of_mem _ (List.mem_cons_of_mem _ later), position⟩
    · rcases List.mem_cons.mp member with rfl | later
      · exact ⟨triplet, List.mem_cons_self, rfl, rfl⟩
      · obtain ⟨named, namedMember, position⟩ := inductionHypothesis later
        exact ⟨named, List.mem_cons_of_mem _ namedMember, position⟩

/-- Merging stores every position that is named. -/
theorem exists_mergeInto {first named : Triplet α} {rest : List (Triplet α)}
    (member : named ∈ first :: rest) :
    ∃ stored ∈ mergeInto first rest, named.row = stored.row ∧ named.col = stored.col := by
  induction rest generalizing first named with
  | nil =>
    rw [List.mem_singleton.mp member]
    exact ⟨first, List.mem_cons_self, rfl, rfl⟩
  | cons next rest inductionHypothesis =>
    rw [mergeInto]
    split
    · rename_i same
      obtain ⟨sameCol, sameRow⟩ := (Triplet.samePosition_iff first next).mp same
      have onto : ∃ kept ∈ { first with value := first.value + next.value } :: rest,
          named.row = kept.row ∧ named.col = kept.col := by
        rcases List.mem_cons.mp member with rfl | later
        · exact ⟨_, List.mem_cons_self, rfl, rfl⟩
        · rcases List.mem_cons.mp later with rfl | later
          · exact ⟨_, List.mem_cons_self, sameRow.symm, sameCol.symm⟩
          · exact ⟨named, List.mem_cons_of_mem _ later, rfl, rfl⟩
      obtain ⟨kept, keptMember, row, col⟩ := onto
      obtain ⟨stored, storedMember, position⟩ := inductionHypothesis keptMember
      exact ⟨stored, storedMember, row.trans position.1, col.trans position.2⟩
    · rcases List.mem_cons.mp member with rfl | later
      · exact ⟨named, List.mem_cons_self, rfl, rfl⟩
      · obtain ⟨stored, storedMember, position⟩ := inductionHypothesis later
        exact ⟨stored, List.mem_cons_of_mem _ storedMember, position⟩

/-- Merging a sorted list orders it strictly. -/
theorem mergeInto_pairwise {first : Triplet α} {rest : List (Triplet α)}
    (sorted : (first :: rest).Pairwise fun left right => left.notAfter right = true) :
    (mergeInto first rest).Pairwise Triplet.Before := by
  induction rest generalizing first with
  | nil => exact List.pairwise_singleton _ _
  | cons next rest inductionHypothesis =>
    rw [mergeInto]
    split
    · exact inductionHypothesis (Triplet.sorted_merged sorted _)
    · rename_i apart
      refine List.pairwise_cons.mpr ⟨fun triplet member => ?_,
        inductionHypothesis (List.pairwise_cons.mp sorted).2⟩
      obtain ⟨named, namedMember, sameRow, sameCol⟩ := position_mergeInto member
      have before := Triplet.before_of_sorted sorted apart named namedMember
      unfold Triplet.Before at before ⊢
      rwa [← sameRow, ← sameCol]

/-- An assembled matrix stores only positions that were named. -/
theorem position_assemble {rows cols : Nat} {triplets : List (Triplet α)} {stored : Triplet α}
    (member : stored ∈ (assemble rows cols triplets).entries) :
    ∃ named ∈ triplets, named.row = stored.row ∧ named.col = stored.col := by
  have sameMembers := List.mergeSort_perm triplets Triplet.notAfter
  simp only [assemble] at member
  cases sorted : triplets.mergeSort Triplet.notAfter with
  | nil =>
    rw [sorted] at member
    exact absurd member List.not_mem_nil
  | cons first rest =>
    rw [sorted] at member sameMembers
    obtain ⟨named, namedMember, position⟩ := position_mergeInto member
    exact ⟨named, sameMembers.mem_iff.mp namedMember, position⟩

/-- An assembled matrix stores every position that is named. -/
theorem exists_assemble (rows cols : Nat) {triplets : List (Triplet α)} {named : Triplet α}
    (member : named ∈ triplets) :
    ∃ stored ∈ (assemble rows cols triplets).entries,
      named.row = stored.row ∧ named.col = stored.col := by
  have sorted := (List.mergeSort_perm triplets Triplet.notAfter).mem_iff.mpr member
  simp only [assemble]
  cases order : triplets.mergeSort Triplet.notAfter with
  | nil =>
    rw [order] at sorted
    exact absurd sorted List.not_mem_nil
  | cons first rest =>
    rw [order] at sorted
    exact exists_mergeInto sorted

/-- An assembled matrix stores its entries in strict order. -/
theorem assemble_pairwise (rows cols : Nat) (triplets : List (Triplet α)) :
    (assemble rows cols triplets).entries.Pairwise Triplet.Before := by
  have sorted := List.pairwise_mergeSort (l := triplets) Triplet.notAfter_trans
    Triplet.notAfter_total
  simp only [assemble]
  cases order : triplets.mergeSort Triplet.notAfter with
  | nil => exact List.Pairwise.nil
  | cons first rest =>
    rw [order] at sorted
    exact mergeInto_pairwise sorted

/-- Assembling succeeds exactly if every triplet lies inside of the matrix. -/
theorem ofTriplets_eq_ok_iff {rows cols : Nat} {triplets : List (Triplet α)} {matrix : Sparse α} :
    ofTriplets rows cols triplets = .ok matrix ↔
      matrix = assemble rows cols triplets ∧
        ∀ triplet ∈ triplets, triplet.row < rows ∧ triplet.col < cols := by
  simp only [← Triplet.isWithin_iff, ← List.all_eq_true, ofTriplets]
  split
  · rename_i within
    simp [within, eq_comm]
  · rename_i outside
    simp [outside]

theorem ofTriplets_eq_error_iff {rows cols : Nat} {triplets : List (Triplet α)} {reason : Error} :
    ofTriplets rows cols triplets = .error reason ↔
      reason = .outOfBounds ∧ ¬ ∀ triplet ∈ triplets, triplet.row < rows ∧ triplet.col < cols := by
  simp only [← Triplet.isWithin_iff, ← List.all_eq_true, ofTriplets]
  split
  · rename_i within
    simp [within]
  · rename_i outside
    simp [outside, eq_comm]

end Sparse

/-! ### Looking up -/

namespace Sparse

variable {α : Type}

theorem lookup_cons (rows cols : Nat) (first : Triplet α) (rest : List (Triplet α))
    (row col : Nat) :
    lookup ⟨rows, cols, first :: rest⟩ row col =
      if first.row = row ∧ first.col = col then some first.value
      else lookup ⟨rows, cols, rest⟩ row col := by
  simp only [lookup, List.find?_cons]
  by_cases here : first.row = row ∧ first.col = col
  · simp [here]
  · rw [if_neg here]
    have elsewhere : (first.row == row && first.col == col) = false := by
      simpa only [Bool.and_eq_false_iff, beq_eq_false_iff_ne, ← not_and_or] using here
    simp only [elsewhere]

/-- Nothing is found at a position that no entry has. -/
theorem lookup_eq_none {rows cols row col : Nat} {entries : List (Triplet α)}
    (absent : ∀ entry ∈ entries, ¬ (entry.row = row ∧ entry.col = col)) :
    lookup ⟨rows, cols, entries⟩ row col = none := by
  induction entries with
  | nil => rfl
  | cons first rest inductionHypothesis =>
    rw [lookup_cons, if_neg (absent first List.mem_cons_self)]
    exact inductionHypothesis fun entry member => absent entry (List.mem_cons_of_mem _ member)

end Sparse

/-! ### Values in order -/

section Order

variable {α : Type}

/-- Whether a triplet names a position. -/
def Triplet.isAt (row col : Nat) (triplet : Triplet α) : Bool :=
  triplet.row == row && triplet.col == col

theorem Triplet.isAt_iff (row col : Nat) (triplet : Triplet α) :
    triplet.isAt row col = true ↔ triplet.row = row ∧ triplet.col = col := by
  simp only [isAt, Bool.and_eq_true, beq_iff_eq]

/-- The values that triplets give to a position, in the order of the triplets. -/
def Triplet.contributions (row col : Nat) (triplets : List (Triplet α)) : List α :=
  (triplets.filter (isAt row col)).map Triplet.value

theorem Triplet.contributions_cons (row col : Nat) (first : Triplet α) (rest : List (Triplet α)) :
    contributions row col (first :: rest) =
      if first.row = row ∧ first.col = col then first.value :: contributions row col rest
      else contributions row col rest := by
  simp only [contributions, List.filter_cons, isAt_iff]
  split <;> rfl

theorem Triplet.contributions_eq_nil {row col : Nat} {triplets : List (Triplet α)}
    (absent : ∀ triplet ∈ triplets, ¬ (triplet.row = row ∧ triplet.col = col)) :
    contributions row col triplets = [] := by
  rw [contributions, List.map_eq_nil_iff, List.filter_eq_nil_iff]
  simpa only [isAt_iff] using absent

/-- Sorting leaves the values of each position in their order. -/
theorem Triplet.contributions_mergeSort (row col : Nat) (triplets : List (Triplet α)) :
    contributions row col (triplets.mergeSort notAfter) = contributions row col triplets := by
  have level : (triplets.filter (isAt row col)).Pairwise
      fun left right => left.notAfter right = true := by
    refine List.pairwise_of_forall_mem_list fun left leftMember right rightMember => ?_
    have leftHere := (isAt_iff row col left).mp (List.mem_filter.mp leftMember).2
    have rightHere := (isAt_iff row col right).mp (List.mem_filter.mp rightMember).2
    rw [notAfter_iff]
    omega
  have kept : (triplets.filter (isAt row col)).Sublist
      ((triplets.mergeSort notAfter).filter (isAt row col)) := by
    have inside := List.sublist_mergeSort notAfter_trans notAfter_total level List.filter_sublist
    have again := inside.filter (isAt row col)
    rwa [List.filter_filter, List.filter_congr fun triplet _ => Bool.and_self _] at again
  have sameLength := ((List.mergeSort_perm triplets notAfter).filter (isAt row col)).length_eq
  rw [contributions, contributions, kept.eq_of_length sameLength.symm]

/-- The sum of values from left to right, starting with the first, if there is one. -/
def sumFromFirst? [Add α] : List α → Option α
  | [] => none
  | first :: rest => some (rest.foldl (· + ·) first)

namespace Sparse

variable [Add α]

/-- Merging a sorted list adds up the values of each position in their order. -/
theorem lookup_mergeInto {rows cols : Nat} {first : Triplet α} {rest : List (Triplet α)}
    (sorted : (first :: rest).Pairwise fun left right => left.notAfter right = true)
    (row col : Nat) :
    lookup ⟨rows, cols, mergeInto first rest⟩ row col =
      sumFromFirst? (Triplet.contributions row col (first :: rest)) := by
  induction rest generalizing first with
  | nil =>
    rw [mergeInto, lookup_cons, Triplet.contributions_cons]
    split <;> rfl
  | cons next rest inductionHypothesis =>
    rw [mergeInto]
    split
    · rename_i same
      obtain ⟨sameCol, sameRow⟩ := (Triplet.samePosition_iff first next).mp same
      rw [inductionHypothesis (Triplet.sorted_merged sorted _)]
      simp only [Triplet.contributions_cons, sameRow, sameCol]
      split <;> rfl
    · rename_i apart
      rw [lookup_cons, Triplet.contributions_cons,
        inductionHypothesis (List.pairwise_cons.mp sorted).2]
      split
      · rename_i here
        obtain ⟨rfl, rfl⟩ := here
        have nothing : Triplet.contributions first.row first.col (next :: rest) = [] :=
          Triplet.contributions_eq_nil fun triplet member =>
            (Triplet.before_of_sorted sorted apart triplet member).apart
        rw [nothing]
        rfl
      · rfl

/-- Assembling adds up the values of each position in the order in which they were given. -/
theorem lookup_assemble (rows cols : Nat) (triplets : List (Triplet α)) (row col : Nat) :
    (assemble rows cols triplets).lookup row col =
      sumFromFirst? (Triplet.contributions row col triplets) := by
  have sorted := List.pairwise_mergeSort (l := triplets) Triplet.notAfter_trans
    Triplet.notAfter_total
  rw [← Triplet.contributions_mergeSort, assemble]
  cases order : triplets.mergeSort Triplet.notAfter with
  | nil => rfl
  | cons first rest =>
    rw [order] at sorted
    exact lookup_mergeInto sorted row col

omit [Add α] in
/-- In strict order an entry is found at its own position. -/
theorem lookup_eq_some_iff {rows cols : Nat} {entries : List (Triplet α)}
    (sorted : entries.Pairwise Triplet.Before) {row col : Nat} {value : α} :
    lookup ⟨rows, cols, entries⟩ row col = some value ↔ ⟨row, col, value⟩ ∈ entries := by
  induction entries with
  | nil => simp [lookup]
  | cons first rest inductionHypothesis =>
    obtain ⟨least, sortedRest⟩ := List.pairwise_cons.mp sorted
    obtain ⟨firstRow, firstCol, firstValue⟩ := first
    rw [lookup_cons, List.mem_cons, Triplet.mk.injEq]
    split
    · rename_i here
      obtain ⟨rfl, rfl⟩ := here
      have absent : (⟨firstRow, firstCol, value⟩ : Triplet α) ∉ rest :=
        fun member => (least _ member).apart ⟨rfl, rfl⟩
      simp [absent, eq_comm]
    · rename_i elsewhere
      rw [inductionHypothesis sortedRest]
      constructor
      · exact Or.inr
      · rintro (⟨rfl, rfl, _⟩ | member)
        · exact absurd ⟨rfl, rfl⟩ elsewhere
        · exact member

end Sparse

end Order

/-! ### Exact weights -/

section Exact

variable {K : Type} [ExactScalar K]

/-- The exact sum of the values of triplets, each weighed by a function of its position. -/
def tripletSum (triplets : List (Triplet K)) (factor : Nat → Nat → K) : K :=
  (triplets.map fun triplet => triplet.value * factor triplet.row triplet.col).sum

@[simp]
theorem tripletSum_nil (factor : Nat → Nat → K) : tripletSum [] factor = 0 := rfl

@[simp]
theorem tripletSum_cons (triplet : Triplet K) (triplets : List (Triplet K))
    (factor : Nat → Nat → K) :
    tripletSum (triplet :: triplets) factor =
      triplet.value * factor triplet.row triplet.col + tripletSum triplets factor := by
  simp only [tripletSum, List.map_cons, List.sum_cons]

theorem tripletSum_append (left right : List (Triplet K)) (factor : Nat → Nat → K) :
    tripletSum (left ++ right) factor = tripletSum left factor + tripletSum right factor := by
  simp only [tripletSum, List.map_append, List.sum_append]

namespace Sparse

theorem tripletSum_mergeInto (first : Triplet K) (rest : List (Triplet K))
    (factor : Nat → Nat → K) :
    tripletSum (mergeInto first rest) factor = tripletSum (first :: rest) factor := by
  induction rest generalizing first with
  | nil => rfl
  | cons next rest inductionHypothesis =>
    rw [mergeInto]
    split
    · rename_i same
      obtain ⟨sameCol, sameRow⟩ := (Triplet.samePosition_iff first next).mp same
      rw [inductionHypothesis]
      simp only [tripletSum_cons, sameCol, sameRow]
      ring
    · rw [tripletSum_cons, inductionHypothesis, tripletSum_cons first]

/-- Assembling keeps every weighed sum. -/
theorem tripletSum_assemble (rows cols : Nat) (triplets : List (Triplet K))
    (factor : Nat → Nat → K) :
    tripletSum (assemble rows cols triplets).entries factor = tripletSum triplets factor := by
  have rearranged : tripletSum (triplets.mergeSort Triplet.notAfter) factor =
      tripletSum triplets factor :=
    ((List.mergeSort_perm triplets Triplet.notAfter).map _).sum_eq
  rw [← rearranged]
  simp only [assemble]
  cases triplets.mergeSort Triplet.notAfter with
  | nil => rfl
  | cons first rest => exact tripletSum_mergeInto first rest factor

/-! ### Reading rows back -/

/-- The product of a row with a vector adds up the stored entries of that row. -/
theorem sum_lookup {rows cols : Nat} {entries : List (Triplet K)}
    (sorted : entries.Pairwise Triplet.Before) (within : ∀ entry ∈ entries, entry.col < cols)
    (row : Nat) (level : Nat → K) :
    ∑ col ∈ Finset.range cols, (lookup ⟨rows, cols, entries⟩ row col).getD 0 * level col =
      tripletSum entries fun entryRow entryCol => if entryRow = row then level entryCol else 0 := by
  induction entries with
  | nil => simp [lookup]
  | cons first rest inductionHypothesis =>
    obtain ⟨least, sortedRest⟩ := List.pairwise_cons.mp sorted
    have deeper := inductionHypothesis sortedRest fun entry member =>
      within entry (List.mem_cons_of_mem _ member)
    have onlyHere : ∀ entry ∈ rest, ¬ (entry.row = first.row ∧ entry.col = first.col) :=
      fun entry member => (least entry member).apart
    have pointwise : ∀ col ∈ Finset.range cols,
        (lookup ⟨rows, cols, first :: rest⟩ row col).getD 0 * level col =
          (if first.col = col then
            if first.row = row then first.value * level first.col else 0 else 0) +
          (lookup ⟨rows, cols, rest⟩ row col).getD 0 * level col := by
      intro col _
      rw [lookup_cons]
      by_cases here : first.row = row ∧ first.col = col
      · obtain ⟨rfl, rfl⟩ := here
        rw [lookup_eq_none onlyHere]
        simp
      · rw [if_neg here]
        by_cases sameCol : first.col = col
        · rw [if_pos sameCol, if_neg fun sameRow => here ⟨sameRow, sameCol⟩, zero_add]
        · rw [if_neg sameCol, zero_add]
    rw [Finset.sum_congr rfl pointwise, Finset.sum_add_distrib, deeper, Finset.sum_ite_eq,
      if_pos (Finset.mem_range.mpr (within first List.mem_cons_self)), tripletSum_cons, mul_ite,
      mul_zero]

end Sparse

end Exact

end BlockCone
