/-
This file gives lists of coefficients their value at a vector.

The program weighs entries of a vector in one place, and that place can fail: a column that lies
outside of the vector stops it. The first half says when it does not, for coefficients of any
kind, and then names the terms that are added up. The second half is exact arithmetic, where the
sum of these terms depends neither on their order nor on terms that are zero, so it can be moved
through every rearrangement that rows go through.
-/

import Mathlib.Algebra.BigOperators.Group.List.Basic
import BlockCone.Proofs.ExactScalar
import BlockCone.Proofs.Fallible
import BlockCone.LinearForm

namespace BlockCone

/-- Lists in strict order of column are known by what they list. -/
theorem eq_of_increasing {β : Type} {left right : List (Nat × β)}
    (leftIncreasing : left.Pairwise fun first second => first.1 < second.1)
    (rightIncreasing : right.Pairwise fun first second => first.1 < second.1)
    (same : ∀ entry, entry ∈ left ↔ entry ∈ right) : left = right := by
  have irreflexive : Std.Irrefl fun first second : Nat × β => first.1 < second.1 :=
    ⟨fun entry => Nat.lt_irrefl entry.1⟩
  have antisymmetric : Std.Antisymm fun first second : Nat × β => first.1 < second.1 :=
    ⟨fun first second before after => absurd before (Nat.lt_asymm after)⟩
  exact leftIncreasing.eq_of_mem_iff rightIncreasing same

/-- The entry of a vector at a column, zero outside of it. -/
def entryOf {α : Type} [Zero α] (point : Array α) (col : Nat) : α :=
  (point[col]?).getD 0

theorem getElem?_eq_entryOf {α : Type} [Zero α] {point : Array α} {col : Nat}
    (within : col < point.size) : point[col]? = some (entryOf point col) := by
  rw [entryOf, Array.getElem?_eq_getElem within, Option.getD_some]

theorem readPoint_eq_ok {α : Type} [Zero α] {point : Array α} {col : Nat}
    (within : col < point.size) : readPoint point col = .ok (entryOf point col) := by
  simp only [readPoint, getElem?_eq_entryOf within]

/-- Coefficients over the columns of a vector can be weighed with it. -/
theorem weighedSum_eq_ok {α : Type} [Scalar α] {coeffs : List (Nat × α)} {point : Array α}
    (within : ∀ entry ∈ coeffs, entry.1 < point.size) :
    weighedSum coeffs point =
      .ok (Scalar.sum (coeffs.map fun entry => entry.2 * entryOf point entry.1)) := by
  have terms : (coeffs.mapM fun (entry : Nat × α) => do
      let level ← readPoint point entry.1
      pure (entry.2 * level)) =
      Except.ok (coeffs.map fun entry => entry.2 * entryOf point entry.1) := by
    refine mapM_eq_ok coeffs fun entry member => ?_
    rw [readPoint_eq_ok (within entry member)]
    rfl
  unfold weighedSum
  rw [terms]
  rfl

/-! ### Exact values -/

section Exact

variable {K : Type} [ExactScalar K]

/-- The exact sum of coefficients times levels. -/
def weighed (coeffs : List (Nat × K)) (level : Nat → K) : K :=
  (coeffs.map fun entry => entry.2 * level entry.1).sum

@[simp]
theorem weighed_nil (level : Nat → K) : weighed [] level = 0 := rfl

@[simp]
theorem weighed_cons (entry : Nat × K) (coeffs : List (Nat × K)) (level : Nat → K) :
    weighed (entry :: coeffs) level = entry.2 * level entry.1 + weighed coeffs level := by
  simp only [weighed, List.map_cons, List.sum_cons]

@[simp]
theorem weighed_append (left right : List (Nat × K)) (level : Nat → K) :
    weighed (left ++ right) level = weighed left level + weighed right level := by
  simp only [weighed, List.map_append, List.sum_append]

/-- Only the levels of the named columns matter. -/
theorem weighed_congr {coeffs : List (Nat × K)} {left right : Nat → K}
    (same : ∀ entry ∈ coeffs, left entry.1 = right entry.1) :
    weighed coeffs left = weighed coeffs right := by
  unfold weighed
  rw [List.map_congr_left fun entry member => by rw [same entry member]]

theorem weighed_perm {left right : List (Nat × K)} (same : left.Perm right) (level : Nat → K) :
    weighed left level = weighed right level :=
  (same.map _).sum_eq

@[simp]
theorem weighed_reverse (coeffs : List (Nat × K)) (level : Nat → K) :
    weighed coeffs.reverse level = weighed coeffs level :=
  weighed_perm (List.reverse_perm coeffs) level

theorem weighed_eq_zero {coeffs : List (Nat × K)} {level : Nat → K}
    (none : ∀ entry ∈ coeffs, entry.2 * level entry.1 = 0) : weighed coeffs level = 0 := by
  refine List.sum_eq_zero fun term member => ?_
  obtain ⟨entry, listed, rfl⟩ := List.mem_map.mp member
  exact none entry listed

/-- Coefficients that are zero weigh nothing. -/
theorem weighed_filter_nonzero (coeffs : List (Nat × K)) (level : Nat → K) :
    weighed (coeffs.filter fun entry => !Scalar.isZero entry.2) level = weighed coeffs level := by
  induction coeffs with
  | nil => rfl
  | cons entry rest inductionHypothesis =>
    by_cases zero : entry.2 = 0
    · rw [List.filter_cons_of_neg (by simp [zero]), weighed_cons, zero, zero_mul, zero_add,
        inductionHypothesis]
    · rw [List.filter_cons_of_pos (by simp [zero]), weighed_cons, weighed_cons,
        inductionHypothesis]

/-- Coefficients of a part that starts at a column weigh what they weigh as columns. -/
theorem weighed_shift (offset : Nat) (coeffs : List (Nat × K)) (level : Nat → K) :
    weighed (coeffs.map fun entry => (offset + entry.1, entry.2)) level =
      weighed coeffs fun col => level (offset + col) := by
  simp only [weighed, List.map_map]
  rfl

theorem weighed_flatMap {ι : Type} (parts : List ι) (coeffs : ι → List (Nat × K))
    (level : Nat → K) :
    weighed (parts.flatMap coeffs) level =
      (parts.map fun part => weighed (coeffs part) level).sum := by
  induction parts with
  | nil => rfl
  | cons part rest inductionHypothesis =>
    rw [List.flatMap_cons, weighed_append, inductionHypothesis, List.map_cons, List.sum_cons]

/-- In exact arithmetic the program's weighed sum is the weighed sum. -/
theorem weighedSum_exact {coeffs : List (Nat × K)} {point : Array K}
    (within : ∀ entry ∈ coeffs, entry.1 < point.size) :
    weighedSum coeffs point = .ok (weighed coeffs (entryOf point)) := by
  rw [weighedSum_eq_ok within, Scalar.sum_eq]
  rfl

end Exact

end BlockCone
