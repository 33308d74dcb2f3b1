/-
This file proves which settings can be saved and loaded again.

The text of settings holds all of their fields, so nothing is left to the defaults when it is read,
and each field is recalled by its reader. Four of the fields are doubles, and settings come back
exactly if these are finite. An infinite time limit stands for no limit, and it is the default; it
is printed as `null`, which is no number. So the default settings have a text, but not one that
can be read.
-/

import BlockCone.Proofs.JsonRecords
import BlockCone.Settings

namespace BlockCone

open Json (Recalls InOrder recalls_bool recalls_natural recalls_real naturalLimit)

namespace Settings

/-- The doubles of settings. -/
def doubles (settings : Settings) : List Float :=
  [settings.timeLimit, settings.tolGapAbs, settings.tolGapRel, settings.tolFeas]

theorem recalls {settings : Settings} (small : settings.maxIter < iterationLimit)
    (reads : ∀ value ∈ settings.doubles, Decimal.ReadsBack value) :
    Recalls layout.reader settings.json settings.doubles settings := by
  have printable : settings.maxIter < naturalLimit := Nat.lt_trans small (by decide)
  exact InOrder.recalls (by decide)
    (.plain (recalls_bool settings.verbose)
      (.plain (recalls_natural small printable)
        (.of (recalls_real (reads settings.timeLimit (by simp [doubles])))
          (.of (recalls_real (reads settings.tolGapAbs (by simp [doubles])))
            (.of (recalls_real (reads settings.tolGapRel (by simp [doubles])))
              (.of (recalls_real (reads settings.tolFeas (by simp [doubles]))) (.done _)))))))

/-- Reading the text of settings gives the settings if their doubles are finite, and a mismatch if
not. -/
theorem ofText_toText {settings : Settings} (small : settings.maxIter < iterationLimit)
    (reads : ∀ value ∈ settings.doubles, Decimal.ReadsBack value) :
    ofText settings.toText =
      if settings.doubles.all Float.isFinite then .ok settings
      else .error (.unreadable .mismatched) :=
  (recalls small reads).run_print .compact

/-- Settings whose number of iterations fits into 32 bits, and whose finite doubles are each read
back from their own texts, are loaded from their text exactly as they were saved if all of their
doubles are finite, and are refused as a mismatch otherwise. -/
theorem loads_iff {settings : Settings} (small : settings.maxIter < iterationLimit)
    (reads : ∀ value ∈ settings.doubles, value.isFinite = true → Decimal.ReadsBack value) :
    (ofText settings.toText = .ok settings ↔
        ∀ value ∈ settings.doubles, value.isFinite = true) ∧
      (ofText settings.toText = .error (.unreadable .mismatched) ↔
        ∃ value ∈ settings.doubles, value.isFinite = false) := by
  have read := ofText_toText small fun value member =>
    Decimal.readsBack_of_isFinite (reads value member)
  have notAll : settings.doubles.all Float.isFinite = false ↔
      ∃ value ∈ settings.doubles, value.isFinite = false := by
    simp only [List.all_eq_false, Bool.not_eq_true]
  rw [read, ← notAll, ← List.all_eq_true]
  cases settings.doubles.all Float.isFinite <;> simp

end Settings

/-- Settings with the largest number of iterations, a tolerance of negative zero, and a time limit
that is still to be given. -/
def Sample.settings (timeLimit : Float) : Settings :=
  ⟨true, 4294967295, timeLimit, -0.0, 1e-300, 0.1⟩

namespace Settings

/-- The sample is loaded with a time limit of seconds, and refused with an infinite one. -/
theorem loads_iff_sample :
    (∀ limit ∈ [2.5, 1.0 / 0.0], ∀ value ∈ (Sample.settings limit).doubles,
        value.isFinite = true → Decimal.ReadsBack value) ∧
      ofText (Sample.settings 2.5).toText = .ok (Sample.settings 2.5) ∧
      ofText (Sample.settings (1.0 / 0.0)).toText = .error (.unreadable .mismatched) := by
  have reads : ∀ limit ∈ [2.5, 1.0 / 0.0], ∀ value ∈ (Sample.settings limit).doubles,
      value.isFinite = true → Decimal.ReadsBack value := by decide +kernel
  have limited : ∀ value ∈ (Sample.settings 2.5).doubles, value.isFinite = true := by decide +kernel
  have unlimited : ∃ value ∈ (Sample.settings (1.0 / 0.0)).doubles, value.isFinite = false := by
    decide +kernel
  have fits : ∀ limit, (Sample.settings limit).maxIter < iterationLimit :=
    fun limit => Nat.lt_succ_self 4294967295
  exact ⟨reads, (loads_iff (fits _) (reads _ List.mem_cons_self)).1.mpr limited,
    (loads_iff (fits _)
      (reads _ (List.mem_cons_of_mem _ List.mem_cons_self))).2.mpr unlimited⟩

/-- The default settings have no field that is not a number, and cannot be loaded from their own
text. -/
theorem default_not_loaded :
    (∀ value ∈ default.doubles, value.isNaN = false) ∧
      (∀ value ∈ default.doubles, value.isFinite = true → Decimal.ReadsBack value) ∧
      ofText default.toText ≠ .ok default ∧
      ofText default.toText = .error (.unreadable .mismatched) := by
  have numbers : ∀ value ∈ default.doubles, value.isNaN = false := by decide +kernel
  have reads : ∀ value ∈ default.doubles, Decimal.ReadsBack value := by decide +kernel
  have infinite : ¬ default.doubles.all Float.isFinite = true := by decide +kernel
  have refused : ofText default.toText = .error (.unreadable .mismatched) := by
    rw [ofText_toText (by decide) reads, if_neg infinite]
  refine ⟨numbers, fun value member _ => reads value member, ?_, refused⟩
  intro same
  cases refused.symm.trans same

end Settings

end BlockCone
