/-
This file proves that settings which are given in part override exactly the fields that they name.

Reading an object starts from the defaults, and every member of a known key replaces one field. So
after any number of members the record holds what was given under the keys that were met and the
defaults elsewhere, and that is all the proof has to carry along: it does not matter in which order
the keys came, or which others stood between them. Members with keys of their own are passed over,
whatever JSON value they have.

A double is given by a text that is read as it. The text that is printed for a finite double need
not be one, since the reader does not always find the nearest double: there are settings that come
back with another tolerance. A key that comes twice is a mismatch as soon as it comes again, if the
values before it can be read. One that cannot be read is malformed before the second key is seen.
-/

import BlockCone.Proofs.PartialObjects
import BlockCone.Settings

namespace BlockCone

open Json (Member Reads IsReadable IsTextOf IsValue Spells isBlank)

namespace Settings

/-- The keys of the fields of settings. -/
def keys : List String :=
  layout.fields.map Json.Field.key

/-- Settings that hold what is given under some keys, and the defaults elsewhere. -/
def given (settings : Settings) (named : List String) : Settings where
  verbose := if "verbose" ∈ named then settings.verbose else default.verbose
  maxIter := if "max_iter" ∈ named then settings.maxIter else default.maxIter
  timeLimit := if "time_limit" ∈ named then settings.timeLimit else default.timeLimit
  tolGapAbs := if "tol_gap_abs" ∈ named then settings.tolGapAbs else default.tolGapAbs
  tolGapRel := if "tol_gap_rel" ∈ named then settings.tolGapRel else default.tolGapRel
  tolFeas := if "tol_feas" ∈ named then settings.tolFeas else default.tolFeas

/-- A member gives the value that settings have under its key, or any JSON value if its key is none
of theirs. -/
structure Gives (settings : Settings) (member : Member) : Prop where
  verbose : member.key = "verbose" →
    member.value = Json.chars .compact 0 (.bool settings.verbose)
  maxIter : member.key = "max_iter" → member.value = Nat.toDigits 10 settings.maxIter
  timeLimit : member.key = "time_limit" → IsTextOf member.value settings.timeLimit
  tolGapAbs : member.key = "tol_gap_abs" → IsTextOf member.value settings.tolGapAbs
  tolGapRel : member.key = "tol_gap_rel" → IsTextOf member.value settings.tolGapRel
  tolFeas : member.key = "tol_feas" → IsTextOf member.value settings.tolFeas
  other : member.key ∉ keys → IsValue member.value

variable {settings : Settings} {member : Member}

theorem given_nil (settings : Settings) : settings.given [] = default := rfl

theorem given_congr {named others : List String} (same : ∀ key, key ∈ named ↔ key ∈ others) :
    settings.given named = settings.given others := by
  simp only [given, same]

theorem given_cons_of_not_mem {key : String} (unknown : key ∉ keys) (named : List String) :
    settings.given (key :: named) = settings.given named := by
  have other : ∀ field ∈ keys, (field ∈ key :: named ↔ field ∈ named) := by
    intro field known
    rw [List.mem_cons, or_iff_right]
    rintro rfl
    exact unknown known
  simp only [given, other "verbose" (by decide), other "max_iter" (by decide),
    other "time_limit" (by decide), other "tol_gap_abs" (by decide),
    other "tol_gap_rel" (by decide), other "tol_feas" (by decide)]

/-- A member of a known key adds it to the keys under which settings are given. -/
theorem Gives.exists_field (small : settings.maxIter < iterationLimit)
    (gives : settings.Gives member) (known : member.key ∈ keys) (named : List String) :
    ∃ field, (layout.fields.find? fun field => field.key == member.key) = some field ∧
      Reads (field.read (settings.given named)) member.value
        (settings.given (member.key :: named)) := by
  obtain ⟨verbose, maxIter, timeLimit, tolGapAbs, tolGapRel, tolFeas, _⟩ := gives
  have printable : settings.maxIter < Json.naturalLimit := Nat.lt_trans small (by decide)
  simp only [keys, layout, Json.Field.of, List.map_cons, List.map_nil, List.mem_cons,
    List.not_mem_nil, or_false] at known
  rcases known with key | key | key | key | key | key <;> rw [key]
  · rw [verbose key]
    exact ⟨_, rfl, ((Json.recalls_bool settings.verbose).reads .compact 0).field
      (by simp [given]) _ _⟩
  · rw [maxIter key]
    exact ⟨_, rfl, ((Json.recalls_natural small printable).reads .compact 0).field
      (by simp [given]) _ _⟩
  · exact ⟨_, rfl, (timeLimit key).reads.field (by simp [given]) _ _⟩
  · exact ⟨_, rfl, (tolGapAbs key).reads.field (by simp [given]) _ _⟩
  · exact ⟨_, rfl, (tolGapRel key).reads.field (by simp [given]) _ _⟩
  · exact ⟨_, rfl, (tolFeas key).reads.field (by simp [given]) _ _⟩

theorem find?_eq_none_iff (key : String) :
    (layout.fields.find? fun field => field.key == key) = none ↔ key ∉ keys := by
  simp only [List.find?_eq_none, keys, List.mem_map, not_exists, not_and, beq_iff_eq]

/-- Settings take in the members that give them, if no known key comes twice. -/
theorem exists_takes (small : settings.maxIter < iterationLimit) {members : List Member}
    (gives : ∀ member ∈ members, settings.Gives member)
    (distinct : ((members.map Member.key).filter (· ∈ keys)).Nodup) {seen named : List String}
    (apart : ∀ member ∈ members, member.key ∈ keys → member.key ∉ seen) :
    ∃ seenLast, layout.Takes seen (settings.given named) members seenLast
      (settings.given (members.map Member.key ++ named)) := by
  induction members generalizing seen named with
  | nil => exact ⟨seen, .done seen _⟩
  | cons first rest inductionHypothesis =>
    obtain ⟨gives, givesRest⟩ := List.forall_mem_cons.mp gives
    obtain ⟨fresh, apartRest⟩ := List.forall_mem_cons.mp apart
    have swapped : settings.given (rest.map Member.key ++ first.key :: named) =
        settings.given ((first :: rest).map Member.key ++ named) :=
      given_congr fun key => by simp [or_left_comm]
    by_cases known : first.key ∈ keys
    · rw [List.map_cons, List.filter_cons_of_pos (by simpa using known),
        List.nodup_cons] at distinct
      obtain ⟨field, found, reads⟩ := gives.exists_field small known named
      have later : ∀ member ∈ rest, member.key ∈ keys → member.key ∉ first.key :: seen := by
        intro member listed memberKnown again
        rcases List.mem_cons.mp again with same | old
        · refine distinct.1 (List.mem_filter.mpr ⟨?_, by simpa using known⟩)
          rw [← same]
          exact List.mem_map_of_mem listed
        · exact apartRest member listed memberKnown old
      obtain ⟨seenLast, others⟩ :=
        @inductionHypothesis givesRest distinct.2 (first.key :: seen) (first.key :: named) later
      rw [swapped] at others
      exact ⟨seenLast, .known found (fresh known) reads others⟩
    · rw [List.map_cons, List.filter_cons_of_neg (by simpa using known)] at distinct
      obtain ⟨seenLast, others⟩ :=
        @inductionHypothesis givesRest distinct seen (first.key :: named) apartRest
      rw [given_cons_of_not_mem known, swapped] at others
      exact ⟨seenLast, .unknown ((find?_eq_none_iff _).mpr known) (gives.other known) others⟩

/-- An object may leave out every field. -/
theorem isComplete (seen : List String) : layout.isComplete seen = true := rfl

/-- A value that can be read is taken or refused by the reader of any field. -/
theorem judgesMember (readable : member.key ∈ keys → IsReadable member.value)
    (isValue : member.key ∉ keys → IsValue member.value) : layout.JudgesMember member := by
  unfold Json.Layout.JudgesMember
  cases found : layout.fields.find? fun field => field.key == member.key with
  | none => exact isValue ((find?_eq_none_iff _).mp found)
  | some field =>
    have known : member.key ∈ keys := by
      by_contra unknown
      rw [(find?_eq_none_iff _).mpr unknown] at found
      cases found
    have listed := List.mem_of_find?_eq_some found
    simp only [layout, List.mem_cons, List.not_mem_nil, or_false] at listed
    intro record
    rcases listed with rfl | rfl | rfl | rfl | rfl | rfl
    · exact (readable known).judges_bool.field _ _ _ record
    · exact ((readable known).judges_natural _).field _ _ _ record
    all_goals exact (readable known).judges_real.field _ _ _ record

/-- The text of an object with members, up to the text behind them. -/
def objectText (lead gap : List Char) (members : List Member) (behind : List Char) : String :=
  String.ofList (lead ++ '\x7b' :: Member.objectChars gap members behind)

/-- Settings are read from an object that names some of their fields, in any order, among members
that are no fields: what is named is what the object gives, and all else is the default. An object
in which a known key comes again is a mismatch whatever stands behind the key, if the values before
it can be read. A finite double that is read back from its printed text is given by it. -/
theorem ofText_given (settings : Settings) (small : settings.maxIter < iterationLimit)
    {members : List Member} (written : ∀ member ∈ members, member.IsWritten)
    {lead gap : List Char} (leadBlank : lead.all isBlank = true) (blank : gap.all isBlank = true) :
    ((∀ member ∈ members, settings.Gives member) →
      ((members.map Member.key).filter (· ∈ keys)).Nodup →
      ∀ trail : List Char, trail.all isBlank = true →
        ofText (objectText lead gap members ('\x7d' :: trail)) =
          .ok (settings.given (members.map Member.key))) ∧
    (∀ key ∈ keys, key ∈ members.map Member.key →
      (∀ member ∈ members, (member.key ∈ keys → IsReadable member.value) ∧
        (member.key ∉ keys → IsValue member.value)) →
      ∀ before spelled behind : List Char, before.all isBlank = true →
        Spells spelled key.toList →
          ofText (objectText lead gap members
            (',' :: (before ++ '"' :: (spelled ++ '"' :: behind)))) =
              .error (.unreadable .mismatched)) ∧
    ∀ value : Float, value.isFinite = true → Decimal.ReadsBack value →
      IsTextOf (Json.realChars value) value := by
  refine ⟨fun gives distinct trail trailBlank => ?_,
    fun key known again judged before spelled behind beforeBlank spells => ?_,
    fun value => Json.isTextOf_realChars⟩
  · obtain ⟨seen, takes⟩ := @exists_takes settings small members gives distinct [] []
      fun _ _ _ => List.not_mem_nil
    rw [List.append_nil, given_nil] at takes
    refine Json.run_eq_ok_iff.mpr ⟨trail, ?_, ?_⟩
    · rw [objectText, String.toList_ofList]
      exact takes.reader_append written (isComplete seen) leadBlank blank trail
    · rw [← List.append_nil trail, Json.skipBlanks_append trailBlank]
      rfl
  · have found : ∃ field, (layout.fields.find? fun field => field.key == key) = some field := by
      rw [← Option.ne_none_iff_exists', ne_eq, find?_eq_none_iff, not_not]
      exact known
    obtain ⟨field, found⟩ := found
    have refused :=
      @Json.Layout.reader_again _ layout _ _ _ _ found spells beforeBlank behind members
      written (fun member listed => judgesMember (judged member listed).1 (judged member listed).2)
      again lead gap leadBlank
    rw [ofText, Json.Reader.run, objectText, String.toList_ofList, refused]

end Settings

/-! ### Settings in part -/

namespace Sample

/-- A value that no field of settings has: a number beyond all doubles, and an object. -/
def oddValue : List Char :=
  ['[', '1', 'e', '9', '9', '9', ',', '\x7b', '"', 'a', '"', ':', 'n', 'u', 'l', 'l', '\x7d', ']']

theorem oddValue_isValue : IsValue oddValue := by
  have digits : ∀ digit ∈ ['9', '9', '9'], digit.isDigit = true :=
    List.all_eq_true.mp (show ['9', '9', '9'].all Char.isDigit = true from rfl)
  have huge : Json.IsNumber ['1', 'e', '9', '9', '9'] :=
    @Json.IsNumber.parts [] ['1'] [] ['e', '9', '9', '9'] (Or.inl rfl)
      (.digits rfl (by decide) fun _ none => absurd none List.not_mem_nil) .empty
      (@Json.IsPower.exponent 'e' [] ['9', '9', '9'] (Or.inl rfl) (Or.inl rfl)
        ⟨List.cons_ne_nil _ _, digits⟩)
  have key : Json.IsKey ['"', 'a', '"', ':'] :=
    @Json.IsKey.quoted [] ['a'] [] rfl (.plain (by decide) (by decide) (by decide) .empty) rfl
  have members : Json.AreMembers ['"', 'a', '"', ':', 'n', 'u', 'l', 'l'] :=
    @Json.AreMembers.last ['"', 'a', '"', ':'] [] ['n', 'u', 'l', 'l'] [] key rfl .null rfl
  have items : Json.AreItems ['\x7b', '"', 'a', '"', ':', 'n', 'u', 'l', 'l', '\x7d'] :=
    @Json.AreItems.last [] _ [] rfl (.object members) rfl
  exact .array (@Json.AreItems.item [] _ [] _ rfl (.number huge) rfl items)

/-- The settings that are named: a tolerance on a line of its own, and what is to be printed.
Between them stands a member that is no field. -/
def partialMembers : List Member :=
  [{ Member.plain "tol_feas" (Json.realChars 0.5) with before := ['\n'], toValue := [' '] },
    Member.plain "note" oddValue, Member.plain "verbose" ['t', 'r', 'u', 'e']]

theorem partialMembers_written : ∀ member ∈ partialMembers, member.IsWritten := by
  have tolerance := Member.isWritten_plain "tol_feas" (Json.realChars 0.5)
  intro member listed
  simp only [partialMembers, List.mem_cons, List.not_mem_nil, or_false] at listed
  rcases listed with rfl | rfl | rfl
  · exact { tolerance with before := rfl, toValue := rfl }
  · exact Member.isWritten_plain _ _
  · exact Member.isWritten_plain _ _

theorem isTextOf_half : IsTextOf (Json.realChars 0.5) 0.5 :=
  Json.isTextOf_realChars (by decide +kernel) (by decide +kernel)

end Sample

namespace Settings

/-- The sample names two fields, whatever the limit is in the others. -/
theorem gives_partialMembers (limit : Float) :
    ∀ member ∈ Sample.partialMembers,
      (⟨true, 7, limit, limit, limit, 0.5⟩ : Settings).Gives member := by
  have apart : ∀ {key other : String} {fact : Prop}, key ≠ other → key = other → fact :=
    fun differ same => absurd same differ
  intro member listed
  simp only [Sample.partialMembers, List.mem_cons, List.not_mem_nil, or_false] at listed
  rcases listed with rfl | rfl | rfl
  · exact ⟨apart (by decide), apart (by decide), apart (by decide), apart (by decide),
      apart (by decide), fun _ => Sample.isTextOf_half, fun unknown =>
        absurd (show "tol_feas" ∈ keys by decide) unknown⟩
  · exact ⟨apart (by decide), apart (by decide), apart (by decide), apart (by decide),
      apart (by decide), apart (by decide), fun _ => Sample.oddValue_isValue⟩
  · exact ⟨fun _ => rfl, apart (by decide), apart (by decide), apart (by decide),
      apart (by decide), apart (by decide), fun unknown =>
        absurd (show "verbose" ∈ keys by decide) unknown⟩

/-- The sample sets two fields. A second tolerance behind it is refused, although no value follows
and the object is not closed. -/
theorem ofText_given_sample :
    ofText (objectText [' '] [] Sample.partialMembers ['\x7d']) =
        .ok { default with verbose := true, tolFeas := 0.5 } ∧
      ofText (objectText [' '] [] Sample.partialMembers
        (',' :: ([] ++ '"' :: ("tol_feas".toList.flatMap Json.escapedChar ++ '"' :: [])))) =
          .error (.unreadable .mismatched) := by
  obtain ⟨takes, again, _⟩ := ofText_given ⟨true, 7, 0, 0, 0, 0.5⟩ (by decide)
    Sample.partialMembers_written (show [' '].all isBlank = true from rfl)
    (show [].all isBlank = true from rfl)
  refine ⟨takes (gives_partialMembers 0) (by decide) [] rfl, ?_⟩
  refine again "tol_feas" (by decide) (by decide) ?_ [] _ [] rfl
    (Json.spells_escapedChars "tol_feas".toList)
  intro member listed
  simp only [Sample.partialMembers, List.mem_cons, List.not_mem_nil, or_false] at listed
  rcases listed with rfl | rfl | rfl
  · obtain ⟨number, isText, _⟩ := Sample.isTextOf_half
    exact ⟨fun _ => .number isText, fun unknown =>
      absurd (show "tol_feas" ∈ keys by decide) unknown⟩
  · exact ⟨fun known => absurd known (show "note" ∉ keys by decide),
      fun _ => Sample.oddValue_isValue⟩
  · exact ⟨fun _ => .yes, fun unknown => absurd (show "verbose" ∈ keys by decide) unknown⟩

/-- There is a finite tolerance whose printed text is read as another one. A time limit beyond all
doubles is malformed, also if another one follows. -/
theorem ofText_given_inexact :
    (1.8491019692677046 : Float).isFinite = true ∧
      String.ofList (Json.realChars 1.8491019692677046) = "1.8491019692677046" ∧
      (∀ settings : Settings, settings.tolFeas = 1.8491019692677046 →
        ofText "\x7b\"tol_feas\":1.8491019692677046\x7d" ≠
          .ok (settings.given ["tol_feas"])) ∧
      ofText "\x7b\"time_limit\":1e999,\"time_limit\":1\x7d" ≠
        .error (.unreadable .mismatched) := by
  have read : (ofText "\x7b\"tol_feas\":1.8491019692677046\x7d").map Settings.tolFeas =
      .ok 1.8491019692677049 := by decide +kernel
  have beside : (1.8491019692677049 : Float) ≠ 1.8491019692677046 := by decide +kernel
  have malformed : (ofText "\x7b\"time_limit\":1e999,\"time_limit\":1\x7d").map
      Settings.maxIter = .error (.unreadable .malformed) := by decide +kernel
  refine ⟨by decide +kernel, by decide +kernel, fun settings same exact => ?_, fun refused => ?_⟩
  · rw [exact, Except.map, given, if_pos List.mem_cons_self, same] at read
    exact beside (Except.ok.inj read).symm
  · rw [refused] at malformed
    cases malformed

end Settings

end BlockCone
