import LivePatch.Stream
import Mathlib.Data.Nat.Find

namespace LivePatch.Stream

theorem findFrom?_eq_some_iff {pattern bs : Bytes} {start k : Nat} :
    findFrom? pattern start bs = some k ↔
      ∃ j, k = start + j ∧ j ≤ bs.length ∧ pattern <+: bs.drop j ∧ ∀ l < j, ¬ pattern <+: bs.drop l := by
  induction bs generalizing start with
  | nil =>
    simp only [findFrom?, List.isEmpty_iff, List.drop_nil, List.prefix_nil, List.length_nil,
      Nat.le_zero_eq]
    constructor
    · intro found
      split at found
      · rename_i empty
        exact ⟨0, (Option.some.inj found).symm, rfl, empty, fun l before => absurd before (by omega)⟩
      · cases found
    · rintro ⟨j, rfl, rfl, empty, _⟩
      rw [if_pos empty, Nat.add_zero]
  | cons b bs ih =>
    rw [findFrom?]
    by_cases here : pattern <+: b :: bs
    · rw [if_pos (List.isPrefixOf_iff_prefix.mpr here)]
      constructor
      · intro found
        exact ⟨0, (Option.some.inj found).symm, Nat.zero_le _, here,
          fun l before => absurd before (by omega)⟩
      · rintro ⟨j, rfl, _, _, none_before⟩
        rcases Nat.eq_zero_or_pos j with rfl | positive
        · rfl
        · exact absurd here (none_before 0 positive)
    · rw [if_neg (by rwa [List.isPrefixOf_iff_prefix]), ih]
      constructor
      · rintro ⟨j, rfl, within, there, none_before⟩
        refine ⟨j + 1, by omega, by simpa using within, there, ?_⟩
        intro l before
        cases l with
        | zero => exact here
        | succ l => exact none_before l (by omega)
      · rintro ⟨j, rfl, within, there, none_before⟩
        cases j with
        | zero => exact absurd there here
        | succ j =>
          refine ⟨j, by omega, by simpa using within, there, ?_⟩
          intro l before
          exact none_before (l + 1) (by omega)

theorem find?_eq_some_iff {pattern bs : Bytes} {k : Nat} :
    find? pattern bs = some k ↔
      k ≤ bs.length ∧ pattern <+: bs.drop k ∧ ∀ l < k, ¬ pattern <+: bs.drop l := by
  rw [find?, findFrom?_eq_some_iff]
  constructor
  · rintro ⟨j, same, first⟩
    have : k = j := by omega
    subst this
    exact first
  · intro first
    exact ⟨k, by omega, first⟩

/-- An occurrence ends within the stream. -/
theorem find?_bound {pattern bs : Bytes} {k : Nat} (found : find? pattern bs = some k) :
    k + pattern.length ≤ bs.length := by
  obtain ⟨within, there, _⟩ := find?_eq_some_iff.mp found
  have length := there.length_le
  rw [List.length_drop] at length
  omega

/-- What comes after the first occurrence has no part in finding it. -/
theorem find?_take_append {pattern bs : Bytes} {k : Nat} (found : find? pattern bs = some k)
    (tail : Bytes) : find? pattern (bs.take (k + pattern.length) ++ tail) = some k := by
  have bound := find?_bound found
  obtain ⟨_, there, none_before⟩ := find?_eq_some_iff.mp found
  have kept : (bs.take (k + pattern.length)).length = k + pattern.length := by
    rw [List.length_take]
    omega
  have cut : ∀ l ≤ k, (pattern <+: (bs.take (k + pattern.length) ++ tail).drop l ↔
      pattern <+: bs.drop l) := by
    intro l upTo
    rw [List.drop_append_of_le_length (by omega), List.drop_take]
    have enough : pattern.length ≤ k + pattern.length - l := by omega
    have inside := List.prefix_append ((bs.drop l).take (k + pattern.length - l)) tail
    constructor
    · intro stands
      have short := List.prefix_of_prefix_length_le stands inside (by
        rw [List.length_take, List.length_drop]
        omega)
      exact (List.prefix_take_iff.mp short).1
    · intro stands
      exact (List.prefix_take_iff.mpr ⟨stands, enough⟩).trans inside
  refine find?_eq_some_iff.mpr ⟨?_, (cut k (Nat.le_refl k)).mpr there, ?_⟩
  · rw [List.length_append, kept]
    omega
  · intro l before stands
    exact none_before l before ((cut l (by omega)).mp stands)

theorem find?_append {pattern bs : Bytes} {k : Nat} (found : find? pattern bs = some k)
    (tail : Bytes) : find? pattern (bs ++ tail) = some k := by
  have cut := find?_take_append found (bs.drop (k + pattern.length) ++ tail)
  rwa [← List.append_assoc, List.take_append_drop] at cut

theorem findWithin?_length (pattern bs : Bytes) :
    findWithin? pattern bs.length bs = find? pattern bs := by
  rw [findWithin?, List.take_length]

/-- `pattern` stands at `k` and ends within the first `distance` bytes. -/
structure OccursWithin (pattern : Bytes) (distance : Nat) (bs : Bytes) (k : Nat) : Prop where
  within : k + pattern.length ≤ min distance bs.length
  stands : (bs.drop k).take pattern.length = pattern

/-- An occurrence within `distance` with none before it. -/
structure FirstWithin (pattern : Bytes) (distance : Nat) (bs : Bytes) (k : Nat) : Prop
    extends OccursWithin pattern distance bs k where
  least : ∀ j < k, (bs.drop j).take pattern.length ≠ pattern

section Within

variable {pattern bs : Bytes} {distance k : Nat}

theorem occursWithin_iff : OccursWithin pattern distance bs k ↔
    k + pattern.length ≤ min distance bs.length ∧ (bs.drop k).take pattern.length = pattern :=
  ⟨fun occurs => ⟨occurs.within, occurs.stands⟩, fun ⟨within, stands⟩ => ⟨within, stands⟩⟩

theorem firstWithin_iff : FirstWithin pattern distance bs k ↔
    OccursWithin pattern distance bs k ∧ ∀ j < k, (bs.drop j).take pattern.length ≠ pattern :=
  ⟨fun first => ⟨first.toOccursWithin, first.least⟩, fun ⟨occurs, least⟩ => ⟨occurs, least⟩⟩

instance : DecidablePred (OccursWithin pattern distance bs) := fun _ =>
  decidable_of_iff _ occursWithin_iff.symm

instance : DecidablePred (FirstWithin pattern distance bs) := fun _ =>
  decidable_of_iff _ firstWithin_iff.symm

theorem prefix_drop_iff : pattern <+: bs.drop k ↔ (bs.drop k).take pattern.length = pattern := by
  rw [List.prefix_iff_eq_take, eq_comm]

/-- The window takes away those occurrences that it cuts off, and no others. -/
theorem prefix_drop_take_iff :
    pattern <+: (bs.take distance).drop k ↔
      pattern.length ≤ distance - k ∧ (bs.drop k).take pattern.length = pattern := by
  rw [List.drop_take, List.prefix_take_iff, prefix_drop_iff, and_comm]

theorem findWithin?_eq_some_iff :
    findWithin? pattern distance bs = some k ↔ FirstWithin pattern distance bs k := by
  rw [findWithin?, find?_eq_some_iff, List.length_take]
  simp only [prefix_drop_take_iff]
  constructor
  · rintro ⟨inside, ⟨short, stands⟩, none_before⟩
    have length := (prefix_drop_iff.mpr stands).length_le
    rw [List.length_drop] at length
    refine ⟨⟨by omega, stands⟩, ?_⟩
    intro j before standsBefore
    exact none_before j before ⟨by omega, standsBefore⟩
  · rintro ⟨⟨within, stands⟩, least⟩
    refine ⟨by omega, ⟨by omega, stands⟩, ?_⟩
    rintro j before ⟨_, standsBefore⟩
    exact least j before standsBefore

theorem findWithin?_eq_none_iff :
    findWithin? pattern distance bs = none ↔ ¬ ∃ k, FirstWithin pattern distance bs k := by
  simp only [Option.eq_none_iff_forall_ne_some, ne_eq, findWithin?_eq_some_iff, not_exists]

/-- Among the occurrences within a window, if there are any, one is the first in the whole stream. -/
theorem exists_firstWithin_iff :
    (∃ k, FirstWithin pattern distance bs k) ↔ ∃ k, OccursWithin pattern distance bs k := by
  constructor
  · rintro ⟨k, first⟩
    exact ⟨k, first.toOccursWithin⟩
  · intro occurs
    refine ⟨Nat.find occurs, Nat.find_spec occurs, ?_⟩
    intro j before standsBefore
    have inside := (Nat.find_spec occurs).within
    exact Nat.find_min occurs before ⟨by omega, standsBefore⟩

end Within

/-- A pattern is found at an offset if and only if its first occurrence in the stream begins there and ends
within the distance; it is not found if and only if no occurrence ends within the distance. Bytes that are
appended to a stream do not move what is found in the whole of it. -/
theorem first_occurrence_within (pattern : Bytes) (distance : Nat) (bs : Bytes) :
    (∀ k, findWithin? pattern distance bs = some k ↔ FirstWithin pattern distance bs k) ∧
    (findWithin? pattern distance bs = none ↔ ¬ ∃ k, FirstWithin pattern distance bs k) ∧
    (findWithin? pattern distance bs = none ↔ ¬ ∃ k, OccursWithin pattern distance bs k) ∧
    ∀ (tail : Bytes) (k : Nat), findWithin? pattern bs.length bs = some k →
      findWithin? pattern (bs ++ tail).length (bs ++ tail) = some k := by
  refine ⟨fun k => findWithin?_eq_some_iff, findWithin?_eq_none_iff, ?_, ?_⟩
  · rw [findWithin?_eq_none_iff, exists_firstWithin_iff]
  · intro tail k found
    rw [findWithin?_length] at found ⊢
    exact find?_append found tail

/-- A closing line behind a part of itself: the window that cuts it off by one byte holds none, and
another one appended later is not the first. -/
theorem first_occurrence_within_cut :
    let bs := [0x0D, 0, 0, 0] ++ resetTimerLine.toList
    FirstWithin resetTimerLine.toList 12 bs 4 ∧
      findWithin? resetTimerLine.toList 12 bs = some 4 ∧
      findWithin? resetTimerLine.toList 11 bs = none ∧
      findWithin? resetTimerLine.toList (bs ++ resetTimerLine.toList).length
        (bs ++ resetTimerLine.toList) = some 4 := by
  intro bs
  have first : FirstWithin resetTimerLine.toList 12 bs 4 := by decide
  obtain ⟨finds, _, _, stays⟩ := first_occurrence_within resetTimerLine.toList 12 bs
  obtain ⟨_, _, cut, _⟩ := first_occurrence_within resetTimerLine.toList 11 bs
  refine ⟨first, (finds 4).mpr first, cut.mpr ?_, stays _ 4 ((finds 4).mpr first)⟩
  rintro ⟨k, within, stands⟩
  have near : k ≤ 3 := by
    have bound := Nat.le_trans within (Nat.min_le_left _ _)
    rw [Vector.length_toList] at bound
    omega
  have nowhere : ∀ k ≤ 3, (bs.drop k).take resetTimerLine.toList.length ≠ resetTimerLine.toList := by
    decide
  exact nowhere k near stands

end LivePatch.Stream
