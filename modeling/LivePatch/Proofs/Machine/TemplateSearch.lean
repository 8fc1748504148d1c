import LivePatch.Proofs.Host.Quiet
import LivePatch.Proofs.Host.Sparse
import Mathlib.Data.Nat.Count

namespace LivePatch

theorem toNat_add_ofNat {address : UInt32} {k : Nat} (within : address.toNat + k < 2 ^ 32) :
    (address + UInt32.ofNat k).toNat = address.toNat + k := by
  rw [UInt32.toNat_add, UInt32.toNat_ofNat']
  omega

theorem add_ofNat_sub {start x : UInt32} (lower : start.toNat ≤ x.toNat) :
    start + UInt32.ofNat (x.toNat - start.toNat) = x := by
  have bound := x.toNat_lt
  rw [← UInt32.toNat_inj, toNat_add_ofNat (by omega)]
  omega

/-- Addresses of a range counted by their distance from its start. -/
theorem ncard_range (start stop : UInt32) (p : UInt32 → Prop) [DecidablePred p] :
    {x | start ≤ x ∧ x < stop ∧ p x}.ncard =
      Nat.count (fun k => p (start + UInt32.ofNat k)) (stop.toNat - start.toNat) := by
  have bound := stop.toNat_lt
  have inside (k : Nat) (below : k < stop.toNat - start.toNat) :
      (start + UInt32.ofNat k).toNat = start.toNat + k := toNat_add_ofNat (by omega)
  have image : {x | start ≤ x ∧ x < stop ∧ p x} = (fun k => start + UInt32.ofNat k) ''
      ((Finset.range (stop.toNat - start.toNat)).filter fun k => p (start + UInt32.ofNat k)) := by
    ext x
    simp only [Set.mem_ofPred_eq, Set.mem_image, SetLike.mem_coe, Finset.mem_filter, Finset.mem_range,
      UInt32.le_iff_toNat_le, UInt32.lt_iff_toNat_lt]
    constructor
    · rintro ⟨lower, upper, here⟩
      have same := add_ofNat_sub lower
      exact ⟨x.toNat - start.toNat, ⟨by omega, by rwa [same]⟩, same⟩
    · rintro ⟨k, ⟨below, here⟩, rfl⟩
      rw [inside k below]
      exact ⟨by omega, by omega, here⟩
  have injective : Set.InjOn (fun k => start + UInt32.ofNat k)
      ((Finset.range (stop.toNat - start.toNat)).filter fun k => p (start + UInt32.ofNat k)) := by
    intro k member l other same
    have below := Finset.mem_range.mp (Finset.mem_filter.mp member).1
    have belowToo := Finset.mem_range.mp (Finset.mem_filter.mp other).1
    have places := congrArg UInt32.toNat same
    rw [inside k below, inside l belowToo] at places
    omega
  rw [image, injective.ncard_image, Set.ncard_coe_finset, Nat.count_eq_card_filter_range]

variable {H : Type} [Host H]

/-- The bytes at consecutive addresses, which may wrap, are those of the template. -/
def StandsAt (h : H) (template : Bytes) (address : UInt32) : Prop :=
  (List.range template.length).map (fun k => (Host.readByte h (address + UInt32.ofNat k)).1) = template

instance (h : H) (template : Bytes) : DecidablePred (StandsAt h template) := fun _ =>
  inferInstanceAs (Decidable (_ = _))

/-- Number of matches among the first `k` addresses from `address` on. -/
def matchesAmong (h : H) (template : Bytes) (address : UInt32) (k : Nat) : Nat :=
  Nat.count (fun j => StandsAt h template (address + UInt32.ofNat j)) k

theorem standsAt_cons (h : H) (b : UInt8) (bs : Bytes) (address : UInt32) :
    StandsAt h (b :: bs) address ↔ (Host.readByte h address).1 = b ∧ StandsAt h bs (address + 1) := by
  simp only [StandsAt, List.length_cons, List.range_succ_eq_map, List.map_cons, List.map_map,
    Function.comp_def, Nat.succ_eq_add_one, add_ofNat_succ, add_ofNat_zero,
    List.cons.injEq]

theorem matchesAmong_succ (h : H) (template : Bytes) (address : UInt32) (k : Nat) :
    matchesAmong h template address (k + 1) =
      matchesAmong h template (address + 1) k + if StandsAt h template address then 1 else 0 := by
  simp only [matchesAmong, Nat.count_succ', add_ofNat_succ, add_ofNat_zero]

@[simp]
theorem matchesAmong_zero (h : H) (template : Bytes) (address : UInt32) :
    matchesAmong h template address 0 = 0 := rfl

theorem ncard_standing (h : H) (template : Bytes) (start stop : UInt32) :
    {x | start ≤ x ∧ x < stop ∧ StandsAt h template x}.ncard =
      matchesAmong h template start (stop.toNat - start.toNat) :=
  ncard_range start stop (StandsAt h template)

/-- A match in a range, with `index` others before it. -/
structure NthMatch (h : H) (template : Bytes) (index : Nat) (start stop address : UInt32) : Prop where
  lower : start ≤ address
  upper : address < stop
  standing : StandsAt h template address
  rank : {x | start ≤ x ∧ x < address ∧ StandsAt h template x}.ncard = index

namespace Channel

variable [QuietHost H]

theorem matchesAt_quiet (c : Channel H) (template : Bytes) (address : UInt32) :
    (c.matchesAt template address).1 = decide (StandsAt c.host template address) := by
  induction template generalizing c address with
  | nil => rfl
  | cons b bs ih =>
    have quiet := QuietHost.readByte_quiet c.host address
    simp only [matchesAt, ask, standsAt_cons]
    by_cases same : (Host.readByte c.host address).1 = b
    · simp [same, quiet, ih]
    · simp [same]

theorem findAmong_eq_some_iff (c : Channel H) (template : Bytes) (count : Nat) (address : UInt32)
    (index : Nat) (x : UInt32) :
    (c.findAmong template count address index).1 = some x ↔
      ∃ k < count, x = address + UInt32.ofNat k ∧ StandsAt c.host template x ∧
        matchesAmong c.host template address k = index := by
  induction count generalizing c address index with
  | zero => simp [findAmong]
  | succ n ih =>
    rw [findAmong_succ, matchesAt_quiet, Nat.exists_lt_succ_left]
    simp only [matchesAmong_succ, matchesAmong_zero, add_ofNat_succ, add_ofNat_zero, decide_eq_true_eq]
    by_cases here : StandsAt c.host template address
    · cases index with
      | zero =>
        -- Whatever comes later has this match before it.
        simp only [here, and_self, if_true, Option.some.injEq, Nat.succ_ne_zero, and_false, exists_false,
          or_false, and_true]
        constructor
        · rintro rfl
          exact ⟨rfl, here⟩
        · rintro ⟨same, _⟩
          exact same.symm
      | succ index => simp [here, ih, host_matchesAt]
    · have elsewhere : ¬ (x = address ∧ StandsAt c.host template x ∧ 0 = index) := by
        rintro ⟨rfl, standing, _⟩
        exact here standing
      simp [here, ih, host_matchesAt, elsewhere]

theorem findAmong_eq_none_iff (c : Channel H) (template : Bytes) (count : Nat) (address : UInt32)
    (index : Nat) :
    (c.findAmong template count address index).1 = none ↔
      matchesAmong c.host template address count ≤ index := by
  induction count generalizing c address index with
  | zero => simp [findAmong]
  | succ n ih =>
    rw [findAmong_succ, matchesAt_quiet, matchesAmong_succ]
    by_cases here : StandsAt c.host template address
    · cases index with
      | zero => simp [here]
      | succ index => simp [here, ih, host_matchesAt]
    · simp [here, ih, host_matchesAt]

theorem findTemplate_eq_some_iff (c : Channel H) (template : Bytes) (index : UInt16)
    (start stop address : UInt32) :
    (c.findTemplate template index start stop).1 = some address ↔
      NthMatch c.host template index.toNat start stop address := by
  have bound := stop.toNat_lt
  rw [findTemplate, findAmong_eq_some_iff]
  constructor
  · rintro ⟨k, below, rfl, standing, count⟩
    have place : (start + UInt32.ofNat k).toNat = start.toNat + k := toNat_add_ofNat (by omega)
    refine ⟨?_, ?_, standing, ?_⟩
    · rw [UInt32.le_iff_toNat_le]
      omega
    · rw [UInt32.lt_iff_toNat_lt]
      omega
    · rw [ncard_standing, place, Nat.add_sub_cancel_left, count]
  · rintro ⟨lower, upper, standing, rank⟩
    rw [UInt32.le_iff_toNat_le] at lower
    rw [UInt32.lt_iff_toNat_lt] at upper
    rw [ncard_standing] at rank
    exact ⟨address.toNat - start.toNat, by omega, (add_ofNat_sub lower).symm, standing, rank⟩

theorem findTemplate_eq_none_iff (c : Channel H) (template : Bytes) (index : UInt16)
    (start stop : UInt32) :
    (c.findTemplate template index start stop).1 = none ↔
      {x | start ≤ x ∧ x < stop ∧ StandsAt c.host template x}.ncard ≤ index.toNat := by
  rw [findTemplate, findAmong_eq_none_iff, ncard_standing]

end Channel

theorem addressOfHigh_eq (high : UInt16) : addressOfHigh high = UInt32.ofNat (high.toNat * 65536) := by
  rw [← UInt32.toNat_inj, addressOfHigh, UInt32.toNat_mul, UInt32.toNat_ofNat', UInt16.toNat_toUInt32]
  rfl

namespace Machine

variable [QuietHost H]

/-- A search in a range finds the match with as many others before it as the index says, and nothing if
there are no more matches than that. As an instruction it changes neither the state nor the host, and it
turns into a load of the address found, or of zero. -/
theorem search_finds_nth (template : Bytes) (index : UInt16) :
    (∀ (c : Channel H) (start stop : UInt32),
      (∀ address, (c.findTemplate template index start stop).1 = some address ↔
        NthMatch c.host template index.toNat start stop address) ∧
      ((c.findTemplate template index start stop).1 = none ↔
        {x | start ≤ x ∧ x < stop ∧ StandsAt c.host template x}.ncard ≤ index.toNat)) ∧
    ∀ (m : Machine H) (startHigh stopHigh : UInt16),
      let r := m.execute (.search template index startHigh stopHigh)
      let start := UInt32.ofNat (startHigh.toNat * 65536)
      let stop := UInt32.ofNat (stopHigh.toNat * 65536)
      r.2.state = m.state ∧ r.2.host = m.host ∧
      (∀ address, NthMatch m.host template index.toNat start stop address → r.1 = .replace address) ∧
      ({x | start ≤ x ∧ x < stop ∧ StandsAt m.host template x}.ncard ≤ index.toNat →
        r.1 = .replace 0) := by
  refine ⟨?_, ?_⟩
  · intro c start stop
    exact ⟨c.findTemplate_eq_some_iff template index start stop,
      c.findTemplate_eq_none_iff template index start stop⟩
  · intro m startHigh stopHigh r start stop
    have executed : r = m.search template index start stop := by
      simp only [r, execute, addressOfHigh_eq, start, stop]
    have unchanged := m.search_alike template index start stop
    rw [executed]
    refine ⟨unchanged.state, unchanged.host, ?_, ?_⟩
    · intro address matched
      have found := (m.toChannel.findTemplate_eq_some_iff template index start stop address).mpr matched
      rw [search, found]
      rfl
    · intro few
      have missing := (m.toChannel.findTemplate_eq_none_iff template index start stop).mpr few
      rw [search, missing]
      rfl

/-- Overlapping matches at the top of the address space, and a search that finds the second of two. -/
theorem search_finds_nth_overlapping :
    let c : Channel Memory := { host := ({} : Memory).load 0xFFFFFFFD [7, 7, 7, 7] }
    let m : Machine Memory :=
      { host := ({} : Memory).load 0x10000 [7, 7, 7], state := { flag := true } }
    NthMatch c.host [7, 7] 1 0xFFFFFFFC 0xFFFFFFFF 0xFFFFFFFE ∧
      {x | 0xFFFFFFFC ≤ x ∧ x < 0xFFFFFFFF ∧ StandsAt c.host [7, 7] x}.ncard ≤ 2 ∧
      (m.execute (.search [7, 7] 1 1 2)).1 = .replace 0x10001 ∧
      (m.execute (.search [7, 7] 1 1 2)).2.state = m.state := by
  intro c m
  obtain ⟨finds, executes⟩ := search_finds_nth (H := Memory) [7, 7] 1
  obtain ⟨_, missing⟩ := (search_finds_nth (H := Memory) [7, 7] 2).1 c 0xFFFFFFFC 0xFFFFFFFF
  have second : (m.findTemplate [7, 7] 1 0x10000 0x20000).1 = some 0x10001 := by decide +kernel
  obtain ⟨state, _, found, _⟩ := executes m 1 2
  exact ⟨((finds c _ _).1 _).mp (by decide +kernel), missing.mp (by decide +kernel),
    found _ (((finds m.toChannel _ _).1 _).mp second), state⟩

end Machine

end LivePatch
