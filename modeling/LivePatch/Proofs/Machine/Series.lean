import LivePatch.Host.Journal
import LivePatch.Machine.Channel
import LivePatch.Proofs.Host.Words

namespace LivePatch

/-- Address of the `k`-th write of a series, modulo `2 ^ 32`. -/
def seriesAddress (address step : UInt32) (k : Nat) : UInt32 :=
  UInt32.ofNat (address.toNat + k * step.toNat)

/-- Value of the `k`-th write of a series. -/
def seriesValue (width : Width) (value increment : UInt32) (k : Nat) : UInt32 :=
  UInt32.ofNat ((value.toNat + k * increment.toNat) % 2 ^ (8 * width.size))

theorem Width.toNat_truncate (width : Width) (value : UInt32) :
    (width.truncate value).toNat = value.toNat % 2 ^ (8 * width.size) := by
  cases width with
  | byte => exact Nat.and_two_pow_sub_one_eq_mod value.toNat 8
  | half => exact Nat.and_two_pow_sub_one_eq_mod value.toNat 16
  | word => exact Nat.and_two_pow_sub_one_eq_mod value.toNat 32

theorem Width.truncate_eq (width : Width) (value : UInt32) :
    width.truncate value =
      match width with
      | .byte => value.toUInt8.toUInt32
      | .half => value.toUInt16.toUInt32
      | .word => value := by
  rw [← UInt32.toNat_inj, Width.toNat_truncate]
  cases width with
  | byte | half => rfl
  | word => exact Nat.mod_eq_of_lt value.toNat_lt

theorem toNat_seriesValue (width : Width) (value increment : UInt32) (k : Nat) :
    (seriesValue width value increment k).toNat =
      (value.toNat + k * increment.toNat) % 2 ^ (8 * width.size) := by
  rw [seriesValue, UInt32.toNat_ofNat']
  cases width with
  | byte | half | word =>
    simp only [Width.size]
    omega

theorem seriesAddress_zero (address step : UInt32) : seriesAddress address step 0 = address := by
  rw [seriesAddress, Nat.zero_mul, Nat.add_zero, UInt32.ofNat_toNat]

theorem seriesAddress_succ (address step : UInt32) (k : Nat) :
    seriesAddress address step (k + 1) = seriesAddress address step k + step := by
  rw [seriesAddress, seriesAddress, Nat.succ_mul, ← Nat.add_assoc, UInt32.ofNat_add, UInt32.ofNat_toNat]

theorem seriesValue_zero (width : Width) (value increment : UInt32) :
    seriesValue width value increment 0 = width.truncate value := by
  rw [← UInt32.toNat_inj, toNat_seriesValue, Width.toNat_truncate, Nat.zero_mul, Nat.add_zero]

/-- Cutting the value at each step comes to the same as cutting it once. -/
theorem seriesValue_succ (width : Width) (value increment : UInt32) (k : Nat) :
    seriesValue width value increment (k + 1) =
      width.truncate (seriesValue width value increment k + increment) := by
  rw [← UInt32.toNat_inj, toNat_seriesValue, Width.toNat_truncate, UInt32.toNat_add, toNat_seriesValue,
    Nat.succ_mul]
  cases width with
  | byte | half | word =>
    simp only [Width.size]
    omega

theorem truncate_seriesValue (width : Width) (value increment : UInt32) (k : Nat) :
    width.truncate (seriesValue width value increment k) = seriesValue width value increment k := by
  rw [← UInt32.toNat_inj, Width.toNat_truncate, toNat_seriesValue, Nat.mod_mod]

namespace Channel

variable {H : Type} [Host H]

theorem writeEach_eq (c : Channel H) (width : Width) (address value step increment : UInt32)
    (count first : Nat) :
    c.writeEach width step increment count (seriesAddress address step first)
        (seriesValue width value increment first) =
      (List.range' first count).foldl (fun c k => c.writeValue width (seriesAddress address step k)
        (seriesValue width value increment k)) c := by
  induction count generalizing c first with
  | zero => rfl
  | succ n ih =>
    rw [writeEach, ← seriesAddress_succ, ← seriesValue_succ, ih, List.range'_succ, List.foldl_cons]

theorem writeSeries_eq (c : Channel H) (width : Width) (address value : UInt32) (iterations : Nat)
    (step increment : UInt32) :
    c.writeSeries width address value iterations step increment =
      (List.range iterations).foldl (fun c k => c.writeValue width (seriesAddress address step k)
        (seriesValue width value increment k)) c := by
  have writes := c.writeEach_eq width address value step increment iterations 0
  rw [seriesAddress_zero, seriesValue_zero] at writes
  rw [writeSeries, writes, List.range_eq_range']

/-- A write is noted with the value that reaches the host. -/
theorem calls_writeValue (c : Channel (Journal H)) (width : Width) (address value : UInt32) :
    (c.writeValue width address value).host.calls =
      c.host.calls.push (.write width address (width.truncate value)) := by
  rw [Width.truncate_eq]
  cases width with
  | byte | half | word => rfl

theorem calls_foldl_writeValue (c : Channel (Journal H)) (width : Width) (address value : Nat → UInt32)
    (places : List Nat) :
    (places.foldl (fun c k => c.writeValue width (address k) (value k)) c).host.calls.toList =
      c.host.calls.toList ++
        places.map fun k => .write width (address k) (width.truncate (value k)) := by
  induction places generalizing c with
  | nil => simp
  | cons k places ih =>
    rw [List.foldl_cons, ih, calls_writeValue, Array.toList_push, List.append_assoc]
    rfl

theorem fill_eq (c : Channel H) (address value length : UInt32) :
    c.fill address value length =
      (List.range (length.toNat / 4)).foldl
        (fun c k => c.writeValue .word (wordPlace address k) value) c := by
  have place (k : Nat) : seriesAddress address 4 k = wordPlace address k := by
    rw [seriesAddress, wordPlace, UInt32.ofNat_add, UInt32.ofNat_toNat, Nat.mul_comm]
    rfl
  have constant (k : Nat) : seriesValue .word value 0 k = value := by
    rw [← UInt32.toNat_inj, toNat_seriesValue]
    exact Nat.mod_eq_of_lt value.toNat_lt
  rw [fill, writeSeries_eq]
  simp only [place, constant]

theorem host_fill (c : Channel Memory) (address value length : UInt32) :
    (c.fill address value length).host =
      c.host.stamp address value (List.range (length.toNat / 4)) := by
  rw [fill_eq, Memory.stamp]
  exact (List.foldl_hom Channel.host (fun _ _ => rfl)).symm

/-- A series writes once for each number, in order, at the address and with the value that belong to the
number; the same writes reach the host. A fill changes the whole words among its bytes to the pattern,
counted from where it begins, and no other byte. -/
theorem series_in_closed_form :
    (∀ (H : Type) [Host H] (c : Channel H) (width : Width) (address value : UInt32) (iterations : Nat)
      (step increment : UInt32),
      c.writeSeries width address value iterations step increment =
        (List.range iterations).foldl (fun c k => c.writeValue width (seriesAddress address step k)
          (seriesValue width value increment k)) c) ∧
    (∀ (H : Type) [Host H] (c : Channel (Journal H)) (width : Width) (address value : UInt32)
      (iterations : Nat) (step increment : UInt32),
      (c.writeSeries width address value iterations step increment).host.calls.toList =
        c.host.calls.toList ++ (List.range iterations).map fun k =>
          .write width (seriesAddress address step k) (seriesValue width value increment k)) ∧
    ∀ (c : Channel Memory) (address value length : UInt32),
      (∀ x, (c.fill address value length).host.get x =
        if (x - address).toNat < 4 * (length.toNat / 4) then
          UInt8.ofNat (value.toNat / 256 ^ (3 - (x - address).toNat % 4))
        else c.host.get x) ∧
      (c.fill address value length).host.writes = c.host.writes + length.toNat / 4 := by
  refine ⟨?_, ?_, ?_⟩
  · intro H _ c width address value iterations step increment
    exact c.writeSeries_eq width address value iterations step increment
  · intro H _ c width address value iterations step increment
    rw [writeSeries_eq, calls_foldl_writeValue]
    simp only [truncate_seriesValue]
  · intro c address value length
    have bound := length.toNat_lt
    have within : ∀ k ∈ List.range (length.toNat / 4), k < 2 ^ 30 := by
      intro k member
      rw [List.mem_range] at member
      omega
    rw [host_fill]
    constructor
    · intro x
      have inside : (x - address).toNat / 4 ∈ List.range (length.toNat / 4) ↔
          (x - address).toNat < 4 * (length.toNat / 4) := by
        rw [List.mem_range]
        omega
      rw [c.host.get_stamp address value x within]
      simp only [inside]
    · rw [Memory.stamp_eq, List.length_range]

end Channel

end LivePatch
