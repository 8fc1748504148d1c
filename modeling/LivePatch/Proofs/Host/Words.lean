import LivePatch.Proofs.Host.Sparse
import LivePatch.Proofs.Wire.Reading

namespace LivePatch

/-- Where the `k`-th word after `base` begins. -/
def wordPlace (base : UInt32) (k : Nat) : UInt32 :=
  base + UInt32.ofNat (4 * k)

/-- The address is one of the four of the `k`-th word. -/
def InWord (base : UInt32) (k : Nat) (x : UInt32) : Prop :=
  ∃ j < 4, x = wordPlace base k + UInt32.ofNat j

theorem wordPlace_zero (base : UInt32) : wordPlace base 0 = base :=
  UInt32.add_zero base

theorem wordPlace_succ (base : UInt32) (k : Nat) : wordPlace base (k + 1) = wordPlace base k + 4 := by
  rw [wordPlace, Nat.mul_add, UInt32.ofNat_add, ← UInt32.add_assoc]
  rfl

theorem toNat_sub_wordPlace (base x : UInt32) {k : Nat} (within : k < 2 ^ 30) :
    (x - wordPlace base k).toNat = (2 ^ 32 - 4 * k + (x - base).toNat) % 2 ^ 32 := by
  have bound := base.toNat_lt
  rw [wordPlace, UInt32.toNat_sub, UInt32.toNat_sub, UInt32.toNat_add, UInt32.toNat_ofNat']
  omega

theorem sub_wordPlace_lt_iff (base x : UInt32) {k : Nat} (within : k < 2 ^ 30) :
    (x - wordPlace base k).toNat < 4 ↔ (x - base).toNat / 4 = k := by
  have bound := (x - base).toNat_lt
  rw [toNat_sub_wordPlace base x within]
  omega

theorem sub_wordPlace_of_div {base x : UInt32} {k : Nat} (within : k < 2 ^ 30)
    (inside : (x - base).toNat / 4 = k) :
    (x - wordPlace base k).toNat = (x - base).toNat % 4 := by
  have bound := (x - base).toNat_lt
  rw [toNat_sub_wordPlace base x within]
  omega

/-- The distance of an address from the base tells in which word it lies. -/
theorem inWord_iff (base x : UInt32) {k : Nat} (within : k < 2 ^ 30) :
    InWord base k x ↔ (x - base).toNat / 4 = k := by
  rw [← sub_wordPlace_lt_iff base x within]
  constructor
  · rintro ⟨j, inside, rfl⟩
    rw [UInt32.add_comm, UInt32.add_sub_cancel, UInt32.toNat_ofNat']
    omega
  · intro inside
    refine ⟨_, inside, ?_⟩
    rw [UInt32.ofNat_toNat, UInt32.add_comm, UInt32.sub_add_cancel]

/-- Different words do not overlap, as long as they do not go around the address space. -/
theorem InWord.unique {base x : UInt32} {k l : Nat} (inside : InWord base k x)
    (again : InWord base l x) (within : k < 2 ^ 30) (withinAgain : l < 2 ^ 30) : k = l := by
  rw [inWord_iff base x within] at inside
  rw [inWord_iff base x withinAgain] at again
  omega

theorem getElem?_be32 (value : UInt32) {k : Nat} (inside : k < 4) :
    (be32 value)[k]? = some (UInt8.ofNat (value.toNat / 256 ^ (3 - k))) := by
  match k, inside with
  | 0, _ | 1, _ | 2, _ | 3, _ => simp [be32, bigEndian, littleEndian, Nat.div_div_eq_div_mul]

namespace Memory

theorem get_set (m : Memory) (address x : UInt32) (b : UInt8) :
    (m.set address b).get x = if x = address then b else m.get x :=
  m.data.getD_store address x b

/-- Bytes that do not go around the address space stand where they were put. -/
theorem get_load (m : Memory) (address x : UInt32) {bs : Bytes} (short : bs.length ≤ 2 ^ 32) :
    (m.load address bs).get x = bs[(x - address).toNat]?.getD (m.get x) := by
  induction bs generalizing m address with
  | nil => rfl
  | cons b bs ih =>
    rw [List.length_cons] at short
    -- Seen from the next address everything is one closer, but the byte just stored is farthest.
    have past : (x - (address + 1)).toNat = (2 ^ 32 - 1 + (x - address).toNat) % 2 ^ 32 := by
      have bound := address.toNat_lt
      rw [UInt32.toNat_sub, UInt32.toNat_sub, UInt32.toNat_add, UInt32.toNat_one]
      omega
    have bound := (x - address).toNat_lt
    rw [load, ih _ _ (by omega), get_set, past]
    cases distance : (x - address).toNat with
    | zero =>
      have here : x = address := by
        rw [← UInt32.sub_add_cancel x address, ← UInt32.toNat_inj, UInt32.toNat_add, distance]
        have bound := address.toNat_lt
        omega
      rw [if_pos here, List.getElem?_eq_none (by omega), List.getElem?_cons_zero]
      rfl
    | succ d =>
      have elsewhere : x ≠ address := by
        intro here
        rw [here, UInt32.sub_self] at distance
        cases distance
      have onward : (2 ^ 32 - 1 + (d + 1)) % 2 ^ 32 = d := by omega
      rw [if_neg elsewhere, onward, List.getElem?_cons_succ]

theorem writeWord_eq (m : Memory) (address value : UInt32) :
    Host.writeWord m address value =
      { m with data := m.data.storeAll (placed address (be32 value)), writes := m.writes + 1 } :=
  m.write_eq address (be32 value)

theorem get_writeWord (m : Memory) (address value x : UInt32) :
    (Host.writeWord m address value).get x =
      if (x - address).toNat < 4 then UInt8.ofNat (value.toNat / 256 ^ (3 - (x - address).toNat))
      else m.get x := by
  have written : (Host.writeWord m address value).get x =
      (be32 value)[(x - address).toNat]?.getD (m.get x) :=
    get_load { m with writes := m.writes + 1 } address x (by simp)
  rw [written]
  split
  · rename_i inside
    rw [getElem?_be32 value inside]
    rfl
  · rename_i outside
    rw [List.getElem?_eq_none (by simpa using outside)]
    rfl

/-- A memory after the same word was written at several places after `base`. -/
def stamp (m : Memory) (base value : UInt32) (places : List Nat) : Memory :=
  places.foldl (fun m k => Host.writeWord m (wordPlace base k) value) m

theorem stamp_cons (m : Memory) (base value : UInt32) (k : Nat) (places : List Nat) :
    m.stamp base value (k :: places) =
      (Host.writeWord m (wordPlace base k) value).stamp base value places := rfl

/-- Everything but the map and the counter stays. -/
theorem stamp_eq (m : Memory) (base value : UInt32) (places : List Nat) :
    m.stamp base value places =
      { m with data := (m.stamp base value places).data, writes := m.writes + places.length } := by
  induction places generalizing m with
  | nil => rfl
  | cons k places ih =>
    have counted : m.writes + 1 + places.length = m.writes + (k :: places).length := by
      rw [List.length_cons]
      omega
    rw [stamp_cons, ih, writeWord_eq, counted]

/-- All places are counted from one base, so that an address lies in one of the words only, and it does
not matter in which order they were written. -/
theorem get_stamp (m : Memory) (base value x : UInt32) {places : List Nat}
    (within : ∀ k ∈ places, k < 2 ^ 30) :
    (m.stamp base value places).get x =
      if (x - base).toNat / 4 ∈ places then
        UInt8.ofNat (value.toNat / 256 ^ (3 - (x - base).toNat % 4))
      else m.get x := by
  induction places generalizing m with
  | nil => rfl
  | cons k places ih =>
    obtain ⟨here, later⟩ := List.forall_mem_cons.mp within
    rw [stamp_cons, ih _ later, get_writeWord]
    by_cases again : (x - base).toNat / 4 ∈ places
    · rw [if_pos again, if_pos (List.mem_cons_of_mem k again)]
    · rw [if_neg again]
      by_cases inside : (x - base).toNat / 4 = k
      · rw [if_pos ((sub_wordPlace_lt_iff base x here).mpr inside), sub_wordPlace_of_div here inside,
          if_pos (List.mem_cons.mpr (.inl inside))]
      · have outside : (x - base).toNat / 4 ∉ k :: places := fun member =>
          (List.mem_cons.mp member).elim inside again
        rw [if_neg (mt (sub_wordPlace_lt_iff base x here).mp inside), if_neg outside]

theorem bytes_congr {m n : Memory} {address : UInt32} {length : Nat}
    (same : ∀ j < length, m.get (address + UInt32.ofNat j) = n.get (address + UInt32.ofNat j)) :
    m.bytes address length = n.bytes address length :=
  List.map_congr_left fun j inside => same j (List.mem_range.mp inside)

theorem readWord_eq (m : Memory) (address : UInt32) :
    (Host.readWord m address).1 = UInt32.ofNat (ofBigEndian (m.bytes address 4)) := rfl

theorem readWord_eq_of_bytes {m : Memory} {address value : UInt32}
    (bytes : m.bytes address 4 = be32 value) : (Host.readWord m address).1 = value := by
  rw [readWord_eq, bytes, ofBigEndian_be32]

theorem readWord_congr {m n : Memory} {address : UInt32}
    (same : ∀ j < 4, m.get (address + UInt32.ofNat j) = n.get (address + UInt32.ofNat j)) :
    (Host.readWord m address).1 = (Host.readWord n address).1 := by
  rw [readWord_eq, readWord_eq, bytes_congr same]

theorem readWord_stamp_of_mem (m : Memory) (base value : UInt32) {places : List Nat}
    (within : ∀ k ∈ places, k < 2 ^ 30) {k : Nat} (stamped : k ∈ places) :
    (Host.readWord (m.stamp base value places) (wordPlace base k)).1 = value := by
  apply readWord_eq_of_bytes
  apply List.ext_getElem?
  intro j
  rw [getElem?_bytes]
  by_cases inside : j < 4
  · have here : InWord base k (wordPlace base k + UInt32.ofNat j) := ⟨j, inside, rfl⟩
    have word := (inWord_iff base _ (within k stamped)).mp here
    have place : (wordPlace base k + UInt32.ofNat j - base).toNat % 4 = j := by
      rw [← sub_wordPlace_of_div (within k stamped) word, UInt32.add_comm, UInt32.add_sub_cancel,
        UInt32.toNat_ofNat']
      omega
    rw [if_pos inside, get_stamp m base value _ within, word, if_pos stamped, place,
      getElem?_be32 value inside]
  · rw [if_neg inside, List.getElem?_eq_none (by simpa using inside)]

/-- A word that is not written keeps its value, whatever was written around it. -/
theorem readWord_stamp_of_not_mem (m : Memory) (base value : UInt32) {places : List Nat}
    (within : ∀ k ∈ places, k < 2 ^ 30) {k : Nat} (here : k < 2 ^ 30) (spared : k ∉ places) :
    (Host.readWord (m.stamp base value places) (wordPlace base k)).1 =
      (Host.readWord m (wordPlace base k)).1 := by
  apply readWord_congr
  intro j inside
  have word := (inWord_iff base _ here).mp ⟨j, inside, rfl⟩
  rw [get_stamp m base value _ within, word, if_neg spared]

end Memory

end LivePatch
