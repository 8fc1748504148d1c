import LivePatch.Text.Hex

namespace LivePatch.Text

/-- Value of an upper-case digit. -/
def digit? (c : Char) : Option Nat :=
  if '0' ≤ c ∧ c ≤ '9' then some (c.toNat - 48)
  else if 'A' ≤ c ∧ c ≤ 'F' then some (c.toNat - 55)
  else none

/-- Reads on after the digits of `n`. -/
def numberFrom? (n : Nat) (cs : List Char) : Option Nat :=
  cs.foldlM (fun n c => (digit? c).map (16 * n + ·)) n

/-- Two digits for a byte. -/
def pairs? : List Char → Option Bytes
  | [] => some []
  | [_] => none
  | c :: d :: cs => do
    let high ← digit? c
    let low ← digit? d
    return UInt8.ofNat (16 * high + low) :: (← pairs? cs)

/-- The digit of a number below 16 as `upperHexDigits` writes it. -/
def upperDigit (d : Nat) : Char :=
  d.digitChar.toUpper

theorem digit?_upperDigit {d : Nat} (small : d < 16) : digit? (upperDigit d) = some d := by
  decide +revert

theorem exists_digit_of_mem_toDigits {b n : Nat} {c : Char} (base : 1 < b)
    (member : c ∈ Nat.toDigits b n) : ∃ d < b, c = d.digitChar := by
  induction n using Nat.base_induction b base with
  | single m small =>
    rw [Nat.toDigits_of_lt_base small, List.mem_singleton] at member
    exact ⟨m, small, member⟩
  | digit m k small positive ih =>
    rw [← Nat.toDigits_append_toDigits base positive small, Nat.toDigits_of_lt_base small,
      List.mem_append, List.mem_singleton] at member
    rcases member with before | last
    · exact ih before
    · exact ⟨k, small, last⟩

theorem exists_digit_of_mem_hexDigits {width n : Nat} {c : Char} (member : c ∈ hexDigits width n) :
    ∃ d < 16, c = d.digitChar := by
  rw [hexDigits, padLeft, List.mem_append] at member
  rcases member with filling | inside
  · exact ⟨0, by omega, List.eq_of_mem_replicate filling⟩
  · exact exists_digit_of_mem_toDigits (by omega) inside

theorem exists_digit_of_mem_upperHexDigits {width n : Nat} {c : Char}
    (member : c ∈ upperHexDigits width n) : ∃ d < 16, c = upperDigit d := by
  obtain ⟨lower, inside, rfl⟩ := List.mem_map.mp member
  obtain ⟨d, small, rfl⟩ := exists_digit_of_mem_hexDigits inside
  exact ⟨d, small, rfl⟩

theorem numberFrom?_append (n : Nat) (cs ds : List Char) :
    numberFrom? n (cs ++ ds) = (numberFrom? n cs).bind (numberFrom? · ds) :=
  List.foldlM_append

theorem numberFrom?_digit {n d : Nat} (small : d < 16) :
    numberFrom? n [upperDigit d] = some (16 * n + d) := by
  simp [numberFrom?, digit?_upperDigit small]

theorem numberFrom?_zeros (k : Nat) :
    numberFrom? 0 ((List.replicate k '0').map Char.toUpper) = some 0 := by
  induction k with
  | zero => rfl
  | succ k ih =>
    rw [List.replicate_succ, List.map_cons, ← List.singleton_append, numberFrom?_append]
    exact ih

theorem numberFrom?_toDigits (n : Nat) :
    numberFrom? 0 ((Nat.toDigits 16 n).map Char.toUpper) = some n := by
  induction n using Nat.base_induction 16 (by decide) with
  | single m small =>
    have read := numberFrom?_digit (n := 0) small
    rw [Nat.mul_zero, Nat.zero_add] at read
    rw [Nat.toDigits_of_lt_base small]
    exact read
  | digit m k small positive ih =>
    rw [← Nat.toDigits_append_toDigits (by decide) positive small, Nat.toDigits_of_lt_base small,
      List.map_append, numberFrom?_append, ih]
    exact numberFrom?_digit small

theorem numberFrom?_upperHexDigits (width n : Nat) :
    numberFrom? 0 (upperHexDigits width n) = some n := by
  rw [upperHexDigits, hexDigits, padLeft, List.map_append, numberFrom?_append, numberFrom?_zeros]
  exact numberFrom?_toDigits n

theorem upperHexDigits_byte (b : UInt8) :
    upperHexDigits 2 b.toNat = [upperDigit (b.toNat / 16), upperDigit (b.toNat % 16)] := by
  have bound := b.toNat_lt
  rw [upperHexDigits, hexDigits]
  by_cases small : b.toNat < 16
  · rw [Nat.toDigits_of_lt_base small, Nat.div_eq_of_lt small, Nat.mod_eq_of_lt small]
    rfl
  · have high : b.toNat / 16 < 16 := by omega
    rw [Nat.toDigits_of_base_le (by decide) (by omega), Nat.toDigits_of_lt_base high]
    rfl

theorem length_toList_hexBytes (bs : Bytes) : (hexBytes bs).toList.length = 2 * bs.length := by
  rw [hexBytes, String.toList_ofList]
  induction bs with
  | nil => rfl
  | cons b bs ih =>
    rw [List.flatMap_cons, List.length_append, ih, upperHexDigits_byte, List.length_cons]
    simp
    omega

theorem exists_digit_of_mem_hexBytes {bs : Bytes} {c : Char} (member : c ∈ (hexBytes bs).toList) :
    ∃ d < 16, c = upperDigit d := by
  rw [hexBytes, String.toList_ofList, List.mem_flatMap] at member
  obtain ⟨_, _, inside⟩ := member
  exact exists_digit_of_mem_upperHexDigits inside

/-- The digits of bytes spell the bytes. -/
theorem pairs?_hexBytes (bs : Bytes) : pairs? (hexBytes bs).toList = some bs := by
  rw [hexBytes, String.toList_ofList]
  induction bs with
  | nil => rfl
  | cons b bs ih =>
    have bound := b.toNat_lt
    have high := digit?_upperDigit (d := b.toNat / 16) (by omega)
    have low := digit?_upperDigit (d := b.toNat % 16) (by omega)
    have whole : 16 * (b.toNat / 16) + b.toNat % 16 = b.toNat := by omega
    rw [List.flatMap_cons, upperHexDigits_byte]
    simp only [List.cons_append, List.nil_append, pairs?, high, low, ih, whole, Option.bind_eq_bind,
      Option.bind_some, Option.pure_def, UInt8.ofNat_toNat]

theorem hexBytes_append (bs cs : Bytes) :
    (hexBytes (bs ++ cs)).toList = (hexBytes bs).toList ++ (hexBytes cs).toList := by
  simp [hexBytes]

end LivePatch.Text
