import LivePatch.Machine.Channel
import LivePatch.Proofs.Host.Words

namespace LivePatch

/-- The `k`-th word after `start` begins before `stop`. -/
def Considered (start stop : UInt32) (k : Nat) : Prop :=
  start.toNat + 4 * k < stop.toNat

theorem considered_iff (start stop : UInt32) (k : Nat) :
    Considered start stop k ↔ k < (stop.toNat - start.toNat + 3) / 4 := by
  unfold Considered
  omega

theorem Considered.lt {start stop : UInt32} {k : Nat} (considered : Considered start stop k) :
    k < 2 ^ 30 := by
  have bound := stop.toNat_lt
  unfold Considered at considered
  omega

namespace Memory

/-- The `k`-th word is considered, and it is the wanted one. -/
def Matching (m : Memory) (start stop wanted : UInt32) (k : Nat) : Prop :=
  Considered start stop k ∧ (Host.readWord m (wordPlace start k)).1 = wanted

/-- The wanted words among `count` words from the `first` on. -/
def occurrences (m : Memory) (base wanted : UInt32) (first count : Nat) : List Nat :=
  (List.range' first count).filter fun k => (Host.readWord m (wordPlace base k)).1 = wanted

theorem mem_occurrences {m : Memory} {base wanted : UInt32} {first count k : Nat} :
    k ∈ m.occurrences base wanted first count ↔
      (first ≤ k ∧ k < first + count) ∧ (Host.readWord m (wordPlace base k)).1 = wanted := by
  simp [occurrences]

theorem occurrences_congr {m n : Memory} {base wanted : UInt32} {first count : Nat}
    (same : ∀ k, first ≤ k → k < first + count →
      (Host.readWord m (wordPlace base k)).1 = (Host.readWord n (wordPlace base k)).1) :
    m.occurrences base wanted first count = n.occurrences base wanted first count := by
  apply List.filter_congr
  intro k member
  obtain ⟨lower, upper⟩ := List.mem_range'_1.mp member
  rw [same k lower upper]

/-- The wanted words that begin from `start` on and before `stop`. -/
def matchingWords (m : Memory) (start stop wanted : UInt32) : List Nat :=
  m.occurrences start wanted 0 ((stop.toNat - start.toNat + 3) / 4)

theorem mem_matchingWords {m : Memory} {start stop wanted : UInt32} {k : Nat} :
    k ∈ m.matchingWords start stop wanted ↔ m.Matching start stop wanted k := by
  rw [matchingWords, mem_occurrences, Matching, considered_iff, Nat.zero_add]
  simp

theorem matchingWords_within {m : Memory} {start stop wanted : UInt32} :
    ∀ k ∈ m.matchingWords start stop wanted, k < 2 ^ 30 :=
  fun _ member => (mem_matchingWords.mp member).1.lt

theorem matchingWords_of_empty (m : Memory) {start stop : UInt32} (wanted : UInt32)
    (empty : stop ≤ start) : m.matchingWords start stop wanted = [] := by
  rw [UInt32.le_iff_toNat_le] at empty
  rw [List.eq_nil_iff_forall_not_mem]
  intro k member
  have considered : start.toNat + 4 * k < stop.toNat := (mem_matchingWords.mp member).1
  omega

theorem ncard_matching (m : Memory) (start stop wanted : UInt32) :
    {k | m.Matching start stop wanted k}.ncard = (m.matchingWords start stop wanted).length := by
  have same : {k | m.Matching start stop wanted k} = ↑(m.matchingWords start stop wanted).toFinset := by
    ext k
    rw [Set.mem_ofPred_eq, List.coe_toFinset, Set.mem_ofPred_eq, mem_matchingWords]
  have distinct : (m.matchingWords start stop wanted).Nodup := (List.nodup_range' _).filter _
  rw [same, Set.ncard_coe_finset, List.toFinset_card_of_nodup distinct]

/-- What is replaced is no longer wanted, and what was not wanted is not replaced. -/
theorem matchingWords_stamp {m : Memory} {start stop wanted replacement : UInt32}
    (other : wanted ≠ replacement) :
    (m.stamp start replacement (m.matchingWords start stop wanted)).matchingWords start stop wanted = [] := by
  rw [List.eq_nil_iff_forall_not_mem]
  intro k member
  obtain ⟨considered, found⟩ := mem_matchingWords.mp member
  by_cases matched : k ∈ m.matchingWords start stop wanted
  · rw [m.readWord_stamp_of_mem start replacement matchingWords_within matched] at found
    exact other found.symm
  · rw [m.readWord_stamp_of_not_mem start replacement matchingWords_within considered.lt matched] at found
    exact matched (mem_matchingWords.mpr ⟨considered, found⟩)

end Memory

namespace Channel

/-- Every word is compared as it was at the beginning: what is replaced before it is another word. -/
theorem replaceWords_eq (c : Channel Memory) (base wanted replacement : UInt32)
    (count first replaced : Nat) (within : first + count ≤ 2 ^ 30) :
    c.replaceWords wanted replacement count (wordPlace base first) replaced =
      (replaced + (c.host.occurrences base wanted first count).length,
        { c with host :=
            c.host.stamp base replacement (c.host.occurrences base wanted first count) }) := by
  induction count generalizing c first replaced with
  | zero => rfl
  | succ n ih =>
    have read : c.readWord (wordPlace base first) =
        ((Host.readWord c.host (wordPlace base first)).1, c) := rfl
    rw [replaceWords, read, ← wordPlace_succ, Memory.occurrences, List.range'_succ, List.filter_cons]
    dsimp only
    by_cases found : (Host.readWord c.host (wordPlace base first)).1 = wanted
    · have later : (c.host.stamp base replacement [first]).occurrences base wanted (first + 1) n =
          c.host.occurrences base wanted (first + 1) n := by
        apply Memory.occurrences_congr
        intro k lower upper
        have other : k ∉ [first] := by
          rw [List.mem_singleton]
          omega
        exact c.host.readWord_stamp_of_not_mem base replacement (by simp; omega) (by omega) other
      have written : (c.writeWord (wordPlace base first) replacement).host =
          c.host.stamp base replacement [first] := rfl
      rw [if_pos found, ih _ _ _ (by omega), written, later, if_pos (decide_eq_true found),
        List.length_cons]
      refine Prod.ext ?_ rfl
      dsimp only [Memory.occurrences]
      omega
    · rw [if_neg found, ih _ _ _ (by omega), if_neg (by simpa using found)]
      rfl

theorem corrupt_eq (c : Channel Memory) (start stop wanted replacement : UInt32) :
    c.corrupt start stop wanted replacement =
      ((c.host.matchingWords start stop wanted).length,
        { c with host := c.host.stamp start replacement (c.host.matchingWords start stop wanted) }) := by
  have bound := stop.toNat_lt
  have replaces := c.replaceWords_eq start wanted replacement ((stop.toNat - start.toNat + 3) / 4) 0 0
    (by omega)
  rw [wordPlace_zero, Nat.zero_add] at replaces
  exact replaces

/-- Of the words that begin before `stop`, no two of which overlap, those that are wanted beforehand are
replaced and counted, each by one write; everything else stays as it is. Nothing happens in an empty
range, and nothing is left to be replaced a second time unless the replacement is the wanted word. -/
theorem corrupt_replaces_matching (c : Channel Memory) (start stop wanted replacement : UInt32) :
    let r := c.corrupt start stop wanted replacement
    let matching := c.host.Matching start stop wanted
    (∀ k l x, Considered start stop k → Considered start stop l → InWord start k x →
      InWord start l x → k = l) ∧
    r.1 = {k | matching k}.ncard ∧
    r.2.host.writes = c.host.writes + {k | matching k}.ncard ∧
    (∀ k, matching k → (Host.readWord r.2.host (wordPlace start k)).1 = replacement) ∧
    (∀ x, (∀ k, matching k → ¬ InWord start k x) → r.2.host.get x = c.host.get x) ∧
    r.2 = { c with host := { c.host with data := r.2.host.data, writes := r.2.host.writes } } ∧
    (stop ≤ start → r = (0, c)) ∧
    (wanted ≠ replacement → r.2.corrupt start stop wanted replacement = (0, r.2)) := by
  intro r matching
  have result : r = ((c.host.matchingWords start stop wanted).length,
      { c with host := c.host.stamp start replacement (c.host.matchingWords start stop wanted) }) :=
    c.corrupt_eq start stop wanted replacement
  have counted : {k | matching k}.ncard = (c.host.matchingWords start stop wanted).length :=
    c.host.ncard_matching start stop wanted
  have frame := c.host.stamp_eq start replacement (c.host.matchingWords start stop wanted)
  rw [counted, result]
  refine ⟨?_, rfl, ?_, ?_, ?_, ?_, ?_, ?_⟩
  · intro k l x considered consideredToo inside insideToo
    exact inside.unique insideToo considered.lt consideredToo.lt
  · rw [frame]
  · intro k matched
    exact c.host.readWord_stamp_of_mem start replacement Memory.matchingWords_within
      (Memory.mem_matchingWords.mpr matched)
  · intro x outside
    have spared : (x - start).toNat / 4 ∉ c.host.matchingWords start stop wanted := by
      intro member
      have matched := Memory.mem_matchingWords.mp member
      exact outside _ matched ((inWord_iff start x matched.1.lt).mpr rfl)
    rw [c.host.get_stamp start replacement x Memory.matchingWords_within, if_neg spared]
  · dsimp only
    rw [frame]
  · intro empty
    rw [c.host.matchingWords_of_empty wanted empty]
    rfl
  · intro other
    rw [corrupt_eq, Memory.matchingWords_stamp other]
    rfl

/-- Two of three words match, the last of which runs past the end of the range and wraps. -/
theorem corrupt_replaces_matching_wrapping :
    let c : Channel Memory := { host := ({} : Memory).load 0xFFFFFFFA [0, 0, 0, 7, 0, 0, 0, 7, 9] }
    let r := c.corrupt 0xFFFFFFF6 0xFFFFFFFF 7 0x70000
    c.host.Matching 0xFFFFFFF6 0xFFFFFFFF 7 2 ∧ (Host.readWord r.2.host 0xFFFFFFFE).1 = 0x70000 ∧
      {k | c.host.Matching 0xFFFFFFF6 0xFFFFFFFF 7 k}.ncard = 2 ∧ r.2.host.writes = 2 ∧
      r.2.host.get 2 = 9 ∧ r.2.corrupt 0xFFFFFFF6 0xFFFFFFFF 7 0x70000 = (0, r.2) := by
  intro c
  have replaces := c.corrupt_replaces_matching 0xFFFFFFF6 0xFFFFFFFF 7 0x70000
  have last : c.host.Matching 0xFFFFFFF6 0xFFFFFFFF 7 2 :=
    ⟨by unfold Considered; decide, by decide +kernel⟩
  have outside : ∀ k, c.host.Matching 0xFFFFFFF6 0xFFFFFFFF 7 k → ¬ InWord 0xFFFFFFF6 k 2 := by
    intro k matched inside
    have fourth : 3 = k := (inWord_iff 0xFFFFFFF6 2 matched.1.lt).mp inside
    subst fourth
    exact absurd matched.1 (by unfold Considered; decide)
  have two : (c.corrupt 0xFFFFFFF6 0xFFFFFFFF 7 0x70000).1 = 2 := by decide +kernel
  have before : c.host.writes = 0 ∧ c.host.get 2 = 9 := by decide +kernel
  generalize c.corrupt 0xFFFFFFF6 0xFFFFFFFF 7 0x70000 = r at replaces two ⊢
  obtain ⟨_, count, writes, replaced, rest, _, _, again⟩ := replaces
  have wrapped := replaced 2 last
  rw [show wordPlace 0xFFFFFFF6 2 = 0xFFFFFFFE by decide] at wrapped
  rw [← count, before.1, two] at writes
  exact ⟨last, wrapped, count.symm.trans two, writes, (rest 2 outside).trans before.2, again (by decide)⟩

end Channel

end LivePatch
