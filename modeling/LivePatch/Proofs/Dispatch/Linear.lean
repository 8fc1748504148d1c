import Mathlib.Data.List.Forall2
import LivePatch.Proofs.Dispatch.Budget
import LivePatch.Proofs.Program.InStep
import LivePatch.Proofs.Program.Sweep

namespace LivePatch

namespace Instruction

/-- The instruction may skip a block. -/
def opensBlock : Instruction → Bool
  | test .. | timer _ => true
  | _ => false

/-- Number of bytes that the template of a search takes in a stream. -/
def templateLength : Instruction → Nat
  | search template .. => roundUpToLine template.length
  | _ => 0

theorem templateLength_of_other {i : Instruction} (other : i.isSearch = false) :
    i.templateLength = 0 := by
  cases i with
  | search => cases other
  | _ => rfl

theorem encodedLength_of_search {i : Instruction} (search : i.isSearch = true) :
    i.encodedLength = 8 + i.templateLength := by
  cases i with
  | search => rfl
  | _ => cases search

end Instruction

namespace Machine

variable {H : Type}

theorem onTarget_eq_next {m : Machine H} {t : Target} {act : Machine H → UInt32 → Flow × Machine H}
    (goesOn : ∀ m a, (act m a).1 = .next) : (m.onTarget t act).1 = .next := by
  unfold onTarget
  split
  · exact goesOn _ _
  · rfl

theorem execute_eq_next [Host H] {i : Instruction} (m : Machine H) (opens : i.opensBlock = false)
    (other : i.isSearch = false) : (m.execute i).1 = .next := by
  cases i with
  | test | timer => cases opens
  | search => cases other
  | write | writeString | writeSeries | fill | loadInteger | storeInteger | loadFloat | storeFloat
  | loadPointer => exact onTarget_eq_next fun _ _ => rfl
  | _ => rfl

end Machine

/-- What a pass makes of an instruction that it comes to: the same bytes, or a pointer load in the
place of a search. -/
inductive Located.Becomes : Located → Located → Prop
  | kept {l : Located} {offset : Nat} (other : l.instruction.isSearch = false) :
      Becomes l { l with offset }
  | loads {l : Located} {offset : Nat} {address : UInt32} (search : l.instruction.isSearch = true) :
      Becomes l ⟨offset, (pointerLine address).toList, .setPointer address⟩

def Execution.place (e : Execution) : Nat × Instruction :=
  (e.position, e.instruction)

namespace Located

theorem Becomes.length_add {l r : Located} (becomes : l.Becomes r)
    (decoded : decode l.bytes = .ok (l.instruction, l.bytes.length)) :
    r.bytes.length + l.instruction.templateLength = l.bytes.length := by
  cases becomes with
  | kept other => rw [Instruction.templateLength_of_other other, Nat.add_zero]
  | loads search =>
    obtain ⟨bs, tail, _, image, size⟩ := decode_eq_ok_iff_image.mp decoded
    rw [size, image.length_eq, Instruction.encodedLength_of_search search, Vector.length_toList]

theorem sum_length_add {ls rs : List Located} (becomes : List.Forall₂ Becomes ls rs)
    (decoded : ∀ l ∈ ls, decode l.bytes = .ok (l.instruction, l.bytes.length)) :
    (rs.map (·.bytes.length)).sum + (ls.map (·.instruction.templateLength)).sum =
      (ls.map (·.bytes.length)).sum := by
  induction becomes with
  | nil => rfl
  | cons first _ ih =>
    have here := first.length_add (decoded _ List.mem_cons_self)
    have later := ih fun l member => decoded l (List.mem_cons_of_mem _ member)
    simp only [List.map_cons, List.sum_cons]
    omega

/-- The templates of the searches before an instruction are what moves it forward. -/
theorem offset_add {ls rs : List Located} {code final : Bytes} (found : Swept 0 code ls)
    (left : Swept 0 final rs) (becomes : List.Forall₂ Becomes ls rs) {k : Nat} {l r : Located}
    (before : ls[k]? = some l) (after : rs[k]? = some r) :
    r.offset + ((ls.take k).map (·.instruction.templateLength)).sum = l.offset := by
  have lengths := sum_length_add (List.forall₂_take k becomes) fun l member =>
    found.decoded l (List.mem_of_mem_take member)
  rw [found.offset_eq before, left.offset_eq after]
  omega

end Located

namespace Dispatch

variable {H : Type}

/-- A pass from `d` on that skips nothing: it comes to `ls` and leaves `rs`. -/
structure Straight (d : Dispatch H) (es : List Execution) (last : Dispatch H) (offset : Nat)
    (ls rs : List Located) : Prop where
  found : Swept offset d.tape.rest ls
  left : Swept d.tape.position (rs.flatMap (·.bytes)) rs
  bytes : last.tape.bytes = d.tape.passed.toList ++ rs.flatMap (·.bytes)
  becomes : List.Forall₂ Located.Becomes ls rs
  count : es.length = ls.length + ls.countP (·.instruction.isSearch)
  executed : (es.filter (!·.instruction.isSearch)).map Execution.place = rs.map Located.place

namespace Straight

variable {d last : Dispatch H} {es : List Execution} {offset : Nat} {ls rs : List Located}

theorem ended (empty : d.tape.rest = []) : Straight d [] d offset [] [] := by
  refine ⟨empty ▸ .done, .done, ?_, .nil, rfl, rfl⟩
  rw [Tape.bytes, empty]
  rfl

variable [Host H] {trace : Bool}

theorem onward {next : Dispatch H} {e : Execution} (executed : d.Executes trace e)
    (flow : e.flow = .next) (moved : next.tape = d.tape.advance e.consumed)
    (later : Straight next es last (offset + e.consumed) ls rs) :
    Straight d (e :: es) last offset
      (⟨offset, d.tape.rest.take e.consumed, e.instruction⟩ :: ls)
      (⟨d.tape.position, d.tape.rest.take e.consumed, e.instruction⟩ :: rs) := by
  obtain ⟨line, _, within⟩ := executed.consumed_bounds
  have other := executed.isSearch_eq_false (by simp [flow])
  have size : (d.tape.rest.take e.consumed).length = e.consumed := by
    rw [List.length_take]
    omega
  obtain ⟨found, left, bytes, becomes, count, there⟩ := later
  rw [moved] at found left bytes
  rw [Tape.position_advance within] at left
  constructor
  · exact .found executed.decoded found
  · rw [List.flatMap_cons]
    exact .front (decode_take_append executed.decoded _) size left
  · rw [bytes, Tape.toList_passed_advance, List.flatMap_cons, List.append_assoc]
  · exact .cons (.kept other) becomes
  · simp only [List.length_cons, count, List.countP_cons, other]
    simp only [Bool.false_eq_true, if_false]
    omega
  · simp only [List.filter_cons, other, Bool.not_false, if_true, List.map_cons, there, Execution.place,
      executed.position_eq, Located.place]

/-- The pointer load is executed next, so what the pass comes to after a search begins with it. -/
theorem replaced {next : Dispatch H} {e : Execution} {address : UInt32} (executed : d.Executes trace e)
    (flow : e.flow = .replace address) (moved : next.tape = d.tape.replace e.consumed address)
    (later : Straight next es last (offset + e.consumed - 8) ls rs) :
    ∃ ls, Straight d (e :: es) last offset ls rs := by
  obtain ⟨line, _, within⟩ := executed.consumed_bounds
  have search := executed.isSearch_iff.mpr ⟨address, flow⟩
  obtain ⟨found, left, bytes, becomes, count, there⟩ := later
  rw [moved, Tape.rest_replace address line within] at found
  have load := Stream.decode_pointerLine address (d.tape.rest.drop e.consumed)
  cases found with
  | @found _ n _ i ls decoded found =>
    obtain ⟨rfl, rfl⟩ : .setPointer address = i ∧ 8 = n := by
      simpa [load] using decoded
    have next : offset + e.consumed - 8 + 8 = offset + e.consumed := by omega
    rw [next, List.drop_left' Vector.length_toList] at found
    refine ⟨⟨offset, d.tape.rest.take e.consumed, e.instruction⟩ :: ls, ?_, ?_, ?_, ?_, ?_, ?_⟩
    · exact .found executed.decoded found
    · rw [moved] at left
      exact left
    · rw [bytes, moved]
      rfl
    · cases becomes with
      | cons first becomes =>
        refine .cons ?_ becomes
        cases first with
        | kept =>
          rw [List.take_left' Vector.length_toList]
          exact .loads search
        | loads => exact .loads search
    · simp only [List.length_cons, count, List.countP_cons, search]
      simp only [Instruction.isSearch, Bool.false_eq_true, if_false, if_true]
      omega
    · simpa only [List.filter_cons, search, Bool.not_true, Bool.false_eq_true, if_false] using there

end Straight

variable [Host H]

theorem Runs.skipped_le {trace : Bool} {d last : Dispatch H} {es : List Execution}
    {error : Option PassError} (runs : Runs trace d es error last) : d.skipped ≤ last.skipped := by
  induction runs with
  | stop stopped => cases stopped <;> exact Nat.le_refl _
  | move moved _ ih =>
    have skipped := moved.skipped_eq
    omega

theorem Runs.straight {trace : Bool} {d last : Dispatch H} {es : List Execution}
    {error : Option PassError} (runs : Runs trace d es error last) :
    error = none → last.skipped = d.skipped → ∀ offset, ∃ ls rs, Straight d es last offset ls rs := by
  induction runs with
  | stop stopped =>
    intro completed _ offset
    cases stopped with
    | ended empty => exact ⟨[], [], .ended empty⟩
    | misaligned | undecodable | unterminated => cases completed
  | @move d e next es error last moved later ih =>
    intro completed none_skipped offset
    have more := later.skipped_le
    have skipped := moved.skipped_eq
    have same := ih completed (by omega)
    cases moved with
    | onward executed flow =>
      obtain ⟨ls, rs, straight⟩ := same (offset + e.consumed)
      exact ⟨_, _, straight.onward executed flow rfl⟩
    | skip executed flow found =>
      rw [flow, Flow.skips] at skipped
      omega
    | replace executed flow =>
      -- The load takes eight bytes, so that from here what follows it stands where it stood before.
      obtain ⟨ls, rs, straight⟩ := same (offset + e.consumed - 8)
      obtain ⟨ls, straight⟩ := straight.replaced executed flow rfl
      exact ⟨ls, rs, straight⟩

/-- A search and the pointer load that it turns into lead behind the search. -/
theorem moves_search (trace : Bool) {d : Dispatch H} {i : Instruction} {n : Nat}
    (aligned : d.tape.rest.length % 8 = 0) (decoded : decode d.tape.rest = .ok (i, n))
    (search : i.isSearch = true) :
    ∃ e between f next, d.Moves trace e between ∧ between.Moves trace f next ∧
      next.tape.rest = d.tape.rest.drop n ∧ next.skipped = d.skipped := by
  have executed : d.Executes trace ⟨d.tape.position, i, n, (d.perform trace i).1⟩ :=
    ⟨aligned, decoded, rfl, rfl⟩
  obtain ⟨line, lines, within⟩ := executed.consumed_bounds
  obtain ⟨address, flow⟩ := executed.isSearch_iff.mp search
  have replaced := Tape.rest_replace address line within
  have loading : ((d.perform trace i).2.replace n address).Executes trace
      ⟨d.tape.position, .setPointer address, 8, .next⟩ := by
    refine ⟨?_, ?_, rfl, rfl⟩
    · show (d.tape.replace n address).rest.length % 8 = 0
      rw [replaced, List.length_append, Vector.length_toList, List.length_drop]
      omega
    · show decode (d.tape.replace n address).rest = _
      rw [replaced]
      exact Stream.decode_pointerLine address _
  refine ⟨_, _, _, _, .replace executed flow, .onward loading rfl, ?_, rfl⟩
  show (d.tape.replace n address).rest.drop 8 = d.tape.rest.drop n
  rw [replaced, List.drop_left' Vector.length_toList]

theorem exists_runs_of_swept (trace : Bool) {offset : Nat} {bs : Bytes} {ls : List Located}
    (swept : Swept offset bs ls) (plain : ∀ l ∈ ls, l.instruction.opensBlock = false)
    {d : Dispatch H} (rest : d.tape.rest = bs) :
    ∃ es last, Runs trace d es none last ∧ last.skipped = d.skipped := by
  have lines := swept.length_mod
  induction swept generalizing d with
  | done => exact ⟨[], d, .stop (.ended rest), rfl⟩
  | @found offset n bs i ls decoded later ih =>
    subst rest
    have plainLater : ∀ l ∈ ls, l.instruction.opensBlock = false :=
      fun l member => plain l (List.mem_cons_of_mem _ member)
    cases search : i.isSearch with
    | true =>
      obtain ⟨e, between, f, next, first, second, after, skipped⟩ :=
        moves_search trace lines decoded search
      obtain ⟨es, last, runs, skips⟩ := ih plainLater after later.length_mod
      exact ⟨e :: f :: es, last, .move first (.move second runs), skips.trans skipped⟩
    | false =>
      have flow : (d.perform trace i).1 = .next :=
        Machine.execute_eq_next _ (plain _ List.mem_cons_self) search
      have executed : d.Executes trace ⟨d.tape.position, i, n, .next⟩ := ⟨lines, decoded, rfl, flow⟩
      obtain ⟨es, last, runs, skips⟩ := ih plainLater
        (d := { (d.perform trace i).2 with tape := d.tape.advance n }) rfl later.length_mod
      exact ⟨_ :: es, last, .move (.onward executed rfl) runs, skips⟩

end Dispatch

namespace Machine

variable {H : Type} [Host H]

/-- A run that completes without a skip executes what a sweep of its stream finds, and each search
once more as the pointer load that it turns into. What it leaves is swept into the same instructions,
with those loads in the place of the searches. Where a sweep finds nothing that can skip, every run is
of this kind. -/
theorem run_without_skips (m : Machine H) (config : Config) (code : Bytes) :
    (∀ summary, (m.run config code).outcome = .ok summary → summary.skippedBlocks = 0 →
      ∃ ls rs : List Located,
        sweep code = ⟨ls.toArray, none⟩ ∧ instructions code = .ok (ls.map Located.place) ∧
        summary.instructions = ls.length + ls.countP (·.instruction.isSearch) ∧
        List.Forall₂ Located.Becomes ls rs ∧
        (m.run config code).code = rs.flatMap (·.bytes) ∧
        summary.streamLength = (m.run config code).code.length ∧
        summary.streamLength + (ls.map (·.instruction.templateLength)).sum = code.length ∧
        sweep (m.run config code).code = ⟨rs.toArray, none⟩ ∧
        instructions (m.run config code).code = .ok (rs.map Located.place) ∧
        (∀ k l r, ls[k]? = some l → rs[k]? = some r →
          r.offset + ((ls.take k).map (·.instruction.templateLength)).sum = l.offset) ∧
        ((m.executions config code).filter (!·.instruction.isSearch)).map Execution.place =
          rs.map Located.place) ∧
    ∀ places, instructions code = .ok places → (∀ place ∈ places, place.2.opensBlock = false) →
      ∃ summary, (m.run config code).outcome = .ok summary ∧ summary.skippedBlocks = 0 := by
  constructor
  · intro summary completed unskipped
    obtain ⟨es, error, last, runs⟩ := ((m.gated config).opening code).exists_runs config.trace
    obtain ⟨executions, outcome, bytes, _⟩ := run_of_runs runs
    rw [outcome] at completed
    cases error with
    | some error => cases completed
    | none =>
      cases completed
      obtain ⟨ls, rs, straight⟩ := runs.straight rfl unskipped 0
      have final : (m.run config code).code = rs.flatMap (·.bytes) := bytes.trans straight.bytes
      have found : Swept 0 code ls := straight.found
      have left : Swept 0 (m.run config code).code rs := final ▸ straight.left
      have count : last.instructions = es.length := runs.instructions_eq.trans (Nat.zero_add _)
      have lengths := Located.sum_length_add straight.becomes found.decoded
      rw [← List.length_flatMap, ← List.length_flatMap, left.flatMap_bytes, found.flatMap_bytes] at lengths
      refine ⟨ls, rs, found.sweep_eq, instructions_eq_ok_iff.mpr ⟨ls, found, rfl⟩,
        count.trans straight.count, straight.becomes, final, congrArg List.length bytes.symm, ?_,
        left.sweep_eq, instructions_eq_ok_iff.mpr ⟨rs, left, rfl⟩, ?_, ?_⟩
      · rwa [bytes] at lengths
      · intro k l r before after
        exact Located.offset_add found left straight.becomes before after
      · rw [executions]
        exact straight.executed
  · intro places listed plain
    obtain ⟨ls, swept, rfl⟩ := instructions_eq_ok_iff.mp listed
    obtain ⟨es, last, runs, skips⟩ := Dispatch.exists_runs_of_swept config.trace swept
      (fun l member => plain _ (List.mem_map_of_mem member))
      (d := (m.gated config).opening code) rfl
    exact ⟨_, (run_of_runs runs).2.1, skips⟩

/-- A test that holds before a search whose template takes a line of its own, and the search alone. -/
theorem run_without_skips_search :
    let m : Machine Memory := { host := {} }
    let code := Program.stream
      [.test .equal ⟨.absolute, 16⟩ .word 0 0, .search [1, 2, 3] 0 0 0, .terminator]
    let plain := Program.stream [.search [1, 2, 3] 0 0 0, .terminator]
    ((m.run {} code).outcome = .ok ⟨4, 0, 32, 1⟩ ∧
      ∃ ls rs : List Located,
        instructions code = .ok (ls.map Located.place) ∧
        4 = ls.length + ls.countP (·.instruction.isSearch) ∧
        List.Forall₂ Located.Becomes ls rs ∧
        32 + (ls.map (·.instruction.templateLength)).sum = 40 ∧
        instructions (m.run {} code).code = .ok (rs.map Located.place)) ∧
    instructions plain = .ok [(0, .search [1, 2, 3] 0 0 0), (16, .terminator)] ∧
      ∃ summary, (m.run {} plain).outcome = .ok summary ∧ summary.skippedBlocks = 0 := by
  intro m code plain
  have completed : (m.run {} code).outcome = .ok ⟨4, 0, 32, 1⟩ := by decide +kernel
  have listed : instructions plain = .ok [(0, .search [1, 2, 3] 0 0 0), (16, .terminator)] :=
    instructions_eq_ok_iff.mpr ⟨_, Program.swept_stream (by decide) 0, rfl⟩
  obtain ⟨ls, rs, _, found, count, becomes, _, _, shorter, _, left, _⟩ :=
    (m.run_without_skips {} code).1 _ completed rfl
  refine ⟨⟨completed, ls, rs, found, count, becomes, shorter, left⟩, listed, ?_⟩
  exact (m.run_without_skips {} plain).2 _ listed (by decide)

end Machine

end LivePatch
