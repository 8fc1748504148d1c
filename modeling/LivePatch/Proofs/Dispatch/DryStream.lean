import LivePatch.Proofs.Dispatch.DryRun
import LivePatch.Proofs.Dispatch.Failure

namespace LivePatch

/-- The address that a search finds where every byte of memory is `byte`, or zero. -/
def uniformMatch (byte : UInt8) (template : Bytes) (index : UInt16) (start stop : UInt32) : UInt32 :=
  if template.all (· == byte) ∧ start.toNat + index.toNat < stop.toNat then start + index.toUInt32
  else 0

namespace Channel

theorem matchesAt_constant (c : Channel ConstantHost) (template : Bytes) (address : UInt32) :
    c.matchesAt template address = (template.all (· == c.host.readValue.toUInt8), c) := by
  induction template generalizing address with
  | nil => rfl
  | cons b bs ih =>
    have read : c.ask (.read .byte address) (Host.readByte · address) =
        (c.host.readValue.toUInt8, c) := rfl
    simp only [matchesAt, read, ih, List.all_cons]
    by_cases same : c.host.readValue.toUInt8 = b
    · simp [same]
    · simp [same, Ne.symm same]

/-- Every address matches or none does. -/
theorem findAmong_constant (c : Channel ConstantHost) (template : Bytes) (count : Nat)
    (address : UInt32) (index : Nat) :
    (c.findAmong template count address index).1 =
      if template.all (· == c.host.readValue.toUInt8) ∧ index < count then
        some (address + UInt32.ofNat index)
      else none := by
  induction count generalizing address index with
  | zero => rw [if_neg (by omega), findAmong]
  | succ n ih =>
    rw [findAmong_succ, matchesAt_constant]
    cases uniform : template.all (· == c.host.readValue.toUInt8) with
    | false => simp [ih, uniform]
    | true =>
      cases index with
      | zero => simp
      | succ index =>
        have onward : address + 1 + UInt32.ofNat index = address + UInt32.ofNat (index + 1) := by
          rw [UInt32.ofNat_add, UInt32.add_assoc, UInt32.add_comm 1]
          rfl
        rw [if_neg (by simp), if_pos rfl, Nat.add_sub_cancel, ih, onward, uniform]
        simp only [Nat.add_lt_add_iff_right]

end Channel

theorem Machine.flow_search_constant (m : Machine ConstantHost) (template : Bytes) (index : UInt16)
    (start stop : UInt32) :
    (m.search template index start stop).1 =
      .replace (uniformMatch m.host.readValue.toUInt8 template index start stop) := by
  have found := m.toChannel.findAmong_constant template (stop.toNat - start.toNat) start index.toNat
  have inside : index.toNat < stop.toNat - start.toNat ↔ start.toNat + index.toNat < stop.toNat := by
    omega
  have same : UInt32.ofNat index.toNat = index.toUInt32 := by simp
  simp only [search, Channel.findTemplate, found, uniformMatch, inside, same]
  split <;> rfl

theorem Instruction.isSearch_iff {i : Instruction} :
    i.isSearch = true ↔ ∃ template index startHigh stopHigh, i = search template index startHigh stopHigh := by
  cases i <;> simp [isSearch]

/-- A search begins with its opcode. -/
theorem decode_search {bs : Bytes} {i : Instruction} {n : Nat} (decoded : decode bs = .ok (i, n))
    (search : i.isSearch = true) : bs[0]? = some 0xF6 := by
  obtain ⟨front, tail, rfl, image, _⟩ := decode_eq_ok_iff_image.mp decoded
  obtain ⟨template, index, startHigh, stopHigh, rfl⟩ := Instruction.isSearch_iff.mp search
  cases image
  rfl

namespace Dispatch

variable {H : Type} [Host H] {trace : Bool}

/-- The stream changes by what is executed, and by nothing else. -/
theorem Runs.stream_eq_foldl {d last : Dispatch H} {es : List Execution} {error : Option PassError}
    (runs : Runs trace d es error last) :
    last.tape.bytes = es.foldl (fun bs e => e.rewrite bs) d.tape.bytes := by
  induction runs with
  | stop stopped =>
    rw [stopped.stream]
    cases stopped with
    | unterminated executed flow missing => simp [Execution.rewrite, flow]
    | ended | misaligned | undecodable => rfl
  | move moved _ ih => rw [ih, moved.stream, List.foldl_cons]

/-- A pass that executes a search leaves a pointer load where the search stood. -/
theorem Runs.stream_ne_of_search {d next last : Dispatch H} {e : Execution} {es : List Execution}
    {error : Option PassError} (moved : d.Moves trace e next) (rest : Runs trace next es error last)
    (search : e.instruction.isSearch = true) : last.tape.bytes ≠ d.tape.bytes := by
  intro same
  obtain ⟨address, replaces⟩ := moved.executed.isSearch_iff.mp search
  obtain ⟨line, _, within⟩ := moved.executed.consumed_bounds
  have decoded := moved.executed.decoded
  cases moved with
  | onward executed flow | skip executed flow =>
    rw [flow] at replaces
    cases replaces
  | replace executed flow =>
    have left := Tape.rest_replace (t := d.tape) address line within
    rw [flow] at replaces
    cases replaces
    have loads := Stream.decode_pointerLine address (d.tape.rest.drop e.consumed)
    have shared := rest.decoded_prefix (left ▸ loads) rfl
    -- The load stands in the final stream, so also in the one that begins with the search.
    have before : (pointerLine address).toList <+: d.tape.rest := by
      rw [same] at shared
      have here : d.tape.passed.toList ++ (d.tape.replace e.consumed address).rest.take 8 <+:
          d.tape.passed.toList ++ d.tape.rest := shared
      rwa [List.prefix_append_right_inj, left, List.take_left' (pointerLine address).length_toList] at here
    obtain ⟨tail, split⟩ := before
    have loadsBefore := Stream.decode_pointerLine address tail
    rw [split, decoded, Except.ok.injEq, Prod.mk.injEq] at loadsBefore
    rw [loadsBefore.1] at search
    cases search

/-- A pass that leaves the stream as it is has executed no search. -/
theorem Runs.searchless_of_stream {d last : Dispatch H} {es : List Execution}
    {error : Option PassError} (runs : Runs trace d es error last)
    (same : last.tape.bytes = d.tape.bytes) : ∀ e ∈ es, e.instruction.isSearch = false := by
  induction runs with
  | stop stopped => exact stopped.searchless
  | @move d e next es error last moved rest ih =>
    cases search : e.instruction.isSearch with
    | true => exact absurd same (Runs.stream_ne_of_search moved rest search)
    | false =>
      rw [← moved.stream_of_other search] at same
      rw [List.forall_mem_cons]
      exact ⟨search, ih same⟩

/-- Where no line begins like a search, none is executed. -/
theorem Runs.searchless_of_lines {d last : Dispatch H} {es : List Execution}
    {error : Option PassError} (runs : Runs trace d es error last)
    (placed : d.tape.rest.length % 8 = 0 → d.tape.position % 8 = 0)
    (lines : ∀ k, k % 8 = 0 → d.tape.bytes[k]? ≠ some 0xF6) :
    ∀ e ∈ es, e.instruction.isSearch = false := by
  induction runs with
  | stop stopped => exact stopped.searchless
  | @move d e next es error last moved rest ih =>
    have aligned := placed moved.executed.aligned
    have other : e.instruction.isSearch = false := by
      rw [← Bool.not_eq_true]
      intro search
      have begins := decode_search moved.executed.decoded search
      rw [← d.tape.drop_position, List.getElem?_drop, Nat.add_zero] at begins
      exact lines d.tape.position aligned begins
    have same := moved.stream_of_other other
    have placedNext : next.tape.rest.length % 8 = 0 → next.tape.position % 8 = 0 := by
      have left := moved.executed.aligned
      have total := d.tape.length_bytes
      have totalNext := next.tape.length_bytes
      rw [same] at totalNext
      omega
    rw [← same] at lines
    rw [List.forall_mem_cons]
    exact ⟨other, ih placedNext lines⟩

/-- A shut gate stays shut, and behind it an instruction does what it does on constant answers. -/
theorem perform_shut (trace : Bool) {d : Dispatch (Gate H)} (shut : d.machine.host.live = false)
    (i : Instruction) :
    let constant : ConstantHost := ⟨d.machine.host.readValue, d.machine.host.callResult⟩
    (d.perform trace i).1 = (Machine.execute i { host := constant, state := d.machine.state }).1 ∧
      (d.perform trace i).2.machine.host = d.machine.host := by
  intro constant
  let twin : Machine ConstantHost := { host := constant, state := d.machine.state }
  have alike : d.machine.Alike d.machine.host.StaysShut twin := ⟨rfl, ⟨rfl, rfl⟩⟩
  obtain ⟨flow, after⟩ := perform_alike alike (Gate.bisimulation_staysShut shut) trace i
  exact ⟨flow, after.host.gate⟩

theorem Executes.flow_search_shut {d : Dispatch (Gate H)} {e : Execution} {template : Bytes}
    {index startHigh stopHigh : UInt16} (executed : d.Executes trace e)
    (shut : d.machine.host.live = false)
    (search : e.instruction = .search template index startHigh stopHigh) :
    e.flow = .replace (uniformMatch d.machine.host.readValue.toUInt8 template index
      (addressOfHigh startHigh) (addressOfHigh stopHigh)) := by
  have flow := (perform_shut trace shut e.instruction).1
  rw [executed.flow_eq, search] at flow
  rw [flow]
  exact Machine.flow_search_constant _ template index (addressOfHigh startHigh) (addressOfHigh stopHigh)

theorem Moves.host_of_shut {d next : Dispatch (Gate H)} {e : Execution} (moved : d.Moves trace e next)
    (shut : d.machine.host.live = false) : next.machine.host = d.machine.host := by
  have performed := (perform_shut trace shut e.instruction).2
  cases moved <;> exact performed

/-- Behind a shut gate every search finds what it would find among constant answers. -/
theorem Runs.flow_search_shut {d last : Dispatch (Gate H)} {es : List Execution}
    {error : Option PassError} (runs : Runs trace d es error last)
    (shut : d.machine.host.live = false) :
    ∀ e ∈ es, ∀ template index startHigh stopHigh,
      e.instruction = .search template index startHigh stopHigh →
      e.flow = .replace (uniformMatch d.machine.host.readValue.toUInt8 template index
        (addressOfHigh startHigh) (addressOfHigh stopHigh)) := by
  induction runs with
  | stop stopped =>
    intro e member template index startHigh stopHigh search
    have other := stopped.searchless e member
    rw [search] at other
    cases other
  | @move d e next es error last moved rest ih =>
    have host := moved.host_of_shut shut
    rw [host] at ih
    rw [List.forall_mem_cons]
    refine ⟨?_, ih shut⟩
    intro template index startHigh stopHigh search
    exact moved.executed.flow_search_shut shut search

end Dispatch

namespace Machine

variable {H K : Type} [Host H] [Host K]

/-- A dry run leaves the stream as it is exactly if it executes no search, so in particular if no line
begins like one; every later run then does what it would have done. Otherwise the stream has changed by
the searches, each of which is now a load of the address that it found among constant answers. -/
theorem dry_run_stream (m : Machine H) {config : Config} (dry : config.live = false) (code : Bytes) :
    let left := (m.run config code).code
    let executed := m.executions config code
    (left = code ↔ ∀ e ∈ executed, e.instruction.isSearch = false) ∧
      ((∀ k, k % 8 = 0 → code[k]? ≠ some 0xF6) → left = code) ∧
      ((∀ e ∈ executed, e.instruction.isSearch = false) → ∀ (later : Machine K) (config : Config),
        later.run config left = later.run config code) ∧
      left = executed.foldl (fun bs e => e.rewrite bs) code ∧
      ∀ e ∈ executed, ∀ template index startHigh stopHigh,
        e.instruction = .search template index startHigh stopHigh →
        e.flow = .replace (uniformMatch config.readValue.toUInt8 template index
          (addressOfHigh startHigh) (addressOfHigh stopHigh)) := by
  intro left executed
  obtain ⟨es, error, last, runs⟩ := ((m.gated config).opening code).exists_runs config.trace
  obtain ⟨same, _, bytes, _, _⟩ := run_of_runs runs
  have unchanged : left = code ↔ ∀ e ∈ executed, e.instruction.isSearch = false := by
    simp only [left, executed, same, bytes]
    exact ⟨runs.searchless_of_stream, runs.stream_of_searchless⟩
  refine ⟨unchanged, ?_, ?_, ?_, ?_⟩
  · intro lines
    rw [unchanged]
    simp only [executed, same]
    exact runs.searchless_of_lines (fun _ => rfl) lines
  · intro searchless later again
    rw [unchanged.mpr searchless]
  · simp only [left, executed, same, bytes]
    exact runs.stream_eq_foldl
  · simp only [executed, same]
    exact runs.flow_search_shut dry

/-- A search in a block that the sentinel skips, and one that the sentinel matches at once. -/
theorem dry_run_stream_skipped :
    let config : Config := { live := false }
    let m : Machine Memory := { host := {} }
    let guarded := [Instruction.test .equal ⟨.absolute, 16⟩ .word 1 0, .search [0xAB] 0 1 2,
      .terminator].flatMap Instruction.encode
    let bare := (Instruction.search [0x76, 0x76] 5 1 2).encode
    config.live = false ∧ (m.run config guarded).code = guarded ∧
      (∀ later : Machine Memory, later.run {} (m.run config guarded).code = later.run {} guarded) ∧
      (m.run config bare).code ≠ bare ∧
      (m.run config bare).code = (pointerLine 0x10005).toList := by
  intro config m guarded bare
  obtain ⟨unchanged, _, later, _⟩ := m.dry_run_stream (K := Memory) (rfl : config.live = false) guarded
  obtain ⟨changed, _, _, rewritten, _⟩ := m.dry_run_stream (K := Memory) (rfl : config.live = false) bare
  have searchless : ∀ e ∈ m.executions config guarded, e.instruction.isSearch = false := by
    decide +kernel
  have searched : ¬ ∀ e ∈ m.executions config bare, e.instruction.isSearch = false := by decide +kernel
  have loaded : (m.executions config bare).foldl (fun bs e => e.rewrite bs) bare =
      (pointerLine 0x10005).toList := by
    decide +kernel
  exact ⟨rfl, unchanged.mpr searchless, fun again => later searchless again {},
    fun same => searched (changed.mp same), rewritten.trans loaded⟩

/-- The template stands at `0x10003`, but a dry run finds it at `0x10000`, and the live run after it
writes behind that address. -/
theorem dry_run_stream_misleads :
    let code := [Instruction.search [0x76] 0 1 2, .write ⟨.relative, 1⟩ .byte 7].flatMap Instruction.encode
    let m : Machine Memory := { host := ({} : Memory).load 0x10003 [0x76] }
    let rehearsed := (m.run { live := false } code).code
    rehearsed ≠ code ∧
      (Host.readByte (m.run {} code).machine.host 0x10004).1 = 7 ∧
      (Host.readByte (m.run {} rehearsed).machine.host 0x10004).1 = 0 ∧
      (Host.readByte (m.run {} rehearsed).machine.host 0x10001).1 = 7 := by
  decide +kernel

end Machine

end LivePatch
