import LivePatch.Host.Gate
import LivePatch.Machine

namespace LivePatch

/-- The same answer, and related states after it. -/
structure SameAnswer {α A B : Type} (S : A → B → Prop) (x : α × A) (y : α × B) : Prop where
  answer : x.1 = y.1
  after : S x.2 y.2

/-- Related hosts answer alike and stay related. They may report different events. -/
structure Bisimulation {H K : Type} [Host H] [Host K] (R : H → K → Prop) : Prop where
  readByte : ∀ {h k}, R h k → ∀ address,
    SameAnswer R (Host.readByte h address) (Host.readByte k address)
  readHalf : ∀ {h k}, R h k → ∀ address,
    SameAnswer R (Host.readHalf h address) (Host.readHalf k address)
  readWord : ∀ {h k}, R h k → ∀ address,
    SameAnswer R (Host.readWord h address) (Host.readWord k address)
  writeByte : ∀ {h k}, R h k → ∀ address value,
    R (Host.writeByte h address value) (Host.writeByte k address value)
  writeHalf : ∀ {h k}, R h k → ∀ address value,
    R (Host.writeHalf h address value) (Host.writeHalf k address value)
  writeWord : ∀ {h k}, R h k → ∀ address value,
    R (Host.writeWord h address value) (Host.writeWord k address value)
  writeBytes : ∀ {h k}, R h k → ∀ address bytes,
    R (Host.writeBytes h address bytes) (Host.writeBytes k address bytes)
  native : ∀ {h k}, R h k → ∀ code, R (Host.native h code) (Host.native k code)
  systemCall : ∀ {h k}, R h k → ∀ code, R (Host.systemCall h code) (Host.systemCall k code)
  call : ∀ {h k}, R h k → ∀ address arguments count,
    SameAnswer R (Host.call h address arguments count) (Host.call k address arguments count)

theorem Bisimulation.eq (H : Type) [Host H] : Bisimulation (@Eq H) := by
  constructor
  all_goals
    rintro h k rfl
    intros
  all_goals first | rfl | exact ⟨rfl, rfl⟩

variable {H K : Type}

def Channel.Alike (R : H → K → Prop) (c : Channel H) (e : Channel K) : Prop :=
  R c.host e.host

structure Machine.Alike (R : H → K → Prop) (m : Machine H) (n : Machine K) : Prop where
  state : m.state = n.state
  host : R m.host n.host

variable {R : H → K → Prop}

namespace Machine

theorem Alike.channel {m : Machine H} {n : Machine K} (alike : m.Alike R n) :
    m.toChannel.Alike R n.toChannel :=
  alike.host

theorem Alike.report {m : Machine H} {n : Machine K} (alike : m.Alike R n) (e f : Event) :
    (m.report e).Alike R (n.report f) :=
  ⟨alike.state, alike.host⟩

theorem Alike.through {m : Machine H} {n : Machine K} (alike : m.Alike R n)
    {act : Channel H → Channel H} {actAgain : Channel K → Channel K}
    (acts : (act m.toChannel).Alike R (actAgain n.toChannel)) :
    SameAnswer (Alike R) (m.through act) (n.through actAgain) :=
  ⟨rfl, alike.state, acts⟩

theorem Alike.within {m : Machine H} {n : Machine K} (alike : m.Alike R n) (act : State → State) :
    SameAnswer (Alike R) (m.within act) (n.within act) :=
  ⟨rfl, congrArg act alike.state, alike.host⟩

theorem Alike.onTarget {m : Machine H} {n : Machine K} (alike : m.Alike R n) (t : Target)
    {act : Machine H → UInt32 → Flow × Machine H}
    {actAgain : Machine K → UInt32 → Flow × Machine K}
    (acts : ∀ address, SameAnswer (Alike R) (act m address) (actAgain n address)) :
    SameAnswer (Alike R) (m.onTarget t act) (n.onTarget t actAgain) := by
  unfold Machine.onTarget
  rw [← alike.state]
  split
  · exact acts _
  · exact ⟨rfl, alike.report _ _⟩

theorem Alike.integerArithmetic {m : Machine H} {n : Machine K} (alike : m.Alike R n)
    (arithmetic : Arithmetic) (destination : Register) (source : Source) :
    SameAnswer (Alike R) (m.integerArithmetic arithmetic destination source)
      (n.integerArithmetic arithmetic destination source) := by
  unfold Machine.integerArithmetic
  simp only [alike.state]
  split
  · exact ⟨rfl, rfl, alike.host⟩
  · exact ⟨rfl, rfl, alike.host⟩

theorem Alike.setTimer {m : Machine H} {n : Machine K} (alike : m.Alike R n) (delay : UInt32) :
    SameAnswer (Alike R) (m.setTimer delay) (n.setTimer delay) := by
  unfold Machine.setTimer
  simp only [alike.state]
  split
  · exact ⟨rfl, rfl, alike.host⟩
  · exact ⟨rfl, rfl, alike.host⟩

end Machine

variable [Host H] [Host K]

namespace Channel

theorem Alike.ask {α : Type} {c : Channel H} {e : Channel K} (alike : c.Alike R e)
    (request : HostRequest) {f : H → α × H} {g : K → α × K}
    (answers : ∀ h k, R h k → SameAnswer R (f h) (g k)) :
    SameAnswer (Alike R) (c.ask request f) (e.ask request g) := by
  have same := answers c.host e.host alike
  exact ⟨same.answer, same.after⟩

theorem Alike.readWord {c : Channel H} {e : Channel K} (alike : c.Alike R e)
    (bisim : Bisimulation R) (address : UInt32) :
    SameAnswer (Alike R) (c.readWord address) (e.readWord address) :=
  alike.ask _ fun _ _ related => bisim.readWord related address

theorem Alike.readValue {c : Channel H} {e : Channel K} (alike : c.Alike R e)
    (bisim : Bisimulation R) (width : Width) (address : UInt32) :
    SameAnswer (Alike R) (c.readValue width address) (e.readValue width address) := by
  cases width with
  | byte =>
    have read := alike.ask (.read .byte address) fun _ _ related => bisim.readByte related address
    exact ⟨congrArg UInt8.toUInt32 read.answer, read.after⟩
  | half =>
    have read := alike.ask (.read .half address) fun _ _ related => bisim.readHalf related address
    exact ⟨congrArg UInt16.toUInt32 read.answer, read.after⟩
  | word => exact alike.readWord bisim address

theorem Alike.writeValue {c : Channel H} {e : Channel K} (alike : c.Alike R e)
    (bisim : Bisimulation R) (width : Width) (address value : UInt32) :
    (c.writeValue width address value).Alike R (e.writeValue width address value) := by
  cases width with
  | byte => exact bisim.writeByte alike address value.toUInt8
  | half => exact bisim.writeHalf alike address value.toUInt16
  | word => exact bisim.writeWord alike address value

theorem Alike.writeEach {c : Channel H} {e : Channel K} (alike : c.Alike R e)
    (bisim : Bisimulation R) (width : Width) (step increment : UInt32) (iterations : Nat)
    (address value : UInt32) :
    (c.writeEach width step increment iterations address value).Alike R
      (e.writeEach width step increment iterations address value) := by
  induction iterations generalizing c e address value with
  | zero => exact alike
  | succ n ih => exact ih (alike.writeValue bisim width address value) _ _

theorem Alike.replaceWords {c : Channel H} {e : Channel K} (alike : c.Alike R e)
    (bisim : Bisimulation R) (wanted replacement : UInt32) (words : Nat) (address : UInt32)
    (replaced : Nat) :
    SameAnswer (Alike R) (c.replaceWords wanted replacement words address replaced)
      (e.replaceWords wanted replacement words address replaced) := by
  induction words generalizing c e address replaced with
  | zero => exact ⟨rfl, alike⟩
  | succ n ih =>
    have read := alike.readWord bisim address
    simp only [Channel.replaceWords]
    rw [← read.answer]
    split
    · refine ih ?_ _ _
      exact bisim.writeWord read.after address replacement
    · exact ih read.after _ _

theorem Alike.matchesAt {c : Channel H} {e : Channel K} (alike : c.Alike R e)
    (bisim : Bisimulation R) (template : Bytes) (address : UInt32) :
    SameAnswer (Alike R) (c.matchesAt template address) (e.matchesAt template address) := by
  induction template generalizing c e address with
  | nil => exact ⟨rfl, alike⟩
  | cons b bs ih =>
    have read := alike.ask (.read .byte address) fun _ _ related => bisim.readByte related address
    simp only [Channel.matchesAt]
    rw [← read.answer]
    split
    · refine ih ?_ _
      exact read.after
    · exact ⟨rfl, read.after⟩

theorem findAmong_succ (c : Channel H) (template : Bytes) (n : Nat) (address : UInt32)
    (index : Nat) :
    c.findAmong template (n + 1) address index =
      if (c.matchesAt template address).1 ∧ index = 0 then
        (some address, (c.matchesAt template address).2)
      else (c.matchesAt template address).2.findAmong template n (address + 1)
        (if (c.matchesAt template address).1 then index - 1 else index) := by
  rw [findAmong]
  rcases c.matchesAt template address with ⟨found, e⟩
  cases found with
  | false => simp
  | true => cases index <;> simp

theorem Alike.findAmong {c : Channel H} {e : Channel K} (alike : c.Alike R e)
    (bisim : Bisimulation R) (template : Bytes) (count : Nat) (address : UInt32) (index : Nat) :
    SameAnswer (Alike R) (c.findAmong template count address index)
      (e.findAmong template count address index) := by
  induction count generalizing c e address index with
  | zero => exact ⟨rfl, alike⟩
  | succ n ih =>
    have looked := alike.matchesAt bisim template address
    rw [findAmong_succ, findAmong_succ, ← looked.answer]
    split
    · exact ⟨rfl, looked.after⟩
    · exact ih looked.after _ _

end Channel

namespace Machine

theorem Alike.test {m : Machine H} {n : Machine K} (alike : m.Alike R n) (bisim : Bisimulation R)
    (comparison : Comparison) (width : Width) (address value upper : UInt32) :
    SameAnswer (Alike R) (m.test comparison width address value upper)
      (n.test comparison width address value upper) := by
  have read := alike.channel.readValue bisim width address
  have verdict : (m.toChannel.test comparison width address value upper).1 =
      (n.toChannel.test comparison width address value upper).1 :=
    congrArg (comparison.holds · (width.truncate value) upper) read.answer
  refine ⟨?_, ?_, read.after⟩
  · simp only [Machine.test, verdict]
  · simp only [Machine.test, verdict, alike.state]

theorem Alike.loadInteger {m : Machine H} {n : Machine K} (alike : m.Alike R n)
    (bisim : Bisimulation R) (width : Width) (register : Register) (address : UInt32) :
    SameAnswer (Alike R) (m.loadInteger width register address)
      (n.loadInteger width register address) := by
  have read := alike.channel.readValue bisim width address
  refine ⟨rfl, ?_, read.after⟩
  simp only [Machine.loadInteger, alike.state, read.answer]

theorem Alike.loadFloat {m : Machine H} {n : Machine K} (alike : m.Alike R n)
    (bisim : Bisimulation R) (register : Register) (address : UInt32) :
    SameAnswer (Alike R) (m.loadFloat register address) (n.loadFloat register address) := by
  have read := alike.channel.readWord bisim address
  refine ⟨rfl, ?_, read.after⟩
  simp only [Machine.loadFloat, alike.state, read.answer]

theorem Alike.loadPointer {m : Machine H} {n : Machine K} (alike : m.Alike R n)
    (bisim : Bisimulation R) (lower upper address : UInt32) :
    SameAnswer (Alike R) (m.loadPointer lower upper address)
      (n.loadPointer lower upper address) := by
  have read := alike.channel.readWord bisim address
  refine ⟨rfl, ?_, read.after⟩
  simp only [Machine.loadPointer, alike.state, read.answer]

theorem host_search (m : Machine H) (template : Bytes) (index : UInt16) (start stop : UInt32) :
    (m.search template index start stop).2.host =
      (m.toChannel.findTemplate template index start stop).2.host := by
  simp only [Machine.search]
  split <;> rfl

theorem Alike.search {m : Machine H} {n : Machine K} (alike : m.Alike R n)
    (bisim : Bisimulation R) (template : Bytes) (index : UInt16) (start stop : UInt32) :
    SameAnswer (Alike R) (m.search template index start stop)
      (n.search template index start stop) := by
  have found := alike.channel.findAmong bisim template (stop.toNat - start.toNat) start index.toNat
  have address : (m.toChannel.findTemplate template index start stop).1 =
      (n.toChannel.findTemplate template index start stop).1 := found.answer
  refine ⟨congrArg (fun r : Option UInt32 => Flow.replace (r.getD 0)) address, alike.state, ?_⟩
  rw [host_search, host_search]
  exact found.after

theorem Alike.call {m : Machine H} {n : Machine K} (alike : m.Alike R n) (bisim : Bisimulation R)
    (address : UInt32) (arguments : List UInt32) (low high : Register) :
    SameAnswer (Alike R) (m.call address arguments low high)
      (n.call address arguments low high) := by
  have called := alike.channel.ask
    (.call address (Vector.ofFn fun (i : Fin 8) => arguments.getD i.val 0) (min arguments.length 8))
    fun _ _ related => bisim.call related address
      (Vector.ofFn fun (i : Fin 8) => arguments.getD i.val 0) (min arguments.length 8)
  refine ⟨rfl, ?_, called.after⟩
  simp only [Machine.call, Channel.call, State.onRegisters, alike.state, called.answer]

/-- Machines in the same state on hosts that answer alike execute an instruction alike. -/
theorem Alike.execute {m : Machine H} {n : Machine K} (alike : m.Alike R n)
    (bisim : Bisimulation R) (i : Instruction) :
    SameAnswer (Alike R) (m.execute i) (n.execute i) := by
  unfold Machine.execute
  cases i with
  | write target width value =>
    apply alike.onTarget target
    intro address
    apply alike.through
    exact alike.channel.writeValue bisim width address value
  | writeString target bytes =>
    apply alike.onTarget target
    intro address
    apply alike.through
    exact bisim.writeBytes alike.host address bytes
  | writeSeries target width value iterations step increment =>
    apply alike.onTarget target
    intro address
    apply alike.through
    exact alike.channel.writeEach bisim width step increment _ address _
  | fill target value length =>
    apply alike.onTarget target
    intro address
    apply alike.through
    exact alike.channel.writeEach bisim .word 4 0 _ address _
  | test comparison target width value upper =>
    apply alike.onTarget target
    intro address
    exact alike.test bisim comparison width address value upper
  | timer delay => exact alike.setTimer delay
  | loadInteger target width register =>
    apply alike.onTarget target
    intro address
    exact alike.loadInteger bisim width register address
  | storeInteger target width register =>
    apply alike.onTarget target
    intro address
    rw [alike.state]
    apply alike.through
    exact alike.channel.writeValue bisim width address _
  | loadFloat target register =>
    apply alike.onTarget target
    intro address
    exact alike.loadFloat bisim register address
  | storeFloat target register =>
    apply alike.onTarget target
    intro address
    rw [alike.state]
    apply alike.through
    exact bisim.writeWord alike.host address _
  | integerArithmetic arithmetic destination source =>
    exact alike.integerArithmetic arithmetic destination source
  | loadPointer target lower upper =>
    apply alike.onTarget target
    intro address
    exact alike.loadPointer bisim lower upper address
  | native code => exact ⟨rfl, alike.state, bisim.native alike.host code⟩
  | systemCall code =>
    apply alike.through
    exact bisim.systemCall alike.host code
  | noOperation | timerEnd => exact ⟨rfl, alike⟩
  | corrupt start stop wanted replacement =>
    have replaced := alike.channel.replaceWords bisim wanted replacement
      ((stop.toNat - start.toNat + 3) / 4) start 0
    exact ⟨rfl, alike.state, replaced.after⟩
  | search template index startHigh stopHigh => exact alike.search bisim template index _ _
  | call address low high arguments count => exact alike.call bisim address _ low high
  | resetTimer | floatArithmetic | floatToInteger | offsetPointer | setPointer | terminator =>
    apply alike.within

end Machine

end LivePatch
