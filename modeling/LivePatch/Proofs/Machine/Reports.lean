import LivePatch.Proofs.Host.Bisimulation

namespace LivePatch

/-- Events of which no account is kept: details of what an instruction does, and that a pass begins or
is complete. -/
def Event.isAside : Event → Bool
  | suppressed _ | write .. | writeString .. | called .. | tested .. | timerClosed .. | pointerLoaded ..
  | corrupted _ | templateNotFound _ | passStarted .. | passCompleted .. => true
  | ofHost level .. => level = .trace
  | _ => false

/-- No account is kept of anything that such a host reports, whatever it is asked. -/
def Host.Discreet (H : Type) [Host H] : Prop :=
  ∀ (h : H) (request : HostRequest), ∀ e ∈ Host.reports h request, e.isAside = true

/-- Between two states of a log the events `notes` were reported in this order, and asides. -/
def Noted (before after : Array Event) (notes : List Event) : Prop :=
  ∃ events, after.toList = before.toList ++ events ∧ events.filter (!·.isAside) = notes

namespace Noted

variable {before between after : Array Event} {notes later : List Event} {e : Event}

theorem refl (log : Array Event) : Noted log log [] :=
  ⟨[], (List.append_nil _).symm, rfl⟩

theorem trans (first : Noted before between notes) (second : Noted between after later) :
    Noted before after (notes ++ later) := by
  obtain ⟨events, grown, noted⟩ := first
  obtain ⟨more, grownAgain, notedAgain⟩ := second
  refine ⟨events ++ more, ?_, ?_⟩
  · rw [grownAgain, grown, List.append_assoc]
  · rw [List.filter_append, noted, notedAgain]

theorem push (noted : Noted before after notes) (counts : e.isAside = false) :
    Noted before (after.push e) (notes ++ [e]) := by
  refine noted.trans ⟨[e], Array.toList_push, ?_⟩
  simp [counts]

theorem asides {events : List Event} (noted : Noted before after notes)
    (asides : ∀ e ∈ events, e.isAside = true) : Noted before (after ++ events) notes := by
  have silent : Noted after (after ++ events) [] := by
    refine ⟨events, Array.toList_appendList, ?_⟩
    simpa using asides
  simpa using noted.trans silent

theorem aside (noted : Noted before after notes) (aside : e.isAside = true) :
    Noted before (after.push e) notes := by
  have single : ∀ f ∈ [e], f.isAside = true := by simpa using aside
  simpa using noted.asides single

end Noted

variable {H : Type}

namespace Channel

variable [Host H] (discreet : Host.Discreet H)
include discreet

theorem noted_change (c : Channel H) (request : HostRequest) (f : H → H) :
    Noted c.log (c.change request f).log [] :=
  (Noted.refl _).asides (discreet c.host request)

theorem noted_ask {α : Type} (c : Channel H) (request : HostRequest) (f : H → α × H) :
    Noted c.log (c.ask request f).2.log [] :=
  (Noted.refl _).asides (discreet c.host request)

theorem noted_readWord (c : Channel H) (address : UInt32) : Noted c.log (c.readWord address).2.log [] :=
  c.noted_ask discreet _ _

theorem noted_writeWord (c : Channel H) (address value : UInt32) :
    Noted c.log (c.writeWord address value).log [] :=
  c.noted_change discreet _ _

theorem noted_readValue (c : Channel H) (width : Width) (address : UInt32) :
    Noted c.log (c.readValue width address).2.log [] := by
  cases width with
  | byte => exact c.noted_ask discreet (.read .byte address) (Host.readByte · address)
  | half => exact c.noted_ask discreet (.read .half address) (Host.readHalf · address)
  | word => exact c.noted_readWord discreet address

theorem noted_writeValue (c : Channel H) (width : Width) (address value : UInt32) :
    Noted c.log (c.writeValue width address value).log [] := by
  have announced : Noted c.log (c.emit (.write address value width)).log [] := (Noted.refl _).aside rfl
  cases width with
  | byte | half | word => exact announced.trans (noted_change discreet _ _ _)

theorem noted_writeString (c : Channel H) (address : UInt32) (bytes : Bytes) :
    Noted c.log (c.writeString address bytes).log [] := by
  have announced : Noted c.log (c.emit (.writeString address bytes.length)).log [] :=
    (Noted.refl _).aside rfl
  exact announced.trans (noted_change discreet _ _ _)

theorem noted_writeEach (c : Channel H) (width : Width) (step increment : UInt32) (iterations : Nat)
    (address value : UInt32) :
    Noted c.log (c.writeEach width step increment iterations address value).log [] := by
  induction iterations generalizing c address value with
  | zero => exact .refl _
  | succ n ih =>
    have first := c.noted_writeValue discreet width address value
    exact first.trans (ih _ _ _)

theorem noted_replaceWords (c : Channel H) (wanted replacement : UInt32) (words : Nat)
    (address : UInt32) (replaced : Nat) :
    Noted c.log (c.replaceWords wanted replacement words address replaced).2.log [] := by
  induction words generalizing c address replaced with
  | zero => exact .refl _
  | succ n ih =>
    have read := c.noted_readWord discreet address
    simp only [replaceWords]
    split
    · have written := read.trans (noted_writeWord discreet _ address replacement)
      exact written.trans (ih _ _ _)
    · exact read.trans (ih _ _ _)

theorem noted_matchesAt (c : Channel H) (template : Bytes) (address : UInt32) :
    Noted c.log (c.matchesAt template address).2.log [] := by
  induction template generalizing c address with
  | nil => exact .refl _
  | cons b bs ih =>
    have read := c.noted_ask discreet (.read .byte address) (Host.readByte · address)
    simp only [matchesAt]
    split
    · exact read.trans (ih _ _)
    · exact read

theorem noted_findAmong (c : Channel H) (template : Bytes) (count : Nat) (address : UInt32)
    (index : Nat) : Noted c.log (c.findAmong template count address index).2.log [] := by
  induction count generalizing c address index with
  | zero => exact .refl _
  | succ n ih =>
    have looked := c.noted_matchesAt discreet template address
    rw [findAmong_succ]
    split
    · exact looked
    · exact looked.trans (ih _ _ _)

theorem noted_call (c : Channel H) (registers : Registers) (address : UInt32) (arguments : List UInt32)
    (low high : Register) : Noted c.log (c.call registers address arguments low high).2.2.log [] := by
  simp only [call]
  exact (c.noted_ask discreet _ _).aside rfl

end Channel

namespace Machine

/-- What an instruction reports, asides apart: an integer division by zero. -/
def warnings (m : Machine H) : Instruction → List Event
  | .integerArithmetic .divide destination source =>
    if m.state.registers.integerOperand source = 0 then [.dividedByZero destination] else []
  | _ => []

theorem noted_onTarget {m : Machine H} {t : Target} {act : Machine H → UInt32 → Flow × Machine H}
    (acts : ∀ address, Noted m.log (act m address).2.log []) :
    Noted m.log (m.onTarget t act).2.log [] := by
  unfold onTarget
  split
  · exact acts _
  · exact (Noted.refl _).aside rfl

theorem noted_integerArithmetic (m : Machine H) (arithmetic : Arithmetic) (destination : Register)
    (source : Source) :
    Noted m.log (m.integerArithmetic arithmetic destination source).2.log
      (m.warnings (.integerArithmetic arithmetic destination source)) := by
  simp only [integerArithmetic, Registers.dividesByZero, decide_eq_true_eq]
  split
  · rename_i dividing
    obtain ⟨rfl, zero⟩ := dividing
    rw [warnings, if_pos zero]
    exact (Noted.refl _).push rfl
  · rename_i dividing
    have silent : m.warnings (.integerArithmetic arithmetic destination source) = [] := by
      cases arithmetic with
      | divide => rw [warnings, if_neg fun zero => dividing ⟨rfl, zero⟩]
      | add | subtract | multiply => rfl
    rw [silent]
    exact .refl _

theorem noted_setTimer (m : Machine H) (delay : UInt32) :
    Noted m.log (m.setTimer delay).2.log [] := by
  simp only [setTimer]
  split
  · exact (Noted.refl _).aside rfl
  · exact .refl _

variable [Host H] (discreet : Host.Discreet H)
include discreet

theorem noted_search (m : Machine H) (template : Bytes) (index : UInt16) (start stop : UInt32) :
    Noted m.log (m.search template index start stop).2.log [] := by
  have looked : Noted m.log (m.toChannel.findTemplate template index start stop).2.log [] :=
    m.toChannel.noted_findAmong discreet template _ start _
  simp only [search]
  split
  · exact looked
  · exact looked.aside rfl

/-- What an instruction adds to the log. -/
theorem noted_execute (m : Machine H) (i : Instruction) :
    Noted m.log (m.execute i).2.log (m.warnings i) := by
  cases i with
  | write target width value =>
    apply noted_onTarget
    intro address
    exact m.toChannel.noted_writeValue discreet width address value
  | storeInteger target width register =>
    apply noted_onTarget
    intro address
    exact m.toChannel.noted_writeValue discreet width address _
  | writeString target bytes =>
    apply noted_onTarget
    intro address
    exact m.toChannel.noted_writeString discreet address bytes
  | writeSeries target width value iterations step increment =>
    apply noted_onTarget
    intro address
    exact m.toChannel.noted_writeEach discreet width step increment _ address _
  | fill target value length =>
    apply noted_onTarget
    intro address
    exact m.toChannel.noted_writeEach discreet .word 4 0 _ address _
  | test comparison target width value upper =>
    apply noted_onTarget
    intro address
    exact (m.toChannel.noted_readValue discreet width address).aside rfl
  | loadInteger target width register =>
    apply noted_onTarget
    intro address
    exact m.toChannel.noted_readValue discreet width address
  | loadPointer target lower upper =>
    apply noted_onTarget
    intro address
    exact (m.toChannel.noted_readWord discreet address).aside rfl
  | loadFloat target register =>
    apply noted_onTarget
    intro address
    exact m.toChannel.noted_readWord discreet address
  | storeFloat target register =>
    apply noted_onTarget
    intro address
    exact m.toChannel.noted_writeWord discreet address _
  | timer delay => exact m.noted_setTimer delay
  | integerArithmetic arithmetic destination source =>
    exact m.noted_integerArithmetic arithmetic destination source
  | native code => exact (Noted.refl _).asides (discreet m.host (.native code))
  | systemCall code => exact m.toChannel.noted_change discreet _ _
  | corrupt start stop wanted replacement =>
    exact (m.toChannel.noted_replaceWords discreet wanted replacement _ start 0).aside rfl
  | search template index startHigh stopHigh => exact m.noted_search discreet template index _ _
  | call address low high =>
    exact m.toChannel.noted_call discreet m.state.registers address _ low high
  | resetTimer | floatArithmetic | floatToInteger | offsetPointer | setPointer | terminator
  | noOperation | timerEnd => exact .refl _

end Machine

end LivePatch
