import LivePatch.Proofs.Host.Bisimulation

namespace LivePatch

/-- A host that gives one answer to every read, cut to its width, and one to every call, and on which
nothing has an effect. -/
structure ConstantHost where
  readValue : UInt32
  callResult : UInt64
deriving DecidableEq

namespace ConstantHost

/-- The host that answers as a closed gate does. -/
def ofConfig (config : Config) : ConstantHost :=
  ⟨config.readValue, config.callResult⟩

instance : Host ConstantHost where
  readByte c _ := (c.readValue.toUInt8, c)
  readHalf c _ := (c.readValue.toUInt16, c)
  readWord c _ := (c.readValue, c)
  writeByte c _ _ := c
  writeHalf c _ _ := c
  writeWord c _ _ := c
  writeBytes c _ _ := c
  native c _ := c
  systemCall c _ := c
  call c _ _ _ := (c.callResult, c)

end ConstantHost

namespace Gate

variable {H : Type}

/-- The gate is still `shut`, and the host is the one that answers like it. -/
structure StaysShut (shut g : Gate H) (c : ConstantHost) : Prop where
  gate : g = shut
  host : c = ⟨shut.readValue, shut.callResult⟩

/-- The gate is open to the host. -/
structure OpensTo (g : Gate H) (h : H) : Prop where
  live : g.live = true
  host : g.host = h

theorem change_of_closed {g : Gate H} (closed : g.live = false) (f : H → H) : g.change f = g := by
  rw [change, closed]
  rfl

theorem ask_of_closed {α : Type} {g : Gate H} (closed : g.live = false) (f : H → α × H)
    (sentinel : α) : g.ask f sentinel = (sentinel, g) := by
  rw [ask, closed]
  rfl

theorem OpensTo.change {g : Gate H} {h : H} (opens : g.OpensTo h) (f : H → H) :
    (g.change f).OpensTo (f h) := by
  rw [Gate.change, opens.live, opens.host]
  exact ⟨rfl, rfl⟩

theorem OpensTo.ask {α : Type} {g : Gate H} {h : H} (opens : g.OpensTo h) (f : H → α × H)
    (sentinel : α) : SameAnswer OpensTo (g.ask f sentinel) (f h) := by
  rw [Gate.ask, opens.live, opens.host]
  exact ⟨rfl, rfl, rfl⟩

variable [Host H]

theorem bisimulation_staysShut {shut : Gate H} (closed : shut.live = false) :
    Bisimulation shut.StaysShut := by
  have same : shut.StaysShut shut ⟨shut.readValue, shut.callResult⟩ := ⟨rfl, rfl⟩
  have changes (f : H → H) : shut.StaysShut (shut.change f) ⟨shut.readValue, shut.callResult⟩ := by
    rw [change_of_closed closed]
    exact same
  have asks {α : Type} (f : H → α × H) (sentinel : α) : SameAnswer shut.StaysShut
      (shut.ask f sentinel) (sentinel, ⟨shut.readValue, shut.callResult⟩) := by
    rw [ask_of_closed closed]
    exact ⟨rfl, same⟩
  constructor
  all_goals
    rintro g c ⟨rfl, rfl⟩
    intros
  case readByte | readHalf | readWord | call => apply asks
  all_goals apply changes

theorem bisimulation_opensTo : Bisimulation (OpensTo (H := H)) := by
  constructor
  case readByte | readHalf | readWord | call =>
    intro g h opens
    intros
    apply opens.ask
  all_goals
    intro g h opens
    intros
    apply opens.change

/-- One gate, set as the configuration says. -/
structure SetAs (config : Config) (g k : Gate H) : Prop where
  same : g = k
  settings : ∃ h, g = .ofConfig config h

/-- No operation changes what a gate is set to. -/
theorem bisimulation_setAs (config : Config) : Bisimulation (SetAs (H := H) config) := by
  have changes (h : H) (f : H → H) : ∃ h', (ofConfig config h).change f = .ofConfig config h' := by
    unfold Gate.change
    split
    · exact ⟨f h, rfl⟩
    · exact ⟨h, rfl⟩
  have asks {α : Type} (h : H) (f : H → α × H) (sentinel : α) :
      ∃ h', ((ofConfig config h).ask f sentinel).2 = .ofConfig config h' := by
    unfold Gate.ask
    split
    · exact ⟨(f h).2, rfl⟩
    · exact ⟨h, rfl⟩
  constructor
  case readByte | readHalf | readWord | call =>
    rintro _ _ ⟨rfl, h, rfl⟩
    intros
    exact ⟨rfl, rfl, asks h _ _⟩
  all_goals
    rintro _ _ ⟨rfl, h, rfl⟩
    intros
    exact ⟨rfl, changes h _⟩

end Gate

end LivePatch
