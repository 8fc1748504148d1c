import LivePatch.Proofs.Host.Bisimulation

namespace LivePatch

variable {H : Type}

theorem Gate.ask_quiet {α : Type} (g : Gate H) {f : H → α × H} (sentinel : α)
    (quiet : (f g.host).2 = g.host) : (g.ask f sentinel).2 = g := by
  unfold Gate.ask
  split
  · simp only [quiet]
  · rfl

variable [Host H] [QuietHost H]

instance : QuietHost (Gate H) where
  readByte_quiet g address := g.ask_quiet _ (QuietHost.readByte_quiet g.host address)
  readHalf_quiet g address := g.ask_quiet _ (QuietHost.readHalf_quiet g.host address)
  readWord_quiet g address := g.ask_quiet _ (QuietHost.readWord_quiet g.host address)

namespace Channel

theorem host_matchesAt (c : Channel H) (template : Bytes) (address : UInt32) :
    (c.matchesAt template address).2.host = c.host := by
  induction template generalizing c address with
  | nil => rfl
  | cons b bs ih =>
    have quiet := QuietHost.readByte_quiet c.host address
    simp only [matchesAt]
    split
    · rw [ih]
      exact quiet
    · exact quiet

theorem host_findAmong (c : Channel H) (template : Bytes) (count : Nat) (address : UInt32)
    (index : Nat) : (c.findAmong template count address index).2.host = c.host := by
  induction count generalizing c address index with
  | zero => rfl
  | succ n ih =>
    have quiet := c.host_matchesAt template address
    rw [findAmong_succ]
    split
    · exact quiet
    · rw [ih, quiet]

end Channel

/-- A search changes neither the state nor the host. -/
theorem Machine.search_alike (m : Machine H) (template : Bytes) (index : UInt16)
    (start stop : UInt32) : (m.search template index start stop).2.Alike Eq m := by
  refine ⟨rfl, ?_⟩
  rw [host_search]
  exact m.toChannel.host_findAmong template _ start _

end LivePatch
