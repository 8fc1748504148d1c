import LivePatch.Host

namespace LivePatch

structure Config where
  /-- Whether operations reach the host. -/
  live : Bool := true
  /-- What reads give in a dry run, cut to their width. -/
  readValue : UInt32 := 0x43219876
  /-- What calls return in a dry run. -/
  callResult : UInt64 := 0x1111111122222222
  /-- Whether each executed instruction is reported with its listing. -/
  trace : Bool := false
deriving DecidableEq

/-- The gate between a machine and its host. An open gate passes every operation on; a closed one lets
none through, and answers reads and calls with fixed values. -/
structure Gate (H : Type) where
  host : H
  live : Bool
  readValue : UInt32
  callResult : UInt64

namespace Gate

variable {H : Type}

def ofConfig (config : Config) (host : H) : Gate H :=
  ⟨host, config.live, config.readValue, config.callResult⟩

/-- An operation that only changes the host. -/
def change (g : Gate H) (f : H → H) : Gate H :=
  if g.live then { g with host := f g.host } else g

/-- An operation with an answer. -/
def ask {α : Type} (g : Gate H) (f : H → α × H) (sentinel : α) : α × Gate H :=
  if g.live then
    let (a, host) := f g.host
    (a, { g with host })
  else (sentinel, g)

instance [Host H] : Host (Gate H) where
  readByte g address := g.ask (Host.readByte · address) g.readValue.toUInt8
  readHalf g address := g.ask (Host.readHalf · address) g.readValue.toUInt16
  readWord g address := g.ask (Host.readWord · address) g.readValue
  writeByte g address value := g.change (Host.writeByte · address value)
  writeHalf g address value := g.change (Host.writeHalf · address value)
  writeWord g address value := g.change (Host.writeWord · address value)
  writeBytes g address bytes := g.change (Host.writeBytes · address bytes)
  native g code := g.change (Host.native · code)
  systemCall g code := g.change (Host.systemCall · code)
  call g address arguments count := g.ask (Host.call · address arguments count) g.callResult
  reports g request := if g.live then Host.reports g.host request else []

end Gate

end LivePatch
