import LivePatch.Host

namespace LivePatch

/-- An operation on a host, as it is noted down. -/
inductive HostCall where
  | read (width : Width) (address : UInt32)
  | write (width : Width) (address value : UInt32)
  | native (length : Nat)
  | systemCall (code : UInt16)
  | call (address : UInt32) (arguments : Vector UInt32 8) (count : Nat)
deriving DecidableEq

/-- A host with a journal of every operation that reached it. -/
structure Journal (H : Type) where
  host : H
  calls : Array HostCall := #[]

namespace Journal

variable {H : Type} [Host H]

def change (j : Journal H) (call : HostCall) (f : H → H) : Journal H :=
  { host := f j.host, calls := j.calls.push call }

def ask {α : Type} (j : Journal H) (call : HostCall) (f : H → α × H) : α × Journal H :=
  let (a, host) := f j.host
  (a, { host, calls := j.calls.push call })

instance : Host (Journal H) where
  readByte j address := j.ask (.read .byte address) (Host.readByte · address)
  readHalf j address := j.ask (.read .half address) (Host.readHalf · address)
  readWord j address := j.ask (.read .word address) (Host.readWord · address)
  writeByte j address value :=
    j.change (.write .byte address value.toUInt32) (Host.writeByte · address value)
  writeHalf j address value :=
    j.change (.write .half address value.toUInt32) (Host.writeHalf · address value)
  writeWord j address value := j.change (.write .word address value) (Host.writeWord · address value)
  native j code := j.change (.native code.length) (Host.native · code)
  systemCall j code := j.change (.systemCall code) (Host.systemCall · code)
  call j address arguments count :=
    j.ask (.call address arguments count) (Host.call · address arguments count)
  reports j := Host.reports j.host

end Journal

end LivePatch
