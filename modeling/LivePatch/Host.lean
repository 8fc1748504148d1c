import LivePatch.Machine.Event

namespace LivePatch

/-- What a machine asks of its host. -/
inductive HostRequest where
  | read (width : Width) (address : UInt32)
  | write (width : Width) (address value : UInt32)
  | writeBytes (address : UInt32) (bytes : Bytes)
  | native (code : Bytes)
  | systemCall (code : UInt16)
  | call (address : UInt32) (arguments : Vector UInt32 8) (count : Nat)
deriving DecidableEq

/-- A process seen from the machine. Every operation passes the host on, reads included, so that a
host may keep track of what is asked of it. Words in memory are big-endian. -/
class Host (H : Type) where
  readByte : H → UInt32 → UInt8 × H
  readHalf : H → UInt32 → UInt16 × H
  readWord : H → UInt32 → UInt32 × H
  writeByte : H → UInt32 → UInt8 → H
  writeHalf : H → UInt32 → UInt16 → H
  writeWord : H → UInt32 → UInt32 → H
  /-- Writes bytes to consecutive addresses; one at a time, unless the host knows better. -/
  writeBytes : H → UInt32 → Bytes → H := fun h address bytes =>
    (bytes.foldl (fun (h, address) b => (writeByte h address b, address + 1)) (h, address)).1
  /-- Runs machine code. -/
  native : H → Bytes → H
  systemCall : H → UInt16 → H
  /-- Calls a function with the first `count` of eight arguments. -/
  call : H → UInt32 → Vector UInt32 8 → Nat → UInt64 × H
  /-- What the host itself reports while it does what it is asked. -/
  reports : H → HostRequest → List Event := fun _ _ => []

/-- Runs machine code, and gives what is reported of it. -/
def Host.runNative {H : Type} [Host H] (h : H) (code : Bytes) : H × List Event :=
  (Host.native h code, Host.reports h (.native code))

/-- A host on which reading leaves no mark. -/
class QuietHost (H : Type) [Host H] : Prop where
  readByte_quiet : ∀ (h : H) (address : UInt32), (Host.readByte h address).2 = h
  readHalf_quiet : ∀ (h : H) (address : UInt32), (Host.readHalf h address).2 = h
  readWord_quiet : ∀ (h : H) (address : UInt32), (Host.readWord h address).2 = h

end LivePatch
