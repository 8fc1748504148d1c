import LivePatch.Host
import Std.Data.ExtTreeMap

namespace LivePatch

structure RecordedCall where
  address : UInt32
  arguments : List UInt32
deriving DecidableEq

/-- The bytes that are not zero, by address. The map is ordered, so that an access costs the same
whatever the distance between the addresses in use. -/
abbrev SparseBytes := Std.ExtTreeMap UInt32 UInt8

/-- A zero is stored by leaving its address out. -/
def SparseBytes.store (data : SparseBytes) (address : UInt32) (b : UInt8) : SparseBytes :=
  if b = 0 then data.erase address else data.insert address b

/-- Simulated memory. Native code, system calls and calls are recorded and not carried out. -/
structure Memory where
  data : SparseBytes := ∅
  /-- Number of write operations. -/
  writes : Nat := 0
  executed : Array Bytes := #[]
  systemCalls : Array UInt16 := #[]
  calls : Array RecordedCall := #[]
  /-- What every call returns. -/
  callResult : UInt64 := 0

namespace Memory

def get (m : Memory) (address : UInt32) : UInt8 :=
  m.data[address]?.getD 0

def set (m : Memory) (address : UInt32) (b : UInt8) : Memory :=
  { m with data := m.data.store address b }

/-- Sets consecutive bytes, without counting as a write. -/
def load (m : Memory) (address : UInt32) : Bytes → Memory
  | [] => m
  | b :: bs => (m.set address b).load (address + 1) bs

/-- The bytes at `length` consecutive addresses. -/
def bytes (m : Memory) (address : UInt32) (length : Nat) : Bytes :=
  (List.range length).map fun k => m.get (address + UInt32.ofNat k)

/-- Number of bytes that are not zero. -/
def resident (m : Memory) : Nat :=
  m.data.size

def write (m : Memory) (address : UInt32) (bs : Bytes) : Memory :=
  { m with writes := m.writes + 1 }.load address bs

instance : Host Memory where
  readByte m address := (m.get address, m)
  readHalf m address := (UInt16.ofNat (ofBigEndian (m.bytes address 2)), m)
  readWord m address := (UInt32.ofNat (ofBigEndian (m.bytes address 4)), m)
  writeByte m address value := m.write address [value]
  writeHalf m address value := m.write address (be16 value)
  writeWord m address value := m.write address (be32 value)
  writeBytes m address bytes := m.write address bytes
  native m code := { m with executed := m.executed.push code }
  systemCall m code := { m with systemCalls := m.systemCalls.push code }
  call m address arguments count :=
    (m.callResult, { m with calls := m.calls.push ⟨address, arguments.toList.take count⟩ })
  reports
    | _, .native code => [.ofHost .trace "recording native code" [("bytes", toString code.length)]]
    | _, _ => []

instance : QuietHost Memory where
  readByte_quiet _ _ := rfl
  readHalf_quiet _ _ := rfl
  readWord_quiet _ _ := rfl

end Memory

end LivePatch
