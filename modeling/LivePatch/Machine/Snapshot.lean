import LivePatch.Bytes
import LivePatch.Machine.State

namespace LivePatch

inductive SnapshotError where
  | unexpectedEnd
  | invalidFlag (byte : UInt8)
deriving DecidableEq

namespace SnapshotError

/-- What is wrong with the bytes. -/
def cause : SnapshotError → String
  | unexpectedEnd => "io error: unexpected end of file"
  | invalidFlag byte => s!"invalid u8 while decoding bool, expected 0 or 1, found {byte}"

def message (e : SnapshotError) : String :=
  "State snapshot error: " ++ e.cause

end SnapshotError

namespace State

/-- The snapshot of a state: a flag byte and nineteen little-endian words. -/
def toBytes (s : State) : Bytes :=
  (if s.flag then 1 else 0) :: ([s.pointer, s.delay, s.count] ++ s.registers.integer.toList ++
    s.registers.float.toList).flatMap le32

/-- The `k`-th little-endian word. -/
def wordAt (bs : Bytes) (k : Nat) : UInt32 :=
  UInt32.ofNat (ofLittleEndian ((bs.drop (4 * k)).take 4))

/-- The flag is checked before the length; bytes after the snapshot are ignored. -/
def ofBytes : Bytes → Except SnapshotError State
  | [] => .error .unexpectedEnd
  | flag :: words =>
    if 1 < flag then .error (.invalidFlag flag)
    else if fits 76 words then
      .ok {
        flag := flag = 1
        pointer := wordAt words 0
        delay := wordAt words 1
        count := wordAt words 2
        registers := {
          integer := Vector.ofFn fun i => wordAt words (3 + i.val)
          float := Vector.ofFn fun i => wordAt words (11 + i.val) } }
    else .error .unexpectedEnd

end State

end LivePatch
