import LivePatch.Instruction.Fault

namespace LivePatch

/-- The unread bytes, and how many were read before them. -/
structure Cursor where
  position : Nat
  rest : Bytes
deriving DecidableEq

namespace Cursor

def ofBytes (bs : Bytes) : Cursor :=
  ⟨0, bs⟩

/-- Length of the bytes the cursor was made from. -/
def length (c : Cursor) : Nat :=
  c.position + c.rest.length

/-- Exactly `count` bytes, or a truncation that names the place and the shortage. -/
def take (count : Nat) (c : Cursor) : Except Fault (Bytes × Cursor) :=
  if fits count c.rest then .ok (c.rest.take count, ⟨c.position + count, c.rest.drop count⟩)
  else .error (.truncated c.position count c.rest.length)

end Cursor

/-- A computation that reads from a cursor. -/
abbrev Reader := StateT Cursor (Except Fault)

namespace Reader

def bytes (count : Nat) : Reader Bytes :=
  Cursor.take count

def skip (count : Nat) : Reader Unit := do
  let _ ← bytes count

def byte : Reader UInt8 := do
  return UInt8.ofNat (ofBigEndian (← bytes 1))

def half : Reader UInt16 := do
  return UInt16.ofNat (ofBigEndian (← bytes 2))

def word : Reader UInt32 := do
  return UInt32.ofNat (ofBigEndian (← bytes 4))

def words : Nat → Reader (List UInt32)
  | 0 => return []
  | count + 1 => do
    let first ← word
    return first :: (← words count)

/-- A payload and the bytes that complete its last line, whatever they are. -/
def paddedBytes (count : Nat) : Reader Bytes := do
  let payload ← bytes count
  skip (roundUpToLine count - count)
  return payload

def fail {α : Type} (fault : Fault) : Reader α :=
  throw fault

end Reader

end LivePatch
