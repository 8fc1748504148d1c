import LivePatch.Instruction.Text
import LivePatch.Program

namespace LivePatch

/-- A line of a listing: some stream bytes, and a remark on the first line of an instruction. -/
structure Entry where
  offset : Nat
  bytes : Bytes
  remark : Option String
deriving DecidableEq

/-- Offset and bytes; a remark stands in a column of its own. -/
def Entry.text (e : Entry) : String :=
  let label := "0x" ++ Text.upperHex 4 e.offset ++ ":  "
  match e.remark with
  | some remark => label ++ Text.padRight 17 (Text.hexLine e.bytes) ++ "  " ++ remark
  | none => label ++ Text.hexLine e.bytes

/-- The code lines after the first one of an instruction. -/
def continuation (offset : Nat) (bs : Bytes) : List Entry :=
  if bs.isEmpty then []
  else ⟨offset, bs.take 8, none⟩ :: continuation (offset + 8) (bs.drop 8)
termination_by bs.length
decreasing_by
  rename_i nonempty
  have : bs.length ≠ 0 := by simpa using nonempty
  simp only [List.length_drop]
  omega

def Located.entries (l : Located) : List Entry :=
  ⟨l.offset, l.bytes.take 8, some l.instruction.text⟩ :: continuation (l.offset + 8) (l.bytes.drop 8)

def Halt.entry (h : Halt) : Entry :=
  ⟨h.offset, h.rest.take 8, some ("; ERROR: " ++ h.error.message)⟩

def Sweep.entries (s : Sweep) : List Entry :=
  s.found.toList.flatMap Located.entries ++ s.halt.toList.map Halt.entry

/-- The lines of a listing: a heading, the entries, and the number of instructions. -/
def listingLines (bs : Bytes) : List String :=
  let s := sweep bs
  let length := bs.length
  ["; Code Handler Disassembly",
    s!"; Stream size: {length} bytes (" ++ toString (length / 8) ++ " lines)", ""] ++
    s.entries.map Entry.text ++
    ["; " ++ toString s.found.size ++ " instructions"]

def listing (bs : Bytes) : String :=
  String.join ((listingLines bs).map (· ++ "\n"))

end LivePatch
