import LivePatch.Instruction.Advance
import LivePatch.Instruction.Encode

namespace LivePatch

/-- The first instruction of a program that breaks a limit. -/
structure AssemblyError where
  index : Nat
  opcode : Opcode
  reason : Misfit
deriving DecidableEq

def AssemblyError.message (e : AssemblyError) : String :=
  s!"Invalid instruction {e.index} (" ++ e.opcode.mnemonic ++ "): " ++ e.reason.message

def firstMisfit? (p : List Instruction) : Option AssemblyError :=
  p.zipIdx.findSome? fun (i, index) => i.misfit?.map fun reason => ⟨index, i.opcode, reason⟩

/-- The stream of a program whose instructions all keep their limits. -/
def assemble (p : List Instruction) : Except AssemblyError Bytes :=
  match firstMisfit? p with
  | some e => .error e
  | none => .ok (p.flatMap Instruction.encode)

/-- An instruction with its place in a stream and the bytes it was read from. -/
structure Located where
  offset : Nat
  bytes : Bytes
  instruction : Instruction
deriving DecidableEq

/-- Where a sweep had to give up. -/
structure Halt where
  offset : Nat
  rest : Bytes
  error : DecodeError
deriving DecidableEq

/-- The instructions of a stream in order, up to the first that cannot be read. -/
structure Sweep where
  found : Array Located
  halt : Option Halt
deriving DecidableEq

/-- Follows the stream without taking any branch. -/
def sweepFrom (found : Array Located) (offset : Nat) (bs : Bytes) : Sweep :=
  if bs.isEmpty then ⟨found, none⟩
  else
    match _ : decode bs with
    | .error e => ⟨found, some ⟨offset, bs, e⟩⟩
    | .ok (i, n) => sweepFrom (found.push ⟨offset, bs.take n, i⟩) (offset + n) (bs.drop n)
termination_by bs.length
decreasing_by
  have := decode_bounds ‹decode bs = .ok (i, n)›
  simp only [List.length_drop]
  omega

def sweep (bs : Bytes) : Sweep :=
  sweepFrom #[] 0 bs

/-- The instructions of a stream with their offsets. A stream of broken lines is refused before
anything is read. -/
def instructions (bs : Bytes) : Except DecodeError (List (Nat × Instruction)) :=
  if bs.length % 8 ≠ 0 then .error (.partialLine (bs.length - bs.length % 8) (bs.length % 8))
  else
    let s := sweep bs
    match s.halt with
    | some halt => .error halt.error
    | none => .ok (s.found.toList.map fun l => (l.offset, l.instruction))

end LivePatch
