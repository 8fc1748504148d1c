import LivePatch.Binary32.Decimal
import LivePatch.Instruction
import LivePatch.Text.Escape

namespace LivePatch

def hexWord (w : UInt32) : String :=
  Text.hex 0 w.toNat

def hexAddress (w : UInt32) : String :=
  Text.hex 8 w.toNat

namespace Source

def integerText : Source → String
  | register r => r.integerName
  | literal value => hexWord value

def floatText : Source → String
  | register r => r.floatName
  | literal value => Binary32.text value

end Source

/-- A mnemonic, a qualifier for some, and operands with commas between them. -/
def Instruction.text (i : Instruction) : String :=
  let op := i.opcode.mnemonic
  match i with
  | write target width value =>
    op ++ "." ++ width.text ++ " " ++ target.text ++ ", " ++ hexWord value
  | writeString target bytes => op ++ " " ++ target.text ++ ", \"" ++ Text.escape bytes ++ "\""
  | writeSeries target width value iterations step increment =>
    op ++ "." ++ width.text ++ " " ++ target.text ++ ", " ++ hexWord value ++ ", count=" ++
      toString iterations ++ ", step=" ++ hexWord step ++ ", inc=" ++ hexWord increment
  | fill target value length =>
    op ++ " " ++ target.text ++ ", " ++ hexWord value ++ ", len=" ++ hexWord length
  | test .between target width value upper =>
    op ++ "." ++ width.text ++ " " ++ target.text ++ ", " ++ hexWord value ++ ", " ++ hexWord upper
  | test _ target width value _ =>
    op ++ "." ++ width.text ++ " " ++ target.text ++ ", " ++ hexWord value
  | timer delay => op ++ " " ++ toString delay
  | loadInteger target width register | storeInteger target width register =>
    op ++ "." ++ width.text ++ " " ++ register.integerName ++ ", " ++ target.text
  | loadFloat target register | storeFloat target register =>
    op ++ " " ++ register.floatName ++ ", " ++ target.text
  | integerArithmetic arithmetic destination source =>
    op ++ "." ++ arithmetic.text ++ " " ++ destination.integerName ++ ", " ++ source.integerText
  | floatArithmetic arithmetic destination source =>
    op ++ "." ++ arithmetic.text ++ " " ++ destination.floatName ++ ", " ++ source.floatText
  | floatToInteger source destination =>
    op ++ ".toint " ++ destination.integerName ++ ", " ++ source.floatName
  | loadPointer target lower upper =>
    op ++ " " ++ target.text ++ ", " ++ hexWord lower ++ "..=" ++ hexWord upper
  | offsetPointer offset => op ++ " " ++ toString offset.toInt
  | setPointer address => op ++ " " ++ hexAddress address
  | native code => op ++ " " ++ toString (code.length / 8) ++ " lines"
  | systemCall code => op ++ " " ++ Text.hex 0 code.toNat
  | corrupt start stop wanted replacement =>
    op ++ " [" ++ hexAddress start ++ ".." ++ hexAddress stop ++ "], " ++ hexWord wanted ++
      " -> " ++ hexWord replacement
  | search template index startHigh stopHigh =>
    op ++ " [" ++ Text.hex 4 startHigh.toNat ++ "0000.." ++ Text.hex 4 stopHigh.toNat ++
      "0000], #" ++ toString index ++ ", " ++ Text.hexBytes template
  | call address low high _ _ =>
    op ++ " " ++ high.integerName ++ ":" ++ low.integerName ++ ", " ++ hexAddress address ++ "(" ++
      ", ".intercalate (i.callArguments.map hexWord) ++ ")"
  | resetTimer | terminator | noOperation | timerEnd => op

end LivePatch
