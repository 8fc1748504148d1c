import LivePatch.Text.Hex

namespace LivePatch.Text

/-- Tab, line ends, quotes and the backslash have escapes of one letter; any other byte outside
`0x20` to `0x7e` is written with two hex digits. -/
def escapeByte (b : UInt8) : List Char :=
  if b = 0x09 then "\\t".toList
  else if b = 0x0d then "\\r".toList
  else if b = 0x0a then "\\n".toList
  else if b = 0x27 then "\\'".toList
  else if b = 0x22 then "\\\"".toList
  else if b = 0x5c then "\\\\".toList
  else if 0x20 ≤ b ∧ b < 0x7f then [Char.ofNat b.toNat]
  else "\\x".toList ++ hexDigits 2 b.toNat

def escape (bs : Bytes) : String :=
  String.ofList (bs.flatMap escapeByte)

end LivePatch.Text
