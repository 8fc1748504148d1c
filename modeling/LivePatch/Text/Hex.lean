import LivePatch.Bytes

namespace LivePatch.Text

def padLeft (width : Nat) (fill : Char) (cs : List Char) : List Char :=
  List.replicate (width - cs.length) fill ++ cs

/-- Lower-case digits, with at least `width` of them. -/
def hexDigits (width n : Nat) : List Char :=
  padLeft width '0' (Nat.toDigits 16 n)

/-- Upper-case digits, with at least `width` of them. -/
def upperHexDigits (width n : Nat) : List Char :=
  (hexDigits width n).map Char.toUpper

/-- A number as `0x` and at least `width` lower-case digits. -/
def hex (width n : Nat) : String :=
  "0x" ++ String.ofList (hexDigits width n)

def upperHex (width n : Nat) : String :=
  String.ofList (upperHexDigits width n)

/-- Bytes as contiguous upper-case digits. -/
def hexBytes (bs : Bytes) : String :=
  String.ofList (bs.flatMap fun b => upperHexDigits 2 b.toNat)

/-- A code line as two words of hex with a blank between; a line of at most four bytes is one word. -/
def hexLine (bs : Bytes) : String :=
  match bs.drop 4 with
  | [] => hexBytes bs
  | second => hexBytes (bs.take 4) ++ " " ++ hexBytes second

/-- Text filled with blanks on the right up to `width`. -/
def padRight (width : Nat) (s : String) : String :=
  s ++ String.ofList (List.replicate (width - s.length) ' ')

end LivePatch.Text
