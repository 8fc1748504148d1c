import LivePatch.Host

namespace LivePatch

/-- A machine's way to the outside: the host that it acts on and the log that it reports to. -/
structure Channel (H : Type) where
  host : H
  /-- Events so far, oldest first. -/
  log : Array Event := #[]

namespace Channel

variable {H : Type}

def emit (c : Channel H) (e : Event) : Channel H :=
  { c with log := c.log.push e }

variable [Host H]

/-- A request that only changes the host. -/
def change (c : Channel H) (request : HostRequest) (f : H → H) : Channel H :=
  { host := f c.host, log := c.log ++ Host.reports c.host request }

/-- A request with an answer. -/
def ask {α : Type} (c : Channel H) (request : HostRequest) (f : H → α × H) : α × Channel H :=
  let (a, host) := f c.host
  (a, { host, log := c.log ++ Host.reports c.host request })

def readWord (c : Channel H) (address : UInt32) : UInt32 × Channel H :=
  c.ask (.read .word address) (Host.readWord · address)

/-- The value at an address, extended by zeros. -/
def readValue (c : Channel H) (width : Width) (address : UInt32) : UInt32 × Channel H :=
  match width with
  | .byte =>
    let (value, c) := c.ask (.read .byte address) (Host.readByte · address)
    (value.toUInt32, c)
  | .half =>
    let (value, c) := c.ask (.read .half address) (Host.readHalf · address)
    (value.toUInt32, c)
  | .word => c.readWord address

def writeWord (c : Channel H) (address value : UInt32) : Channel H :=
  c.change (.write .word address value) (Host.writeWord · address value)

/-- Writes the low bits of `value`, as many as the width has. -/
def writeValue (c : Channel H) (width : Width) (address value : UInt32) : Channel H :=
  let c := c.emit (.write address value width)
  let request := .write width address (width.truncate value)
  match width with
  | .byte => c.change request (Host.writeByte · address value.toUInt8)
  | .half => c.change request (Host.writeHalf · address value.toUInt16)
  | .word => c.writeWord address value

def writeString (c : Channel H) (address : UInt32) (bytes : Bytes) : Channel H :=
  let c := c.emit (.writeString address bytes.length)
  c.change (.writeBytes address bytes) (Host.writeBytes · address bytes)

/-- Writes `iterations` values, the first of them as it is. -/
def writeEach (c : Channel H) (width : Width) (step increment : UInt32) :
    (iterations : Nat) → (address value : UInt32) → Channel H
  | 0, _, _ => c
  | n + 1, address, value =>
    (c.writeValue width address value).writeEach width step increment n (address + step)
      (width.truncate (value + increment))

/-- Writes `iterations` values, each `increment` above the one before and `step` further on. -/
def writeSeries (c : Channel H) (width : Width) (address value : UInt32) (iterations : Nat)
    (step increment : UInt32) : Channel H :=
  c.writeEach width step increment iterations address (width.truncate value)

/-- Fills the whole words among `length` bytes. -/
def fill (c : Channel H) (address value length : UInt32) : Channel H :=
  c.writeSeries .word address value (length.toNat / 4) 4 0

/-- Goes through `words` words in order and replaces those equal to `wanted`; counts them on top of
`replaced`. -/
def replaceWords (c : Channel H) (wanted replacement : UInt32) :
    (words : Nat) → (address : UInt32) → (replaced : Nat) → Nat × Channel H
  | 0, _, replaced => (replaced, c)
  | n + 1, address, replaced =>
    let (value, c) := c.readWord address
    if value = wanted then
      (c.writeWord address replacement).replaceWords wanted replacement n (address + 4)
        (replaced + 1)
    else c.replaceWords wanted replacement n (address + 4) replaced

/-- Replaces every word equal to `wanted` that begins at a multiple of four bytes after `start` and
before `stop`. -/
def corrupt (c : Channel H) (start stop wanted replacement : UInt32) : Nat × Channel H :=
  c.replaceWords wanted replacement ((stop.toNat - start.toNat + 3) / 4) start 0

/-- Compares the value at an address with an operand of the same width; the upper bound stays a
whole word. -/
def test (c : Channel H) (comparison : Comparison) (width : Width) (address value upper : UInt32) :
    Bool × Channel H :=
  let (memory, c) := c.readValue width address
  (comparison.holds memory (width.truncate value) upper, c)

/-- Whether a template stands at an address; reads up to the first byte that differs. -/
def matchesAt (c : Channel H) : (template : Bytes) → (address : UInt32) → Bool × Channel H
  | [], _ => (true, c)
  | b :: bs, address =>
    let (value, c) := c.ask (.read .byte address) (Host.readByte · address)
    if value = b then c.matchesAt bs (address + 1) else (false, c)

/-- The match with `index` others before it, among `count` addresses in order. -/
def findAmong (c : Channel H) (template : Bytes) :
    (count : Nat) → (address : UInt32) → (index : Nat) → Option UInt32 × Channel H
  | 0, _, _ => (none, c)
  | n + 1, address, index =>
    match c.matchesAt template address with
    | (false, c) => c.findAmong template n (address + 1) index
    | (true, c) =>
      match index with
      | 0 => (some address, c)
      | index + 1 => c.findAmong template n (address + 1) index

/-- The `index`-th address, counted from zero, at which a template stands from `start` up to
`stop`. -/
def findTemplate (c : Channel H) (template : Bytes) (index : UInt16) (start stop : UInt32) :
    Option UInt32 × Channel H :=
  c.findAmong template (stop.toNat - start.toNat) start index.toNat

/-- Calls a function of the host with at most eight arguments. The low half of the result goes to
`low`, then the high half to `high`. -/
def call (c : Channel H) (registers : Registers) (address : UInt32) (arguments : List UInt32)
    (low high : Register) : UInt64 × Registers × Channel H :=
  let count := min arguments.length 8
  let slots := Vector.ofFn fun (i : Fin 8) => arguments.getD i.val 0
  let (result, c) := c.ask (.call address slots count) (Host.call · address slots count)
  let registers := registers.setInteger low result.toUInt32
  let registers := registers.setInteger high (UInt32.ofNat (result.toNat / 0x100000000))
  (result, registers, c.emit (.called address count result))

end Channel

/-- The address whose high half is given and whose low half is zero. -/
def addressOfHigh (high : UInt16) : UInt32 :=
  high.toUInt32 * 65536

end LivePatch
