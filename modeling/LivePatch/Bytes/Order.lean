import LivePatch.Bytes

namespace LivePatch

/-- The order in which a machine's loads and stores see raw bytes. A stream is big-endian whatever
machine runs it. -/
inductive ByteOrder where
  | big
  | little
deriving DecidableEq

namespace ByteOrder

/-- The word that a load in this order makes of raw bytes. -/
def load (order : ByteOrder) (raw : Bytes) : UInt32 :=
  match order with
  | big => UInt32.ofNat (ofBigEndian raw)
  | little => UInt32.ofNat (ofLittleEndian raw)

/-- The raw bytes that a store in this order leaves. -/
def store (order : ByteOrder) (w : UInt32) : Bytes :=
  match order with
  | big => be32 w
  | little => le32 w

/-- The stream's value of a word loaded in this order; its own inverse. -/
def toBig (order : ByteOrder) (w : UInt32) : UInt32 :=
  match order with
  | big => w
  | little => UInt32.ofNat (ofBigEndian (le32 w))

end ByteOrder

end LivePatch
