import PeerRpc.Frame.Decoder

/-!
# Settings of a session

The settings can be taken from the environment: a size is a decimal number above zero, blanks
around it do not matter, and anything else leaves the default; cancelling is switched off by `0`,
`false` or `no` in letters of any case, and by nothing else.
-/

namespace PeerRpc.Session

/-- The settings of a session. -/
structure Config where
  /-- The largest payload that is accepted. -/
  maxMessageSize : Nat := Frame.defaultLimit
  /-- The largest number of bytes per read. -/
  readChunkSize : Nat := 8192
  /-- Whether the peer is told when a call is given up. -/
  cancelOnAbandon : Bool := true
deriving DecidableEq, Repr

namespace Config

/-- The digits of a size, of which there must be one; a plus sign may stand before them. -/
def sizeDigits (cs : List Char) : Option (List Char) :=
  let ds := if cs.head? = some '+' then cs.drop 1 else cs
  if ds.isEmpty || ds.any fun c => !('0' ≤ c && c ≤ '9') then none else some ds

/-- The size that a text spells, if it is above zero and fits 64 bits. -/
def size? (s : String) : Option Nat := do
  let ds ← sizeDigits (Text.trimChars s.toList)
  let n ← Decimal.valueWithin? (UInt64.size - 1) (ds.map fun c => c.toNat - 48)
  if 0 < n then some n else none

/-- Whether a text switches something off. -/
def isOff (s : String) : Bool :=
  String.ofList (s.toList.map Char.toLower) ∈ ["0", "false", "no"]

/-- The settings that an environment asks for. -/
def ofEnvironment (lookup : String → Option String) : Config :=
  let defaults : Config := {}
  { maxMessageSize :=
      ((lookup "LSPWIRE_MAX_MESSAGE_SIZE").bind size?).getD defaults.maxMessageSize
    readChunkSize :=
      ((lookup "LSPWIRE_READ_CHUNK_SIZE").bind size?).getD defaults.readChunkSize
    cancelOnAbandon :=
      ((lookup "LSPWIRE_CANCEL_ON_ABANDON").map fun s => !isOff s).getD
        defaults.cancelOnAbandon }

/-- The settings with another largest payload. -/
def withMaxMessageSize (c : Config) (size : Nat) : Config :=
  { c with maxMessageSize := size }

/-- The settings with another number of bytes per read, which is at least one. -/
def withReadChunkSize (c : Config) (size : Nat) : Config :=
  { c with readChunkSize := max 1 size }

/-- The settings with the peer told, or not told, when a call is given up. -/
def withCancelOnAbandon (c : Config) (enabled : Bool) : Config :=
  { c with cancelOnAbandon := enabled }

end Config

end PeerRpc.Session
