/-
# Intents and their identity

The intent as a client submits it, and its id: a Keccak digest over every economic field.
Values that come from outside keep their fixed width.  The hash comes from a library, so
the model is stated over any function from byte strings to 32 bytes.
-/
import Mathlib.Data.String.Basic
import Mathlib.Data.Prod.Lex
import Zequencer.Lib.Bytes

namespace Zequencer

/-- The Keccak-256 function: the digest of all bytes fed to a hasher. -/
class Keccak256 where
  digest : List UInt8 → Bytes 32

/-- Submitting account. -/
structure Address where
  bytes : Bytes 20
deriving DecidableEq

/-- Addresses are compared byte by byte. -/
instance : LinearOrder Address :=
  LinearOrder.lift' (fun a => a.bytes.digits) fun ⟨_⟩ ⟨_⟩ h =>
    congrArg Address.mk (Bytes.digits_injective h)

/-- The side of the market an intent is on. -/
inductive Side where
  | buy
  | sell
deriving DecidableEq

/-- The discriminant of the side, `self.side as u8`. -/
def Side.toU8 : Side → UInt8
  | .buy => 0
  | .sell => 1

/-- The asset pair an intent trades against, e.g. ETH/USDC. -/
structure Market where
  base : String
  quote : String
deriving DecidableEq

/-- Markets are compared by base, then by quote. -/
instance : LinearOrder Market :=
  LinearOrder.lift' (fun m => toLex (m.base, m.quote)) fun ⟨_, _⟩ ⟨_, _⟩ h => by
    simpa using h

/-- The digest that names an intent. -/
structure IntentId where
  bytes : Bytes 32
deriving DecidableEq

/-- Ids are compared byte by byte. -/
instance : LinearOrder IntentId :=
  LinearOrder.lift' (fun a => a.bytes.digits) fun ⟨_⟩ ⟨_⟩ h =>
    congrArg IntentId.mk (Bytes.digits_injective h)

/-- The value of a hex digit of either case. -/
def hexDigit (b : UInt8) : Option UInt8 :=
  if 65 ≤ b ∧ b ≤ 70 then some (b - 65 + 10)
  else if 97 ≤ b ∧ b ≤ 102 then some (b - 97 + 10)
  else if 48 ≤ b ∧ b ≤ 57 then some (b - 48)
  else none

/-- `hex::decode`: two digits for each byte. -/
def hexDecode : List UInt8 → Option (List UInt8)
  | [] => some []
  | [_] => none
  | high :: low :: rest => do
    let high ← hexDigit high
    let low ← hexDigit low
    let rest ← hexDecode rest
    return (high <<< 4 ||| low) :: rest

/-- The UTF-8 bytes of a string. -/
def utf8Bytes (s : String) : List UInt8 := s.toByteArray.data.toList

/-- An id as 64 hex digits. -/
def IntentId.parse (s : String) : Option IntentId := do
  let bytes ← hexDecode (utf8Bytes s)
  if bytes.length = 32 then some ⟨Bytes.ofList 32 bytes⟩ else none

/-- What a client wants done, as it submits it. -/
structure Intent where
  submitter : Address
  /-- Per-submitter ordering counter. -/
  nonce : UInt64
  market : Market
  side : Side
  /-- Integer base units. -/
  size : BitVec 128
  /-- Risk control, in basis points. -/
  maxSlippageBps : UInt16
  /-- What the submitter bids for position within its ordering domain. -/
  priorityFee : UInt64
  /-- When the client created the intent. -/
  timestampMs : UInt64
  /-- Client-declared expiry. -/
  deadlineMs : UInt64
deriving DecidableEq

/-- The domain separator of the intent encoding, `b"INTENT-V1"`. -/
def intentDomain : List UInt8 := utf8Bytes "INTENT-V1"

/-- The canonical encoding of every economic field. -/
def Intent.encoding (i : Intent) : List UInt8 :=
  intentDomain
    ++ i.submitter.bytes.toList
    ++ leBytes 8 i.nonce.toNat
    -- length-prefixed: otherwise ("AB","C") and ("A","BC") would hash alike
    ++ leBytes 8 (utf8Bytes i.market.base).length
    ++ utf8Bytes i.market.base
    ++ leBytes 8 (utf8Bytes i.market.quote).length
    ++ utf8Bytes i.market.quote
    ++ [i.side.toU8]
    ++ leBytes 16 i.size.toNat
    ++ leBytes 2 i.maxSlippageBps.toNat
    ++ leBytes 8 i.priorityFee.toNat
    ++ leBytes 8 i.timestampMs.toNat
    ++ leBytes 8 i.deadlineMs.toNat

/-- Keccak over the canonical encoding. -/
def Intent.id [Keccak256] (i : Intent) : IntentId := ⟨Keccak256.digest i.encoding⟩

/-- The fixed clock of the fixtures. -/
def testNow : UInt64 := 1700000000000

/-- The fixture intent number `n`. -/
def dummy (n : UInt64) : Intent where
  submitter := ⟨Vector.replicate 20 n.toUInt8⟩
  nonce := n
  market := ⟨"ETH", "USDC"⟩
  side := .buy
  size := 1000000000000000000
  maxSlippageBps := 50
  priorityFee := 0
  timestampMs := testNow + n
  deadlineMs := testNow + 60000 + n

end Zequencer
