/-
# What `main` wires together

How the slots are read that the demo prover is to refuse, and the values `main` sets the stages
up with.
-/
import Zequencer.Lib.Text
import Zequencer.Source.Pipeline

namespace Zequencer

/-! ### `FAIL_SLOTS` -/

/-- `char::is_whitespace`: the characters with the property `White_Space`. -/
def isWhitespace (c : Char) : Bool :=
  (9 ≤ c.toNat ∧ c.toNat ≤ 13) ∨ c.toNat = 32 ∨ c.toNat = 0x85 ∨ c.toNat = 0xA0 ∨
    c.toNat = 0x1680 ∨ (0x2000 ≤ c.toNat ∧ c.toNat ≤ 0x200A) ∨ c.toNat = 0x2028 ∨
    c.toNat = 0x2029 ∨ c.toNat = 0x202F ∨ c.toNat = 0x205F ∨ c.toNat = 0x3000

/-- `str::trim`. -/
def trim (s : List Char) : List Char := Text.trim isWhitespace s

/-- `u64::from_str`: digits, after a plus sign or none, of a number below `2 ^ 64`. -/
def parseU64 (s : List Char) : Option ℕ :=
  let digits := match s with
    | '+' :: digits => digits
    | digits => digits
  (Text.number digits).filter (· < 2 ^ 64)

/-- What stops the process; each error names the range. -/
inductive FailSlotsError where
  | notFromTo (range : List Char)
  | nonNumericBound (range : List Char)
  | runsBackwards (range : List Char)
deriving DecidableEq

/-- The range an error names. -/
def FailSlotsError.range : FailSlotsError → List Char
  | .notFromTo range => range
  | .nonNumericBound range => range
  | .runsBackwards range => range

/-- The text of an error; `debug` is how a string is shown between quotes. -/
def FailSlotsError.text (debug : List Char → String) : FailSlotsError → String
  | .notFromTo range => "FAIL_SLOTS range " ++ debug range ++ " is not `from-to`"
  | .nonNumericBound range => "FAIL_SLOTS range " ++ debug range ++ " has a non-numeric bound"
  | .runsBackwards range => "FAIL_SLOTS range " ++ debug range ++ " runs backwards"

/-- One range, trimmed. -/
def parseRange (range : List Char) : Except FailSlotsError (ℕ × ℕ) :=
  match Text.splitOnce '-' range with
  | none => .error (.notFromTo range)
  | some (fromSlot, toSlot) =>
    let bound (s : List Char) : Except FailSlotsError ℕ :=
      match parseU64 (trim s) with
      | some n => .ok n
      | none => .error (.nonNumericBound range)
    do
      let fromSlot ← bound fromSlot
      let toSlot ← bound toSlot
      if fromSlot > toSlot then .error (.runsBackwards range) else .ok (fromSlot, toSlot)

/-- Why an environment variable could not be read. -/
inductive VarError where
  | notPresent
  | notUnicode
deriving DecidableEq

/-- The ranges between the commas that are not blank. -/
def ranges (spec : List Char) : List (List Char) :=
  ((spec.splitOn ',').map trim).filter (· ≠ [])

/-- `fail_slots`, on what the environment holds.  The first range that is malformed is reported;
a value that is not Unicode counts as unset. -/
def failSlots : Except VarError (List Char) → Except FailSlotsError (List (ℕ × ℕ))
  | .error _ => .ok []
  | .ok spec => (ranges spec).mapM parseRange

/-! ### The demo -/

/-- `Duration::from_millis`. -/
def Duration.fromMillis (millis : UInt64) : Duration :=
  ⟨millis / 1000, ⟨(millis.toNat % 1000) * 1000000, by omega⟩⟩

/-- `Duration::from_secs`. -/
def Duration.fromSecs (secs : UInt64) : Duration := { Duration.ZERO with secs := secs }

/-- A slot closes every 100 ms, and an intent is in one of 20. -/
def demoGuarantee : GuaranteeConfig := ⟨.fromMillis 100, 20⟩

def demoBatch : BatchConfig := ⟨10, .fromSecs 5⟩

/-- `MockEnclave::new`. -/
def MockEnclave.new : MockEnclave := ⟨∅, MOCK_MEASUREMENT⟩

/-- `MockProver::failing_on`. -/
def MockProver.failingOn (ranges : List (ℕ × ℕ)) : MockProver := ⟨ranges⟩

/-- What `main` runs. -/
def demo [Keccak256] (failSlots : List (ℕ × ℕ)) :
    Stage Entry (PipelineState × Projections × ProjectorTask) (PipelineEvent ⊕ ProjectorEvent) :=
  mockNode demoGuarantee demoBatch .new (.failingOn failSlots)

end Zequencer
