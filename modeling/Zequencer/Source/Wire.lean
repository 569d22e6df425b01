/-
# What goes over the wire

The JSON that serde makes of an answer, and the response it goes out with.  An enum is tagged
inside, its fields beside the tag, and `flatten` puts the keys of a field among those of the
object it is in.  The keys are written in the order of the fields: a key that two fields share is
written twice.
-/
import Zequencer.Source.Api

namespace Zequencer

/-- The JSON values that the answers are made of. -/
inductive Json where
  | null
  | number (n : ℕ)
  | string (s : String)
  | object (fields : List (String × Json))

namespace Json

def ofOption {α : Type} (toJson : α → Json) : Option α → Json
  | none => .null
  | some a => toJson a

/-- `serde_with`'s `Hex`. -/
def hex (bytes : List UInt8) : Json := .string (hexEncode bytes)

end Json

/-! ### Answers -/

def SubmitResponse.toJson (r : SubmitResponse) : Json :=
  .object [("intent_id", .hex r.intentId.bytes.toList), ("log_position", .number r.logPosition)]

def Lifecycle.fields : Lifecycle → List (String × Json)
  | .received => [("status", .string "received")]
  | .sequenced => [("status", .string "sequenced")]
  | .preconfirmed => [("status", .string "preconfirmed")]
  | .expired => [("status", .string "expired")]
  | .finalProven => [("status", .string "final_proven")]
  | .failed reason => [("status", .string "failed"), ("reason", .string reason)]

def StatusResponse.toJson (s : StatusResponse) : Json :=
  .object ([("intent_id", .hex s.intentId.bytes.toList)] ++ s.lifecycle.fields ++
    [("slot", .ofOption .number s.slot)])

def SequencePosition.toJson (s : SequencePosition) : Json :=
  .object [("slot", .number s.slot), ("index", .number s.index.toNat),
    ("slot_commitment", .hex s.slotCommitment.bytes.toList)]

def GuaranteeState.fields : GuaranteeState → List (String × Json)
  | .pending => [("state", .string "pending")]
  | .overdue => [("state", .string "overdue")]
  | .met slot committedAtMs =>
    [("state", .string "met"), ("slot", .number slot),
      ("committed_at_ms", .number committedAtMs.toNat)]
  | .missed deadlineMs expiredAtMs =>
    [("state", .string "missed"), ("deadline_ms", .number deadlineMs.toNat),
      ("expired_at_ms", .number expiredAtMs.toNat)]

def InclusionGuarantee.toJson (g : InclusionGuarantee) : Json :=
  .object ([("received_at_ms", .number g.receivedAtMs.toNat),
    ("max_slots", .number g.maxSlots.toNat), ("deadline_ms", .number g.deadlineMs.toNat),
    ("intent_deadline_ms", .number g.intentDeadlineMs.toNat)] ++ g.state.fields)

def PreconfRef.toJson (p : PreconfRef) : Json :=
  .object [("slot", .number p.slot), ("commitment", .hex p.commitment.bytes.toList),
    ("quote", .string p.quote), ("signature", .hex p.signature.bytes.toList)]

def ProofRef.toJson (p : ProofRef) : Json :=
  .object [("from_slot", .number p.fromSlot), ("to_slot", .number p.toSlot),
    ("backend", .string p.backend), ("vkey_hash", .string p.vkeyHash),
    ("proof", .string p.proof)]

def Receipt.toJson (r : Receipt) : Json :=
  .object ([("intent_id", .hex r.intentId.bytes.toList)] ++ r.lifecycle.fields ++
    [("log_position", .number r.logPosition),
      ("sequence", .ofOption SequencePosition.toJson r.sequence),
      ("guarantee", r.guarantee.toJson),
      ("preconf", .ofOption PreconfRef.toJson r.preconf),
      ("proof", .ofOption ProofRef.toJson r.proof)])

/-! ### Errors -/

def Rejection.toJson : Rejection → Json
  | .zeroSize => .object [("reason", .string "zero_size")]
  | .emptyMarket => .object [("reason", .string "empty_market")]
  | .slippageOutOfRange got limit =>
    .object [("reason", .string "slippage_out_of_range"), ("got", .number got.toNat),
      ("limit", .number limit.toNat)]
  | .expired deadlineMs nowMs =>
    .object [("reason", .string "expired"), ("deadline_ms", .number deadlineMs.toNat),
      ("now_ms", .number nowMs.toNat)]
  | .unmeetableWindow deadlineMs guaranteeDeadlineMs =>
    .object [("reason", .string "unmeetable_window"), ("deadline_ms", .number deadlineMs.toNat),
      ("guarantee_deadline_ms", .number guaranteeDeadlineMs.toNat)]
  | .replay intentId =>
    .object [("reason", .string "replay"), ("intent_id", .hex intentId.bytes.toList)]
  | .staleNonce got last =>
    .object [("reason", .string "stale_nonce"), ("got", .number got.toNat),
      ("last", .number last.toNat)]

/-- A conflict with admitted history, or a malformed request. -/
def Rejection.status : Rejection → ℕ
  | .replay _ | .staleNonce .. => 409
  | _ => 400

def LogError.text : LogError → String
  | .io text => "io: " ++ text
  | .encode text => "encode: " ++ text
  | .decode pos => "entry at Position(" ++ toString pos ++ ") failed to decode"
  | .emptyBatch => "append_batch called with no entries"

/-- The body of a response. -/
inductive Body where
  | json (value : Json)
  | text (text : String)

/-- A response over HTTP. -/
structure Response where
  status : ℕ
  body : Body

/-- Structured body for a rejection, prose for the rest. -/
def ApiError.intoResponse : ApiError → Response
  | .rejected r => ⟨r.status, .json r.toJson⟩
  | .notFound => ⟨404, .text "unknown intent"⟩
  | .notReady => ⟨503, .text "projection lagging; retry"⟩
  | .badIntentId => ⟨400, .text "intent id must be 64 hex chars"⟩
  | .log e => ⟨500, .text ("log: " ++ e.text)⟩

/-- What a handler's result goes out as. -/
def respond {α : Type} (toJson : α → Json) : Except ApiError α → Response
  | .ok a => ⟨200, .json (toJson a)⟩
  | .error e => e.intoResponse

end Zequencer
