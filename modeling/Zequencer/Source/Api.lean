/-
# The HTTP surface

What the handlers answer.  A handler of a read holds the read lock of the read model from
the lookup to the answer; the head of the log is read in between.
-/
import Zequencer.Source.Admission
import Zequencer.Source.Projection

namespace Zequencer

/-- The answer to an admitted intent. -/
structure SubmitResponse where
  intentId : IntentId
  /-- Arrival offset in the log. -/
  logPosition : ℕ
deriving DecidableEq

/-- Why a request was not served. -/
inductive ApiError where
  | log (e : LogError)
  | notFound
  | notReady
  | badIntentId
  | rejected (r : Rejection)
deriving DecidableEq

def ApiError.ofAdmitError : AdmitError → ApiError
  | .log e => .log e
  | .rejected r => .rejected r

/-- `submit`: the answer, the gate afterwards, and the entry that was written. -/
def submit [Keccak256] (log : Log) (a : Admission) (intent : Intent) (nowMs : UInt64)
    (fault : Option LogError) : Except ApiError SubmitResponse × Admission × Option Entry :=
  match admitAndAppend log a intent nowMs fault with
  | (.ok (intentId, logPosition), rest) => (.ok ⟨intentId, logPosition⟩, rest)
  | (.error e, rest) => (.error (.ofAdmitError e), rest)

/-- A miss is either an unknown intent or a projector that has not caught up. -/
def miss (p : Projections) (head : ℕ) : ApiError :=
  if p.cursor < head then .notReady else .notFound

/-- `status`, on the read model and the head read after it. -/
def status (p : Projections) (head : ℕ) (id : String) : Except ApiError StatusResponse :=
  match IntentId.parse id with
  | none => .error .badIntentId
  | some intentId =>
    match p.statusOf intentId with
    | some s => .ok s
    | none => .error (miss p head)

/-- `receipt`, on the read model, the clock reading and the head read after it. -/
def receipt (p : Projections) (head : ℕ) (nowMs : UInt64) (id : String) :
    Except ApiError Receipt :=
  match IntentId.parse id with
  | none => .error .badIntentId
  | some intentId =>
    match p.receiptOf intentId nowMs with
    | some r => .ok r
    | none => .error (miss p head)

end Zequencer
