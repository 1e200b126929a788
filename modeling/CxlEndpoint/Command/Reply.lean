import CxlEndpoint.Payload

/-!
# Replies and responses

* `Reply`: what carrying out a command yields, before the mailbox has checked it.
* `Response`: what the requester gets. A request that is turned down has no payload.
-/

namespace CxlEndpoint

/-- How a command that was accepted ends. -/
inductive Completion where
  | done
  /-- It runs on for `runtime` milliseconds. -/
  | background (runtime : Nat)
  deriving DecidableEq, Repr

/-- What carrying out a command yields. -/
structure Reply where
  payload : Payload := []
  completion : Completion := .done
  deriving DecidableEq, Repr

/-- The answer to a request. -/
structure Response where
  status : Status
  payload : Payload
  deriving DecidableEq, Repr

/-- The answer to a request that is turned down. -/
def Response.refusal (s : Status) : Response := ⟨s, []⟩

end CxlEndpoint
