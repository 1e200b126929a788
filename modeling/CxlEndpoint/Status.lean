import CxlEndpoint.Text.Hex

/-!
# Return codes

* `Status`: the outcome that a response names, with its wire code (`Status.code`) and its text
  (`Status.text`).
* `Status.ofCode?`: the status of a code; `ofCode?_code` says that it undoes `code`.
* `Status.accepted`: the command was carried out or runs on in the background.
-/

namespace CxlEndpoint

/-- The outcome of a request, as written to the return-code field. -/
inductive Status where
  | success
  | backgroundStarted
  | invalidInput
  | unsupported
  | internalError
  | busy
  | mediaDisabled
  | invalidPhysicalAddress
  | injectPoisonLimit
  | invalidPayloadLength
  | invalidExtentList
  deriving DecidableEq, Repr

namespace Status

/-- The value of the return-code field. -/
def code : Status → Nat
  | success => 0x00
  | backgroundStarted => 0x01
  | invalidInput => 0x02
  | unsupported => 0x03
  | internalError => 0x04
  | busy => 0x06
  | mediaDisabled => 0x07
  | invalidPhysicalAddress => 0x0f
  | injectPoisonLimit => 0x10
  | invalidPayloadLength => 0x16
  | invalidExtentList => 0x1e

/-- Every status, in the order of the codes. -/
def all : List Status :=
  [success, backgroundStarted, invalidInput, unsupported, internalError, busy, mediaDisabled,
    invalidPhysicalAddress, injectPoisonLimit, invalidPayloadLength, invalidExtentList]

/-- The status with return code `n`, if there is one. -/
def ofCode? (n : Nat) : Option Status := all.find? (·.code == n)

theorem ofCode?_code (s : Status) : ofCode? s.code = some s := by cases s <;> rfl

/-- The command was accepted. -/
def accepted : Status → Bool
  | success | backgroundStarted => true
  | _ => false

/-- What the status means, in words. -/
def meaning : Status → String
  | success => "success"
  | backgroundStarted => "background command started"
  | invalidInput => "invalid input"
  | unsupported => "unsupported"
  | internalError => "internal error"
  | busy => "busy"
  | mediaDisabled => "media disabled"
  | invalidPhysicalAddress => "invalid physical address"
  | injectPoisonLimit => "inject poison limit reached"
  | invalidPayloadLength => "invalid payload length"
  | invalidExtentList => "invalid extent list"

/-- The meaning followed by the code in hexadecimal. -/
def text (s : Status) : String := s.meaning ++ " (0x" ++ Hex.padded 2 s.code ++ ")"

end Status

end CxlEndpoint
