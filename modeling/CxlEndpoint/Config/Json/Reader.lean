import CxlEndpoint.Config.Json
import CxlEndpoint.Config.Json.Token

/-!
# Reading JSON

Tokens are read one after another against the arrays and objects that are still open.

* `Json.ofTokens?`: the value that a list of tokens writes, if it writes one value.
* `Json.ofText?`: the same for a text.
-/

namespace CxlEndpoint.Json

/-- A field of an object. -/
abbrev Field := Option String × Json

/-- An array or an object that is still open. What it holds is kept in reverse. -/
inductive Frame where
  | array (items : List Json)
  /-- The value under `key` is being read. -/
  | object (fields : List Field) (key : Option String)

/-- What comes next. -/
inductive Phase where
  | value
  /-- The first item of an array or its end. -/
  | firstItem
  | key (fields : List Field)
  /-- The first key of an object or its end. -/
  | firstKey
  | colon (fields : List Field) (key : Option String)
  /-- What follows a value. -/
  | after (value : Json)

/-- The open arrays and objects, the innermost first, and what comes next. -/
structure Builder where
  frames : List Frame := []
  phase : Phase := .value

namespace Builder

/-- The first token of a value. -/
def begin? (frames : List Frame) : Token → Option Builder
  | .openBracket => some ⟨.array [] :: frames, .firstItem⟩
  | .openBrace => some ⟨frames, .firstKey⟩
  | .null => some ⟨frames, .after .null⟩
  | .bool b => some ⟨frames, .after (.bool b)⟩
  | .number literal => some ⟨frames, .after (.number literal)⟩
  | .text content => some ⟨frames, .after (.text content)⟩
  | _ => none

/-- The token behind `value`. -/
def continue? (value : Json) : List Frame → Token → Option Builder
  | .array items :: frames, .comma => some ⟨.array (value :: items) :: frames, .value⟩
  | .array items :: frames, .closeBracket =>
    some ⟨frames, .after (.array (value :: items).reverse)⟩
  | .object fields key :: frames, .comma => some ⟨frames, .key ((key, value) :: fields)⟩
  | .object fields key :: frames, .closeBrace =>
    some ⟨frames, .after (.object ((key, value) :: fields).reverse)⟩
  | _, _ => none

/-- One token. -/
def step? (b : Builder) (t : Token) : Option Builder :=
  match b.phase, t with
  | .value, t => begin? b.frames t
  | .firstItem, .closeBracket => some ⟨b.frames.tail, .after (.array [])⟩
  | .firstItem, t => begin? b.frames t
  | .firstKey, .closeBrace => some ⟨b.frames, .after (.object [])⟩
  | .firstKey, .text key => some ⟨b.frames, .colon [] key⟩
  | .key fields, .text key => some ⟨b.frames, .colon fields key⟩
  | .colon fields key, .colon => some ⟨.object fields key :: b.frames, .value⟩
  | .after value, t => continue? value b.frames t
  | _, _ => none

/-- The value, if nothing is left open. -/
def finish? (b : Builder) : Option Json :=
  match b.frames, b.phase with
  | [], .after value => some value
  | _, _ => none

end Builder

/-- The value that the tokens write. -/
def ofTokens? (tokens : List Token) : Option Json :=
  (tokens.foldlM Builder.step? {}).bind Builder.finish?

/-- The value that a text writes. -/
def ofText? (text : String) : Option Json := (Token.scan? text.toList).bind ofTokens?

end CxlEndpoint.Json
