/-!
# JSON values

* `Json`: a value with its fields in the order of the text. Numbers keep their literal, so that
  nothing is rounded.
* `Json.natural?`: the value of a literal of digits alone; a sign, a fraction or an exponent makes
  a number something else.
* `Json.record?`: the parts of a record with named fields, which may be written as an object or as
  an array.
-/

namespace CxlEndpoint

/-- A JSON value. A text with half a surrogate pair is no text, but still a value. -/
inductive Json where
  | null
  | bool (b : Bool)
  | number (literal : List Char)
  | text (content : Option String)
  | array (items : List Json)
  | object (fields : List (Option String × Json))

namespace Json

/-- The number written by decimal digits. -/
def ofDigits (digits : List Char) : Nat :=
  digits.foldl (fun n c => 10 * n + (c.toNat - '0'.toNat)) 0

/-- The value of a number that is written with digits alone. -/
def natural? : Json → Option Nat
  | number literal => if literal.all Char.isDigit then some (ofDigits literal) else none
  | _ => none

/-- The value of a natural number that is at most `greatest`. -/
def naturalUpTo? (greatest : Nat) (j : Json) : Option Nat := j.natural?.filter (· ≤ greatest)

/-- The items of an array. -/
def array? : Json → Option (List Json)
  | array items => some items
  | _ => none

/-- The value of the field `name`, `some none` if there is none. Two of them are an error. -/
def field? (fields : List (String × Json)) (name : String) : Option (Option Json) :=
  match fields.filter (·.1 == name) with
  | [] => some none
  | [(_, value)] => some (some value)
  | _ => none

/-- The values of the named fields of a record, in the order of the names. An object may leave
fields out and have others, and each of its keys must be a text. An array gives the first few
fields in order. -/
def record? (names : List String) : Json → Option (List (Option Json))
  | object fields => do
    let fields ← fields.mapM fun (key, value) => key.map (·, value)
    names.mapM (field? fields)
  | array items =>
    if items.length ≤ names.length then
      some (items.map some ++ List.replicate (names.length - items.length) none)
    else none
  | _ => none

end Json

end CxlEndpoint
