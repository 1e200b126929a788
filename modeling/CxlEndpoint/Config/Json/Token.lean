/-!
# JSON tokens

The text is read character by character. The reader's mode says inside which token it stands, so
that one step on one character is all that has to be defined.

* `Json.Token`: punctuation, words, numbers and texts.
* `Json.Token.scan?`: the tokens of a text, `none` if it is not made of tokens.
* `Json.Token.IsNumber`: the grammar of numbers.
-/

namespace CxlEndpoint.Json

/-- A token of JSON text. -/
inductive Token where
  | openBrace
  | closeBrace
  | openBracket
  | closeBracket
  | colon
  | comma
  | null
  | bool (b : Bool)
  | number (literal : List Char)
  | text (content : Option String)
  deriving DecidableEq, Repr

namespace Token

/-- Some digits, and what follows them. -/
def digits? (s : List Char) : Option (List Char) :=
  if (s.takeWhile Char.isDigit).isEmpty then none else some (s.dropWhile Char.isDigit)

/-- Digits of which the first is zero only if it is alone, and what follows them. -/
def integer? : List Char → Option (List Char)
  | '0' :: rest => some rest
  | s => digits? s

/-- What follows a fraction, which may be absent. -/
def fraction? : List Char → Option (List Char)
  | '.' :: rest => digits? rest
  | s => some s

/-- What follows a sign, which may be absent. -/
def unsigned (signs : List Char) : List Char → List Char
  | c :: rest => if c ∈ signs then rest else c :: rest
  | [] => []

/-- What follows an exponent, which may be absent. -/
def exponent? : List Char → Option (List Char)
  | 'e' :: rest | 'E' :: rest => digits? (unsigned ['+', '-'] rest)
  | s => some s

/-- The literal is a number: a sign, an integer, a fraction and an exponent. -/
def isNumber (literal : List Char) : Bool :=
  (integer? (unsigned ['-'] literal) >>= fraction? >>= exponent?) == some []

/-- The characters whose UTF-16 code units are given. A surrogate must be half of a pair. -/
def ofUnits? : List Nat → Option (List Char)
  | [] => some []
  | high :: rest =>
    if 0xd800 ≤ high ∧ high < 0xdc00 then
      match rest with
      | low :: rest =>
        if 0xdc00 ≤ low ∧ low < 0xe000 then
          (ofUnits? rest).map
            (Char.ofNat (0x10000 + (high - 0xd800) * 0x400 + (low - 0xdc00)) :: ·)
        else none
      | [] => none
    else if 0xdc00 ≤ high ∧ high < 0xe000 then none
    else (ofUnits? rest).map (Char.ofNat high :: ·)

/-- Where the reader stands. What has been read of a token is kept in reverse. -/
inductive Mode where
  | between
  /-- In a number or a word. -/
  | run (read : List Char)
  /-- In a text, of which the code units are kept. -/
  | text (read : List Nat)
  /-- Behind a backslash. -/
  | escape (read : List Nat)
  /-- In a numeric escape that still lacks `left` digits. -/
  | unit (read : List Nat) (left value : Nat)

/-- The tokens read so far, in reverse, and the mode. -/
structure Reader where
  tokens : List Token := []
  mode : Mode := .between

/-- The characters of numbers and words. -/
def inRun (c : Char) : Bool := c.isAlphanum || c == '+' || c == '-' || c == '.'

/-- The four blanks of JSON. -/
def isBlank (c : Char) : Bool := c == ' ' || c == '\t' || c == '\n' || c == '\r'

/-- The token of a run of characters. -/
def ofRun? (run : List Char) : Option Token :=
  if run = ['t', 'r', 'u', 'e'] then some (.bool true)
  else if run = ['f', 'a', 'l', 's', 'e'] then some (.bool false)
  else if run = ['n', 'u', 'l', 'l'] then some .null
  else if isNumber run then some (.number run)
  else none

/-- The token that a single character is. -/
def ofPunctuation? : Char → Option Token
  | '\x7b' => some .openBrace
  | '\x7d' => some .closeBrace
  | '[' => some .openBracket
  | ']' => some .closeBracket
  | ':' => some .colon
  | ',' => some .comma
  | _ => none

/-- The character that an escape of one letter stands for. -/
def ofEscape? : Char → Option Nat
  | '"' => some 0x22
  | '\\' => some 0x5c
  | '/' => some 0x2f
  | 'b' => some 0x08
  | 'f' => some 0x0c
  | 'n' => some 0x0a
  | 'r' => some 0x0d
  | 't' => some 0x09
  | _ => none

/-- The value of a hexadecimal digit. -/
def hexDigit? (c : Char) : Option Nat :=
  if c.isDigit then some (c.toNat - '0'.toNat)
  else if 'a' ≤ c ∧ c ≤ 'f' then some (c.toNat - 'a'.toNat + 10)
  else if 'A' ≤ c ∧ c ≤ 'F' then some (c.toNat - 'A'.toNat + 10)
  else none

namespace Reader

/-- A character between tokens. -/
def begin? (tokens : List Token) (c : Char) : Option Reader :=
  if isBlank c then some ⟨tokens, .between⟩
  else if c = '"' then some ⟨tokens, .text []⟩
  else if inRun c then some ⟨tokens, .run [c]⟩
  else (ofPunctuation? c).map fun t => ⟨t :: tokens, .between⟩

/-- One character. -/
def step? (r : Reader) (c : Char) : Option Reader :=
  match r.mode with
  | .between => begin? r.tokens c
  | .run read =>
    if inRun c then some { r with mode := .run (c :: read) }
    else (ofRun? read.reverse).bind fun t => begin? (t :: r.tokens) c
  | .text read =>
    if c = '"' then
      some ⟨.text ((ofUnits? read.reverse).map String.ofList) :: r.tokens, .between⟩
    else if c = '\\' then some { r with mode := .escape read }
    else if c.toNat < 0x20 then none
    else some { r with mode := .text (c.toNat :: read) }
  | .escape read =>
    if c = 'u' then some { r with mode := .unit read 4 0 }
    else (ofEscape? c).map fun u => { r with mode := .text (u :: read) }
  | .unit read left value =>
    (hexDigit? c).map fun d =>
      let value := 16 * value + d
      { r with mode := if left ≤ 1 then .text (value :: read) else .unit read (left - 1) value }

/-- All tokens in order, at the end of the text. -/
def finish? (r : Reader) : Option (List Token) :=
  match r.mode with
  | .between => some r.tokens.reverse
  | .run read => (ofRun? read.reverse).map fun t => (t :: r.tokens).reverse
  | _ => none

end Reader

/-- The tokens of a text. -/
def scan? (text : List Char) : Option (List Token) :=
  (text.foldlM Reader.step? {}).bind Reader.finish?

end Token

end CxlEndpoint.Json
