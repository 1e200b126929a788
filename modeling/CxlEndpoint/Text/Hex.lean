/-!
# Hexadecimal text

* `Hex.text n`: the lower-case hexadecimal digits of `n`, without padding.
* `Hex.padded width n`: the same with leading zeros up to `width` digits.
-/

namespace CxlEndpoint.Hex

/-- The lower-case hexadecimal digits of `n`, at least one. -/
def text (n : Nat) : String := String.ofList (Nat.toDigits 16 n)

/-- The hexadecimal digits of `n` after zeros that fill `width` places. -/
def padded (width n : Nat) : String := String.ofList ((Nat.toDigits 16 n).leftpad width '0')

end CxlEndpoint.Hex
