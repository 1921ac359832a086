/-!
# Range of numbers

Whether a written number has a magnitude that a double can hold after rounding.
-/
namespace AssetAudit.Json.Number

/-- Mantissa digits without the point, and the power of ten they are multiplied by. -/
def scientific (literal : List Char) : Nat × Int :=
  let isExponentMark := fun c => c == 'e' || c == 'E'
  let mantissa := literal.takeWhile (!isExponentMark ·)
  let exponent := (literal.dropWhile (!isExponentMark ·)).tail
  let value (digits : List Char) : Nat :=
    (digits.filter Char.isDigit).foldl (fun n c => 10 * n + (c.toNat - 48)) 0
  let fraction := (mantissa.dropWhile (· != '.')).tail.length
  let power : Int := if exponent.head? == some '-' then -(value exponent : Int) else value exponent
  (value mantissa, power - fraction)

/-- The least magnitude that rounds to infinity. -/
def overflowBound : Nat := Nat.pow 2 1024 - Nat.pow 2 970

/-- Whether a written number is below the magnitude that rounds to infinity. -/
def isFinite (literal : String) : Bool :=
  let (mantissa, power) := scientific literal.toList
  let digits : Int := (Nat.toDigits 10 mantissa).length
  if mantissa == 0 || digits + power < 300 then true
  else if digits + power > 310 then false
  else if power < 0 then mantissa < overflowBound * Nat.pow 10 power.natAbs
  else mantissa * Nat.pow 10 power.natAbs < overflowBound

end AssetAudit.Json.Number
