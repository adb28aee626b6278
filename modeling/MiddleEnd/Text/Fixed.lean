import MiddleEnd.Literal

/-! Decimal text of a double with a fixed number of places. -/

namespace MiddleEnd

def roundDiv (numerator denominator : Nat) : Nat :=
  let quotient := numerator / denominator
  let twice := 2 * (numerator % denominator)
  if twice < denominator then quotient
  else if denominator < twice then quotient + 1
  else quotient + quotient % 2

namespace Double

def fractions : Nat := Nat.pow 2 52

def exponents : Nat := Nat.pow 2 11

def isNegative (value : Double) : Bool := fractions * exponents ≤ value.bits.toNat

def exponent (value : Double) : Nat := value.bits.toNat / fractions % exponents

def fraction (value : Double) : Nat := value.bits.toNat % fractions

def isFinite (value : Double) : Bool := value.exponent + 1 < exponents

def mantissa (value : Double) : Nat :=
  if value.exponent = 0 then value.fraction else value.fraction + fractions

def shift (value : Double) : Nat := max value.exponent 1

def scaled (value : Double) (places : Nat) : Nat :=
  roundDiv (value.mantissa * Nat.pow 10 places * Nat.pow 2 value.shift) (Nat.pow 2 1075)

def padded (width number : Nat) : String :=
  let digits := toString number
  String.ofList (List.replicate (width - digits.length) '0') ++ digits

def fixed (value : Double) (places : Nat) : String :=
  let sign := if value.isNegative then "-" else ""
  if value.isFinite then
    let units := value.scaled places
    let unit := Nat.pow 10 places
    sign ++ toString (units / unit) ++ "." ++ padded places (units % unit)
  else if value.fraction = 0 then sign ++ "inf"
  else "NaN"

end Double

end MiddleEnd
