/-! Numbers are double-precision: a finite one is a whole multiple of 2^-1074, so its magnitude is
kept as that multiple and comparison is comparison of integers. -/

namespace Rulebook

inductive Number where
  | finite (negative : Bool) (units : Nat)
  | infinite (negative : Bool)
  | nan
  deriving DecidableEq, Repr, Inhabited

namespace Number

def one : Nat := Nat.pow 2 1074

/-- The least multiple of the unit that is too large to be finite. -/
def limit : Nat := Nat.pow 2 (1024 + 1074)

def signed (negative : Bool) (units : Nat) : Int := if negative then -(units : Int) else units

/-- The order of the extended real line. Nothing is ordered against `nan`. -/
def compare? : Number → Number → Option Ordering
  | .nan, _ | _, .nan => none
  | .finite a m, .finite b n => some (compare (signed a m) (signed b n))
  | .infinite a, .infinite b => some (compare b.toNat a.toNat)
  | .infinite a, .finite _ _ => some (if a then .lt else .gt)
  | .finite _ _, .infinite b => some (if b then .gt else .lt)

def equal (a b : Number) : Bool := a.compare? b == some .eq

/-- The quotient rounded to the nearest whole number, a half to the even one. -/
def roundHalfEven (num den : Nat) : Nat :=
  let q := num / den
  let r := num % den
  if 2 * r < den then q else if den < 2 * r then q + 1 else q + q % 2

/-- How many binary places beyond 53 a magnitude has. -/
def excess (n : Nat) : Nat := n.log2 - 52

/-- The magnitude of 53 significant bits nearest to a quotient of units. -/
def nearest (num den : Nat) : Nat :=
  let k := excess (num / den)
  roundHalfEven num (den * Nat.pow 2 k) * Nat.pow 2 k

/-- A magnitude as a number; from `limit` on it is infinite. -/
def ofUnits (negative : Bool) (units : Nat) : Number :=
  if units < limit then .finite negative units else .infinite negative

/-- The number nearest to `digits · 10^exponent`. Exponents that leave no choice are settled
without computing the power. -/
def ofDecimal (negative : Bool) (digits : Nat) (exponent : Int) : Number :=
  if digits = 0 then .finite negative 0
  else if 310 < exponent then .infinite negative
  else if exponent + (digits.log2 : Int) < -400 - (digits.log2 : Int) then .finite negative 0
  else if 0 ≤ exponent then ofUnits negative (nearest (digits * Nat.pow 10 exponent.toNat * one) 1)
  else ofUnits negative (nearest (digits * one) (Nat.pow 10 (-exponent).toNat))

def ofNat (n : Nat) : Number := ofDecimal false n 0

end Number

end Rulebook
