import Rulebook.Number.Basic

/-! The fewest decimal digits that read back as a given magnitude. Every magnitude has an exact
decimal of 1074 places; the digits are cut to 1, 2, … 17 and both neighbours on that grid are
read back, the nearer first and the even one on a tie. -/

namespace Rulebook.Number

structure Decimal where
  digits : Nat
  exponent : Int
  deriving DecidableEq, Repr

/-- All digits of `units` after 1074 places. -/
def exactDigits (units : Nat) : Nat := units * Nat.pow 5 1074

def digitCount (n : Nat) : Nat := (Nat.toDigits 10 n).length

/-- Whether `digits` followed by `zeros` places of the exact decimal reads back as `units`. -/
def readsBack (units digits zeros : Nat) : Bool :=
  nearest (digits * Nat.pow 10 zeros) (Nat.pow 5 1074) == units

/-- Of `low` and the number behind it, the one that reads back. If both do, it is the nearer one,
where `rest` steps of `step` lie above `low`, and the even one on a tie. -/
def pick (low rest step : Nat) : (lowReads highReads : Bool) → Option Nat
  | false, false => none
  | true, false => some low
  | false, true => some (low + 1)
  | true, true =>
    if 2 * rest < step then some low
    else if step < 2 * rest then some (low + 1)
    else some (low + low % 2)

/-- The neighbour on the grid of `zeros` dropped places that reads back, if one does. -/
def onGrid (units zeros : Nat) : Option Nat :=
  let exact := exactDigits units
  let step := Nat.pow 10 zeros
  let low := exact / step
  pick low (exact % step) step (readsBack units low zeros && low != 0)
    (readsBack units (low + 1) zeros)

/-- The first grid that has a neighbour reading back, from `zeros` dropped places down; the exact
decimal when none has. -/
def searchGrids (units grids zeros : Nat) : Nat × Nat :=
  let found := (List.range grids).findSome? fun i =>
    (onGrid units (zeros - i)).map fun digits => (digits, zeros - i)
  found.getD (exactDigits units, 0)

def dropZeros : (bound digits zeros : Nat) → Nat × Nat
  | 0, digits, zeros => (digits, zeros)
  | bound + 1, digits, zeros =>
    if digits % 10 = 0 then dropZeros bound (digits / 10) (zeros + 1) else (digits, zeros)

def shortest (units : Nat) : Decimal :=
  let count := digitCount (exactDigits units)
  let found := searchGrids units 17 (count - 1)
  let short := dropZeros count found.1 found.2
  ⟨short.1, (short.2 : Int) - 1074⟩

end Rulebook.Number
