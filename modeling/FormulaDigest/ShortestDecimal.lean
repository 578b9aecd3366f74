/-!
# Shortest decimals

A positive double stands for every real that rounds to it. Among the decimals of that interval the
shortest is chosen, and of the shortest ones the nearest; a tie goes up. All arithmetic is exact,
over one common denominator.
-/
namespace FormulaDigest.ShortestDecimal

/-- The number `digits * 10 ^ exponent`. -/
structure Decimal where
  digits : Nat
  exponent : Int
  deriving DecidableEq, Repr

/-- The reals that round to one double: numerators over a common denominator. -/
structure Rounding where
  value : Nat
  lower : Nat
  upper : Nat
  denominator : Nat
  closed : Bool
  deriving DecidableEq, Repr

/-- The interval of `m * 2 ^ q`. Its ends belong to it when `m` is even, and below a power of two
the lower end is half as far away. -/
def Rounding.of (m : Nat) (q : Int) (powerOfTwo : Bool) : Rounding :=
  let scale := Nat.pow 2 (q - 2).toNat
  { value := 4 * m * scale
    lower := (4 * m - if powerOfTwo then 1 else 2) * scale
    upper := (4 * m + 2) * scale
    denominator := Nat.pow 2 (2 - q).toNat
    closed := m % 2 == 0 }

/-- The multiple of `10 ^ e` in the interval that lies nearest to the value, in units of
`10 ^ e`. -/
def Rounding.onGrid? (c : Rounding) (e : Int) : Option Nat :=
  let scale := Nat.pow 10 (-e).toNat
  let unit := c.denominator * Nat.pow 10 e.toNat
  let value := c.value * scale
  let below := value / unit
  let inside (x : Nat) : Bool :=
    if c.closed then c.lower * scale ≤ x && x ≤ c.upper * scale
    else c.lower * scale < x && x < c.upper * scale
  match inside (below * unit), inside ((below + 1) * unit) with
  | true, true =>
    some (if value - below * unit < (below + 1) * unit - value then below else below + 1)
  | true, false => some below
  | false, true => some (below + 1)
  | false, false => none

/-- The coarsest power of ten that has a multiple in the interval decides the number of digits.
The finest grid ever needed is that of the least positive double. -/
def Rounding.shortest (c : Rounding) : Decimal :=
  let start := (Nat.toDigits 10 (c.value / c.denominator)).length
  let found := (List.range (start + 325)).findSome? fun k : Nat =>
    let e := (start : Int) - (k : Int)
    (c.onGrid? e).map fun digits => Decimal.mk digits e
  found.getD ⟨0, 0⟩

/-- Every digit at its place, without an exponent. -/
def Decimal.positional (d : Decimal) : List Char :=
  let digits := Nat.toDigits 10 d.digits
  if 0 ≤ d.exponent then digits ++ List.replicate d.exponent.toNat '0'
  else
    let places := (-d.exponent).toNat
    let padded := List.replicate (places + 1 - digits.length) '0' ++ digits
    padded.take (padded.length - places) ++ '.' :: padded.drop (padded.length - places)

/-- The weight of the exponent field in the bits of a double, which is that of the implied leading
bit of a mantissa. -/
def leadingBit : Nat := 0x10000000000000

/-- The weight of the sign bit. -/
def signBit : Nat := 0x8000000000000000

/-- The text of a double: its shortest decimal in positional notation, a sign where the sign bit
is set, and names for what is not a number. -/
def text (x : Float) : String :=
  let bits := x.toBits.toNat
  let sign := if bits / signBit = 1 then ['-'] else []
  let field := bits / leadingBit % 2048
  let fraction := bits % leadingBit
  if field = 2047 then
    if fraction = 0 then String.ofList (sign ++ "inf".toList) else "NaN"
  else if field = 0 ∧ fraction = 0 then String.ofList (sign ++ ['0'])
  else
    let mantissa := if field = 0 then fraction else leadingBit + fraction
    let exponent := ((max field 1 : Nat) : Int) - 1075
    let rounding := Rounding.of mantissa exponent (fraction = 0 ∧ 1 < field)
    String.ofList (sign ++ rounding.shortest.positional)

end FormulaDigest.ShortestDecimal
