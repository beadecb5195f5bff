import Lanewise.Number.Binary

/-!
# Decimal text of binary numbers

`BinaryFormat.shortest` finds the fewest decimal digits that read back as the
same number, `BinaryFormat.print` lays them out, `BinaryFormat.ofDecimal` reads
a decimal number to the nearest bits.
-/

namespace Lanewise.BinaryFormat

/-! ## Printing -/

/-- Drop places from the right of `exact` while a decimal on the coarser grid
still lies between `low` and `high`, the bounds included when `closed`. The
search goes from `places` dropped places down to none, so the first hit has the
fewest digits. Of the two grid neighbours the nearer one is taken, the upper one
in a tie. The result is the kept digits and the number of dropped places. -/
def dropPlaces (exact low high : Nat) (closed : Bool) : Nat → Nat × Nat
  | 0 => (exact, 0)
  | places + 1 =>
    let grid := Nat.pow 10 (places + 1)
    let lower := exact / grid
    let fits := fun n =>
      if closed then low ≤ n * grid ∧ n * grid ≤ high
      else low < n * grid ∧ n * grid < high
    let preferUpper := grid ≤ 2 * (exact % grid)
    if fits lower ∧ (¬ fits (lower + 1) ∨ ¬ preferUpper) then (lower, places + 1)
    else if fits (lower + 1) then (lower + 1, places + 1)
    else dropPlaces exact low high closed places

/-- Remove trailing zeros, which needs at most `fuel` steps, and count them into
the exponent. -/
def trimZeros (exponent : Int) (n : Nat) : Nat → Nat × Int
  | 0 => (n, exponent)
  | fuel + 1 => if n % 10 = 0 then trimZeros (exponent + 1) (n / 10) fuel else (n, exponent)

/-- Number of decimal digits. -/
def digitCount (n : Nat) : Nat :=
  (Nat.toDigits 10 n).length

/-- The decimal `n * 10 ^ e` with the fewest digits among those that round to
`m * 2 ^ q`, for a positive significand.

In units of a quarter of the last place the number is `4 * m` and its rounding
interval reaches two units up and two down, or one down where the numbers below
lie closer together. Multiplied by a power of five the units become a power of
ten, so the search happens on natural numbers. The interval is closed exactly
when `m` is even. -/
def shortest (fmt : BinaryFormat) (m : Nat) (q : Int) : Nat × Int :=
  let unit := q - 2
  let factor := if 0 ≤ unit then Nat.pow 2 unit.toNat else Nat.pow 5 (-unit).toNat
  let below := if m = fmt.fieldUnit ∧ fmt.minExponent < q then 1 else 2
  let exact := 4 * m * factor
  let count := digitCount exact
  let (n, places) :=
    dropPlaces exact ((4 * m - below) * factor) ((4 * m + 2) * factor) (m % 2 == 0) (count - 1)
  trimZeros (min unit 0 + places) n count

/-- Where positional notation ends. -/
structure PrintStyle where
  /-- Numbers of at least this power of ten have an exponent. -/
  upper : Int
  /-- Numbers below this power of ten have an exponent. -/
  lower : Int

/-- Numbers from 0.0001 up to but not including 10 ^ 16 are written without an
exponent. -/
def literalStyle : PrintStyle := ⟨16, -4⟩

/-- Lay out the decimal `n * 10 ^ e` in the given style, with at least one digit
on each side of a point, or with an exponent. -/
def layoutDecimal (style : PrintStyle) (n : Nat) (e : Int) : String :=
  let digits := Nat.toDigits 10 n
  let point : Int := digits.length + e
  let zeros := fun (k : Int) => List.replicate k.toNat '0'
  if style.upper < point ∨ point ≤ style.lower then
    let fraction := digits.drop 1
    String.ofList (digits.take 1)
      ++ (if fraction.isEmpty then "" else "." ++ String.ofList fraction)
      ++ "e" ++ toString (point - 1)
  else if point ≤ 0 then "0." ++ String.ofList (zeros (-point) ++ digits)
  else if digits.length ≤ point then String.ofList (digits ++ zeros e) ++ ".0"
  else
    String.ofList (digits.take point.toNat) ++ "." ++ String.ofList (digits.drop point.toNat)

/-- The text of a number: the shortest digits that read back. -/
def print (fmt : BinaryFormat) (bits : Nat) : String :=
  let sign := fun (negative : Bool) => if negative then "-" else ""
  match fmt.decode bits with
  | .nan _ => "NaN"
  | .infinite negative => sign negative ++ "inf"
  | .finite negative m q =>
    if m = 0 then sign negative ++ "0.0"
    else
      let (n, e) := fmt.shortest m q
      sign negative ++ layoutDecimal literalStyle n e

/-! ## Fixed precision -/

/-- Whether `num / den` is at least `10 ^ e`. -/
def atLeastPower (num den : Nat) (e : Int) : Bool :=
  if 0 ≤ e then den * Nat.pow 10 e.toNat ≤ num else den ≤ num * Nat.pow 10 (-e).toNat

/-- The decimal digits of `num / den`, rounded to `count` of them, and the power
of ten that the first one counts. A half goes to the even neighbour. -/
def leadingDigits (num den count : Nat) : Nat × Int :=
  let guess : Int := digitCount num - digitCount den
  let e := if atLeastPower num den guess then guess else guess - 1
  let shift : Int := count - 1 - e
  let n :=
    if 0 ≤ shift then roundDiv (num * Nat.pow 10 shift.toNat) den
    else roundDiv num (den * Nat.pow 10 (-shift).toNat)
  if n = Nat.pow 10 count then (n / 10, e + 1) else (n, e)

/-- Scientific notation with `count` significant digits, of which one stands in
front of the point. Without a second digit there is no point either. -/
def printRounded (fmt : BinaryFormat) (count bits : Nat) : String :=
  let sign := fun (negative : Bool) => if negative then "-" else ""
  match fmt.decode bits with
  | .nan _ => "nan"
  | .infinite negative => sign negative ++ "inf"
  | .finite negative m q =>
    let (n, e) :=
      if m = 0 then (0, 0)
      else if 0 ≤ q then leadingDigits (m * Nat.pow 2 q.toNat) 1 count
      else leadingDigits m (Nat.pow 2 (-q).toNat) count
    let digits := Nat.toDigits 10 n
    let digits := List.replicate (count - digits.length) '0' ++ digits
    let fraction := digits.drop 1
    sign negative ++ String.ofList (digits.take 1)
      ++ (if fraction.isEmpty then "" else "." ++ String.ofList fraction) ++ "e" ++ toString e

/-! ## Reading -/

/-- Bits of the number nearest to `n * 10 ^ e`. Exponents so far out that the
number is certainly infinite or zero are decided first, so the powers stay of
moderate size. -/
def ofDecimal (fmt : BinaryFormat) (n : Nat) (e : Int) : Nat :=
  let point : Int := digitCount n + e
  if n = 0 then 0
  else if Nat.pow 2 (fmt.exponentBits - 1) < point then fmt.infinity
  else if point < fmt.minExponent then 0
  else if 0 ≤ e then fmt.roundRatio (n * Nat.pow 10 e.toNat) 1
  else fmt.roundRatio n (Nat.pow 10 (-e).toNat)

/-- The number that decimal digits spell. -/
def digitsValue (digits : List Char) : Nat :=
  digits.foldl (fun n c => 10 * n + (c.toNat - '0'.toNat)) 0

/-- Split off a leading minus sign. -/
def splitMinus : List Char → Bool × List Char
  | '-' :: rest => (true, rest)
  | text => (false, text)

/-- The value of an exponent part without its mark, such as `-5` or `+12`. -/
def exponentValue : List Char → Int
  | '-' :: digits => -digitsValue digits
  | '+' :: digits => digitsValue digits
  | digits => digitsValue digits

/-- Bits of the unsigned decimal literal with these characters: digits, then
perhaps a point and digits, then perhaps an exponent. -/
def ofUnsignedLiteral (fmt : BinaryFormat) (text : List Char) : Nat :=
  let whole := text.takeWhile Char.isDigit
  let afterWhole := text.dropWhile Char.isDigit
  let (fraction, tail) :=
    match afterWhole with
    | '.' :: rest => (rest.takeWhile Char.isDigit, rest.dropWhile Char.isDigit)
    | rest => ([], rest)
  let exponent := exponentValue (tail.drop 1)
  fmt.ofDecimal (digitsValue (whole ++ fraction)) (exponent - fraction.length)

/-- Bits of a number literal: a decimal literal, `inf`, `NaN` or `nan`, with or
without a minus sign. -/
def ofLiteral (fmt : BinaryFormat) (text : List Char) : Nat :=
  let (negative, magnitude) := splitMinus text
  fmt.withSign negative <|
    if magnitude = "inf".toList then fmt.infinity
    else if magnitude = "NaN".toList ∨ magnitude = "nan".toList then fmt.quietNaN
    else fmt.ofUnsignedLiteral magnitude

end Lanewise.BinaryFormat
