namespace Sinkhole.Binary64

/-- The least exponent `q`, which the subnormal numbers and the least normal ones share. -/
def minExponent : Int := -1074

/-- The quotient rounded to the nearest natural, a half going to the even neighbour. -/
def roundDiv (num den : Nat) : Nat :=
  let quotient := num / den
  let twice := 2 * (num % den)
  if twice > den ∨ (twice = den ∧ quotient % 2 = 1) then quotient + 1 else quotient

/-- A significand has 53 bits, of which the first is not written. -/
def hiddenBit : Nat := 1 <<< 52

def specialExponent : Nat := 2047

def infinityBits : Nat := specialExponent * hiddenBit

def signBit : Nat := 1 <<< 63

def tenTo (n : Nat) : Nat := Nat.pow 10 n

/-- `num / den * 2 ^ -q` rounded to a natural. -/
def significand (num den : Nat) (q : Int) : Nat :=
  roundDiv (num <<< (-q).toNat) (den <<< q.toNat)

/-- The exponent at which `num / den` has 53 bits before the point, or `minExponent`. -/
def exponentFor (num den : Nat) : Int :=
  let q : Int := (num.log2 : Int) - den.log2 - 52
  let q := if num <<< (-q).toNat < hiddenBit * (den <<< q.toNat) then q - 1 else q
  max q minExponent

/-- The bits of the number nearest to `num / den`. Adding the significand to the shifted exponent
carries a significand of 54 bits into the exponent, and a number past the largest one is
infinite. -/
def bitsNearest (num den : Nat) : Nat :=
  if num = 0 then
    0
  else
    let q := exponentFor num den
    min ((q - minExponent).toNat * hiddenBit + significand num den q) infinityBits

/-- The number nearest to `mantissa * 10 ^ exponent`, with the sign that was written. -/
def ofDecimal (negative : Bool) (mantissa : Nat) (exponent : Int) : Float :=
  let bits :=
    if mantissa = 0 ∨ exponent + mantissa.log2 < -1400 then 0
    else if exponent > 400 then infinityBits
    else bitsNearest (mantissa * tenTo exponent.toNat) (tenTo (-exponent).toNat)
  Float.ofBits (UInt64.ofNat (bits + if negative then signBit else 0))

/-- A positive finite number taken apart. -/
structure Parts where
  m : Nat
  q : Int
  deriving DecidableEq, Repr

def parts? (bits : UInt64) : Option Parts :=
  let exponent := bits.toNat / hiddenBit % (specialExponent + 1)
  let fraction := bits.toNat % hiddenBit
  if exponent = specialExponent then none
  else if exponent = 0 then some ⟨fraction, minExponent⟩
  else some ⟨hiddenBit + fraction, minExponent + (exponent - 1 : Nat)⟩

def isNegative (bits : UInt64) : Bool :=
  bits.toNat ≥ signBit

end Sinkhole.Binary64

namespace Sinkhole

structure Decimal where
  digits : Nat
  exponent : Int
  deriving DecidableEq, Repr

namespace Decimal

/-- The reals that round to a number, in quarters of its last binary place. The ends belong to it
when the significand is even; below a power of two the spacing is halved. -/
structure Interval where
  low : Nat
  mid : Nat
  high : Nat
  closed : Bool

def Interval.around (x : Binary64.Parts) : Interval where
  low := if x.m = Binary64.hiddenBit ∧ x.q > Binary64.minExponent then 4 * x.m - 1 else 4 * x.m - 2
  mid := 4 * x.m
  high := 4 * x.m + 2
  closed := x.m % 2 = 0

/-- The multiple of `10 ^ exponent` nearest to `x` among those that read back as `x`. Of two such
neighbours at one distance the even one is taken. -/
def onGrid? (x : Binary64.Parts) (exponent : Int) : Option Decimal :=
  let range := Interval.around x
  -- both sides of a comparison scaled to naturals
  let binary := Binary64.tenTo (-exponent).toNat <<< (x.q - 2).toNat
  let decimal := Binary64.tenTo exponent.toNat <<< (2 - x.q).toNat
  let hits (c : Nat) : Bool :=
    if range.closed then
      range.low * binary ≤ c * decimal && c * decimal ≤ range.high * binary
    else
      range.low * binary < c * decimal && c * decimal < range.high * binary
  let below := range.mid * binary / decimal
  let above := below + 1
  let toBelow := range.mid * binary - below * decimal
  let toAbove := above * decimal - range.mid * binary
  let preferBelow := toBelow < toAbove || (toBelow == toAbove && below % 2 == 0)
  match hits below, hits above with
  | true, true => some ⟨if preferBelow then below else above, exponent⟩
  | true, false => some ⟨below, exponent⟩
  | false, true => some ⟨above, exponent⟩
  | false, false => none

/-- The coarsest grid with a decimal that reads back gives the fewest digits. -/
def shortest? (x : Binary64.Parts) : Option Decimal :=
  (List.range 660).findSome? fun (i : Nat) => onGrid? x (309 - i)

/-- Positional from `0.00001` up to sixteen digits before the point, with `.0` after a whole number;
otherwise with an exponent. -/
def text (d : Decimal) : String :=
  let digits := Nat.toDigits 10 d.digits
  let point : Int := digits.length + d.exponent
  let zeros (n : Int) : List Char := List.replicate n.toNat '0'
  if 0 ≤ d.exponent ∧ point ≤ 16 then
    String.ofList (digits ++ zeros d.exponent ++ ['.', '0'])
  else if 0 < point ∧ point ≤ 16 then
    String.ofList (digits.take point.toNat ++ '.' :: digits.drop point.toNat)
  else if -5 < point ∧ point ≤ 0 then
    String.ofList ('0' :: '.' :: zeros (-point) ++ digits)
  else
    let lead := match digits with
      | [] => []
      | [c] => [c]
      | c :: cs => c :: '.' :: cs
    String.ofList lead ++ "e" ++ toString (point - 1)

/-- A floating-point number as JSON writes it. JSON has no infinities, so they are `null`. -/
def jsonText (x : Float) : String :=
  let bits := x.toBits
  let sign := if Binary64.isNegative bits then "-" else ""
  match Binary64.parts? bits with
  | none => "null"
  | some parts =>
    if parts.m = 0 then sign ++ "0.0"
    else (shortest? parts).elim "null" fun d => sign ++ d.text

end Decimal

end Sinkhole
