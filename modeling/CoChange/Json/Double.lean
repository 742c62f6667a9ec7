/-!
# Doubles

Numbers that are no 64-bit integers are taken as binary floating point numbers of 53 bits and
shown with the fewest decimal digits that are nearer to the number than to its neighbours. All
arithmetic is exact, on `mantissa * 2 ^ exponent`.
-/

namespace CoChange.Json

/-- The number `mantissa * 2 ^ exponent`. -/
structure Double where
  mantissa : Nat
  exponent : Int
deriving DecidableEq, Repr

namespace Double

/-- The least exponent. -/
def leastExponent : Int := -1074

/-- The quotient rounded to the nearest natural number, a tie to the even one. -/
def divideEven (num den : Nat) : Nat :=
  let q := num / den
  let twice := 2 * (num % den)
  if twice > den ∨ (twice = den ∧ q % 2 = 1) then q + 1 else q

/-- The numerator and the denominator of `num / den` over `2 ^ exponent`. -/
def scale (num den : Nat) (exponent : Int) : Nat × Nat :=
  (num * Nat.pow 2 (-exponent).toNat, den * Nat.pow 2 exponent.toNat)

/-- The double nearest to `num / den`; `none` when it would be infinite. -/
def nearest? (num den : Nat) : Option Double :=
  if num = 0 then some ⟨0, leastExponent⟩
  else
    let start := max ((num.log2 : Int) - den.log2 - 53) leastExponent
    let (n, d) := scale num den start
    let exponent := if n / d ≥ Nat.pow 2 53 then start + 1 else start
    let (n, d) := scale num den exponent
    let m := divideEven n d
    let result : Double :=
      if m = Nat.pow 2 53 then ⟨Nat.pow 2 52, exponent + 1⟩ else ⟨m, exponent⟩
    if result.exponent > 971 then none else some result

def num (x : Double) : Nat := x.mantissa * Nat.pow 2 x.exponent.toNat

def den (x : Double) : Nat := Nat.pow 2 (-x.exponent).toNat

/-- The product with a power of ten, where the number and the power are rounded first. -/
def timesPower? (x : Double) (power : Nat) : Option Double := do
  let y ← nearest? (Nat.pow 10 power) 1
  nearest? (x.num * y.num) (x.den * y.den)

/-- The quotient by a power of ten, where the number and the power are rounded first. -/
def overPower? (x : Double) (power : Nat) : Option Double := do
  let y ← nearest? (Nat.pow 10 power) 1
  nearest? (x.num * y.den) (x.den * y.num)

/-- The double of `significand * 10 ^ exponent`, scaled by at most `10 ^ 308` at a time. -/
def scaled? (x : Double) (exponent : Int) : Option Double :=
  if 0 ≤ exponent then
    if exponent ≤ 308 then x.timesPower? exponent.toNat
    else if x.mantissa = 0 then some x
    else none
  else if -308 ≤ exponent then x.overPower? (-exponent).toNat
  else if x.mantissa = 0 then some x
  else (x.overPower? 308).bind fun y => y.scaled? (exponent + 308)
termination_by exponent.natAbs

def ofDecimal? (significand : Nat) (exponent : Int) : Option Double :=
  (nearest? significand 1).bind (·.scaled? exponent)

/-! ## Shortest digits -/

/-- The place of the decimal point: the least `p` with `num / den < 10 ^ p`, for a number that is
not zero. -/
def pointPlace (num den : Nat) : Int :=
  if den ≤ num then (Nat.toDigits 10 (num / den)).length
  else
    match (List.range 400).find? fun j => den ≤ num * Nat.pow 10 j with
    | some j => 1 - (j : Int)
    | none => 0

/-- Whether `d * 10 ^ place` rounds to `x`: it lies between the middles to the neighbours of `x`,
and is one of them only if the mantissa is even. -/
def admits (x : Double) (d : Nat) (place : Int) : Bool :=
  let below := if x.mantissa = Nat.pow 2 52 ∧ x.exponent > leastExponent then 1 else 2
  let d₁ := 4 * d * Nat.pow 10 place.toNat * Nat.pow 2 (-x.exponent).toNat
  let unit := Nat.pow 10 (-place).toNat * Nat.pow 2 x.exponent.toNat
  let low := (4 * x.mantissa - below) * unit
  let high := (4 * x.mantissa + 2) * unit
  if x.mantissa % 2 = 0 then low ≤ d₁ && d₁ ≤ high else low < d₁ && d₁ < high

/-- The decimal of `count` digits that rounds to `x`, the nearer one of two. -/
def decimal? (x : Double) (point : Int) (count : Nat) : Option (Nat × Int) :=
  let place := point - count
  let n := x.num * Nat.pow 10 (-place).toNat
  let d := x.den * Nat.pow 10 place.toNat
  let low := n / d
  match x.admits low place, x.admits (low + 1) place with
  | true, true => some (divideEven n d, place)
  | true, false => some (low, place)
  | false, true => some (low + 1, place)
  | false, false => none

def strip : Nat → Nat × Int → Nat × Int
  | 0, decimal => decimal
  | fuel + 1, (d, place) => if d ≠ 0 ∧ d % 10 = 0 then strip fuel (d / 10, place + 1) else (d, place)

/-- The shortest decimal that rounds to `x`. -/
def shortest (x : Double) : Nat × Int :=
  let point := pointPlace x.num x.den
  match (List.range 17).findSome? fun k => x.decimal? point (k + 1) with
  | some decimal => strip 20 decimal
  | none => (x.mantissa, x.exponent)

/-- The text of a decimal exponent, always with a sign. -/
def exponentText : Int → List Char
  | .ofNat n => '+' :: Nat.toDigits 10 n
  | .negSucc n => '-' :: Nat.toDigits 10 (n + 1)

/-- The text of a double: positional while the point is at most sixteen places behind the first
digit or five before it, with an exponent otherwise. -/
def text (x : Double) : String :=
  if x.mantissa = 0 then "0.0"
  else
    let (d, place) := x.shortest
    let digits := Nat.toDigits 10 d
    let zeros (n : Int) := List.replicate n.toNat '0'
    let point : Int := digits.length + place
    String.ofList <|
      if 0 ≤ place ∧ point ≤ 16 then digits ++ zeros place ++ ['.', '0']
      else if 0 < point ∧ point ≤ 16 then
        digits.take point.toNat ++ '.' :: digits.drop point.toNat
      else if -5 < point ∧ point ≤ 0 then '0' :: '.' :: zeros (-point) ++ digits
      else
        let fraction := if digits.length = 1 then [] else '.' :: digits.drop 1
        digits.take 1 ++ fraction ++ 'e' :: exponentText (point - 1)

end Double

end CoChange.Json
