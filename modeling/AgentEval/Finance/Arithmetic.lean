import Mathlib.Algebra.Order.Floor.Ring
import AgentEval.Finance.Numeric

/-!
# The numbers of `finance/`

What the parser and the comparison do with numbers, apart from how these are stored: `doubles` are
those of the language, `unrounded` the ones of an ordered field.
-/

namespace AgentEval.Finance

open Js

/-- What the program does with numbers. -/
structure Arithmetic (V : Type) where
  /-- `Number(text)` -/
  ofText : JsString → V
  /-- `String(x)` -/
  toText : V → JsString
  /-- `Number.isFinite(x)` -/
  isFinite : V → Bool
  /-- A whole number of the program. -/
  ofNat : ℕ → V
  /-- `-x` -/
  neg : V → V
  /-- `x - y` -/
  sub : V → V → V
  /-- `x * y` -/
  mul : V → V → V
  /-- `x / y` -/
  div : V → V → V
  /-- `Math.abs(x)` -/
  abs : V → V
  /-- `Math.ceil(x)` -/
  ceil : V → V
  /-- `Math.round(x)` -/
  round : V → V
  /-- `Math.log10(x)` -/
  log10 : V → V
  /-- `10 ** x` -/
  tenTo : V → V
  /-- `x === y` -/
  eq : V → V → Bool
  /-- `x <= y` -/
  le : V → V → Bool

/-- The numbers of the language; its logarithm and its power are parameters. -/
def doubles (log10 tenTo : Number → Number) : Arithmetic Number where
  ofText := Number.ofText
  toText := Number.toString
  isFinite := Number.isFinite
  ofNat := Number.ofNat
  neg := Number.neg
  sub := Number.sub
  mul := Number.mul
  div := Number.div
  abs := Number.abs
  ceil := Number.ceil
  round := Number.round
  log10 := log10
  tenTo := tenTo
  eq := Number.eq
  le := Number.le

/-- The value of a numeral: digits with at most one point, and maybe a sign. -/
def numeralValue (s : JsString) : ℚ :=
  let unsigned := if s.head? = some 45 ∨ s.head? = some 43 then s.drop 1 else s
  let int := unsigned.takeWhile isDigit
  let frac := ((unsigned.dropWhile isDigit).drop 1).takeWhile isDigit
  (if s.head? = some 45 then -1 else 1) * (digitsValue (int ++ frac) / 10 ^ frac.length)

/-- The numbers of an ordered field, without rounding; how they are written is a parameter, and so
are the logarithm and the power. -/
def unrounded {F : Type} [Field F] [LinearOrder F] [FloorRing F] (toText : F → JsString)
    (log10 tenTo : F → F) : Arithmetic F where
  ofText s := (numeralValue s : F)
  toText := toText
  isFinite _ := true
  ofNat n := n
  neg := Neg.neg
  sub := Sub.sub
  mul := Mul.mul
  div := Div.div
  abs x := |x|
  ceil x := ⌈x⌉
  round x := ⌊x + 1 / 2⌋
  log10 := log10
  tenTo := tenTo
  eq x y := decide (x = y)
  le x y := decide (x ≤ y)

end AgentEval.Finance
