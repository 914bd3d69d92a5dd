import AgentEval.Js.Literal

/-!
# `Number(text)`

A decimal literal, or one with a radix prefix, which has no sign.
-/

namespace Js.Number

/-- The radix that a letter after `0` stands for. -/
def radixOf (u : UInt16) : Option ℕ :=
  if u = 98 ∨ u = 66 then some 2
  else if u = 111 ∨ u = 79 then some 8
  else if u = 120 ∨ u = 88 then some 16
  else none

/-- The value of a digit of either case, below a radix. -/
def digitIn (radix : ℕ) (u : UInt16) : Option ℕ :=
  let value :=
    if 48 ≤ u.toNat ∧ u.toNat ≤ 57 then u.toNat - 48
    else if 97 ≤ u.toNat ∧ u.toNat ≤ 102 then u.toNat - 87
    else if 65 ≤ u.toNat ∧ u.toNat ≤ 70 then u.toNat - 55
    else radix
  if value < radix then some value else none

/-- Digits of a radix, at least one. -/
def radixValue (radix : ℕ) (s : JsString) : Option ℕ :=
  if s = [] then none
  else s.foldl (fun a u => a.bind fun a => (digitIn radix u).map fun d => radix * a + d) (some 0)

/-- `Number(s)`. -/
def coerce (s : JsString) : Number :=
  match trim s with
  | 48 :: u :: t =>
    match radixOf u with
    | some radix => (radixValue radix t).elim .nan .ofNat
    | none => ofText s
  | _ => ofText s

end Js.Number
