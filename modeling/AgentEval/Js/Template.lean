import AgentEval.Js.Str

/-!
# Template literals over any numbers

A text with numbers in it, not yet written out: what a program says about a number does not depend
on how the number is stored.
-/

namespace Js

/-- A piece of a template literal. -/
inductive Piece (F : Type*) where
  /-- What stands there as it is. -/
  | text (s : JsString)
  /-- `${x}`. -/
  | number (x : F)
  /-- `${x.toFixed(digits)}`. -/
  | fixed (x : F) (digits : ℕ)

/-- A template literal, from its pieces. -/
abbrev Template (F : Type*) := List (Piece F)

/-- A piece in writing. -/
def Piece.write {F : Type*} (toText : F → JsString) (toFixed : F → ℕ → JsString) :
    Piece F → JsString
  | .text s => s
  | .number x => toText x
  | .fixed x digits => toFixed x digits

/-- The text of a template literal. -/
def Template.write {F : Type*} (toText : F → JsString) (toFixed : F → ℕ → JsString)
    (t : Template F) : JsString :=
  t.flatMap (Piece.write toText toFixed)

/-- A `RangeError` that is thrown. -/
structure RangeError (F : Type*) where
  /-- What it says. -/
  message : Template F

end Js
