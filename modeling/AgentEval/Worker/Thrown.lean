import AgentEval.Js.Json

/-!
# What is thrown

Anything may be thrown, and a `catch` that reads `(e as Error).message` reads a property of it. How a
value that is neither a string nor missing reads as text is a parameter.
-/

namespace AgentEval.Worker

open Js

/-- A thrown value. -/
inductive Thrown where
  /-- An `Error`. -/
  | error (e : JsError)
  /-- Any other value. -/
  | value (v : JsVal)

/-- `String(v)`, where `host` reads the values other than strings, `null` and `undefined`. -/
def toText (host : JsVal → Except JsError JsString) : JsVal → Except JsError JsString
  | .str s => .ok s
  | .undefined => .ok (js "undefined")
  | .null => .ok (js "null")
  | v => host v

/-- The error of reading a property of a missing value. -/
def cannotRead (v key : JsString) : JsError :=
  ⟨js "TypeError", js "Cannot read properties of " ++ v ++ js " (reading '" ++ key ++ js "')"⟩

/-- `${(thrown as Error).message}`. -/
def Thrown.message (host : JsVal → Except JsError JsString) : Thrown → Except JsError JsString
  | .error e => .ok e.message
  | .value .undefined => .error (cannotRead (js "undefined") (js "message"))
  | .value .null => .error (cannotRead (js "null") (js "message"))
  | .value (.obj ps) => toText host (getProp ps (js "message"))
  | .value _ => .ok (js "undefined")

end AgentEval.Worker
