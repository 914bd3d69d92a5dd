import AgentEval.Providers.Http
import AgentEval.Regex.Apart

/-!
# `auth/encryption.ts`: redaction for logs and error paths

`redactSecrets` writes what it is given as JSON and replaces the matches of five patterns in the text,
one pattern after the other. `String(value)` of what has no JSON text and is no object is a parameter.

* `redactSecrets` — the text that is logged.
* `withheld n v` — `v` with the strings under secret keys cut to their first `n` code units.
-/

namespace AgentEval.Auth

open Js Regex Providers.Http

/-! ## The patterns -/

/-- `\b(sk|xai|gsk|ae_live|ae_test)[-_][A-Za-z0-9_-]{8,}` -/
def prefixedKeyPattern : Pattern (Option UInt16 × UInt16) :=
  .seq (.opening isWordUnit)
    (.seq (.oneOf (["sk", "xai", "gsk", "ae_live", "ae_test"].map fun w => .text (· == ·) (js w)))
      (.seq (.symbol fun u => u == 45 || u == 95)
        (.atLeast (.symbol fun u => isWordUnit u || u == 45) 8)))

/-- `\bAIza[0-9A-Za-z_-]{20,}` -/
def googleKeyPattern : Pattern (Option UInt16 × UInt16) :=
  .seq (.opening isWordUnit)
    (.seq (.text (· == ·) (js "AIza")) (.atLeast (.symbol fun u => isWordUnit u || u == 45) 20))

/-- `(api[_-]?key|apiKey|secret|password|token|authorization)`, in either case. -/
def secretName : Pattern UInt16 :=
  .group 1 (.oneOf (.seq (.word sameLetter (js "api"))
      (.seq (.opt (.set fun u => u == 95 || u == 45)) (.word sameLetter (js "key"))) ::
    ["apiKey", "secret", "password", "token", "authorization"].map fun w => .word sameLetter (js w)))

/-- That name in quotes, `\s*:\s*`, and `"[^"]*"`. -/
def propertyPattern : Pattern UInt16 :=
  .seq (.set (· == 34))
    (.seq secretName
      (.seq (.set (· == 34))
        (.seq (.star (.set isWhiteSpace))
          (.seq (.set (· == 58))
            (.seq (.star (.set isWhiteSpace))
              (.seq (.set (· == 34))
                (.seq (.star (.set (· != 34))) (.set (· == 34)))))))))

/-- `\b(x-api-key|authorization)\s*:\s*\S+`, in either case. -/
def headerPattern : Pattern (Option UInt16 × UInt16) :=
  .seq (.opening isWordUnit)
    (.seq (.oneOf (["x-api-key", "authorization"].map fun w => .text sameLetter (js w)))
      (.seq (.star (.symbol isWhiteSpace))
        (.seq (.symbol (· == 58))
          (.seq (.star (.symbol isWhiteSpace)) (.plus (.symbol fun u => !isWhiteSpace u))))))

/-- Source: `encryption.ts`, `SECRET_PATTERNS` -/
def secretPatterns : List (Pattern (Option UInt16 × UInt16)) :=
  [prefixedKeyPattern, googleKeyPattern, bearerPattern, propertyPattern.comap Prod.snd,
    headerPattern]

/-! ## Redaction -/

/-- What a match is replaced by.
Source: `encryption.ts`, `redactSecrets` -/
def redactMatch (m : JsString) : JsString :=
  let colon := m.idxOf 58
  if 0 < colon ∧ colon < 24 ∧ colon < m.length then m.take (colon + 1) ++ js "\"[redacted]\""
  else m.take 6 ++ js "[redacted]"

section

variable (describe : JsVal → JsString)

/-- `String(value)`. -/
def stringOf : JsVal → JsString
  | .obj _ => js "[object Object]"
  | v => describe v

/-- Source: `encryption.ts`, `safeStringify` -/
def safeStringify (v : JsVal) : JsString :=
  match jsonStringify v with
  | .ok (some text) => text
  | .ok none => stringOf describe v
  | .error _ => stringOf describe v

/-- Every pattern in turn. -/
def redactText (text : JsString) : JsString :=
  secretPatterns.foldl (fun text pattern => pattern.replaceWords redactMatch text) text

/-- Source: `encryption.ts`, `redactSecrets` -/
def redactSecrets : JsVal → JsString
  | .str s => redactText s
  | v => redactText (safeStringify describe v)

end

/-! ## Secrets -/

/-- A letter in lower case. -/
def lowerUnit (u : UInt16) : UInt16 := if 65 ≤ u.toNat ∧ u.toNat ≤ 90 then u + 32 else u

/-- The listed keys. -/
def secretKeys : List JsString :=
  ["apikey", "api_key", "api-key", "secret", "password", "token", "authorization"].map js

/-- A key under which there is a secret, in either case. -/
def isSecretKey (k : JsString) : Bool := decide (k.map lowerUnit ∈ secretKeys)

/-- A string cut to its first code units. -/
def cut (n : ℕ) : JsVal → JsVal
  | .str s => .str (s.take n)
  | v => v

/-- The strings under secret keys cut, at any depth. -/
def withheld (n : ℕ) : JsVal → JsVal :=
  JsVal.mapUp fun
    | .obj ps => .obj (ps.map fun p => (p.1, if isSecretKey p.1 then cut n p.2 else p.2))
    | v => v

/-- The strings under secret keys are of a kind. -/
def SecretsAre (S : JsString → Prop) : JsVal → Prop :=
  JsVal.All fun
    | .obj ps => ∀ k s, (k, .str s) ∈ ps → isSecretKey k = true → S s
    | _ => True

/-- A weaker kind. -/
theorem SecretsAre.mono {S S' : JsString → Prop} (hS : ∀ s, S s → S' s) {v : JsVal}
    (h : SecretsAre S v) : SecretsAre S' v := by
  unfold SecretsAre at h ⊢
  induction v using JsVal.induct with
  | arr xs ih =>
    rw [JsVal.all_arr] at h ⊢
    exact ⟨trivial, fun x hx => ih x hx (h.2 x hx)⟩
  | obj ps ih =>
    rw [JsVal.all_obj] at h ⊢
    exact ⟨fun k s hmem hk => hS s (h.1 k s hmem hk), fun p hp => ih p hp (h.2 p hp)⟩
  | _ => trivial

end AgentEval.Auth
