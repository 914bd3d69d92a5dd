import AgentEval.Js.Decimal

/-!
# URLs

What `new URL(text)` gives: a protocol and a host. The parser is a function on texts that others
supply; the hosts are those of the URL Standard, and `Host.hostname` writes them as it says: an IPv4
address in decimal, an IPv6 address in brackets with its longest run of zeros left out.
-/

namespace Js

/-- A host. -/
inductive Host where
  /-- A domain name in ASCII. -/
  | domain (name : JsString)
  /-- An IPv4 address, octet by octet. -/
  | ipv4 (a b c d : UInt8)
  /-- An IPv6 address, piece by piece. -/
  | ipv6 (pieces : List UInt16) (h : pieces.length = 8)
  /-- The host of a URL with another scheme, or none at all. -/
  | other (text : JsString)

/-- A URL, as far as it is read. -/
structure Url where
  /-- The scheme and a colon. -/
  protocol : JsString
  /-- The host. -/
  host : Host

/-- `new URL(text)`; the parser throws where there is no URL. -/
abbrev UrlParser : Type := JsString → Option Url

namespace Host

/-- A piece of an IPv6 address in hexadecimal, without leading zeros. -/
def pieceText (piece : UInt16) : JsString := (Nat.toDigits 16 piece.toNat).flatMap utf16

/-- How many pieces at the beginning are zero. -/
def leadingZeros (pieces : List UInt16) : ℕ := (pieces.takeWhile (· == 0)).length

/-- Where the first of the longest runs of zeros begins, if it has more than one piece. -/
def compress (pieces : List UInt16) : Option ℕ :=
  let runs := (List.range pieces.length).map fun i => leadingZeros (pieces.drop i)
  let longest := runs.foldl max 0
  if longest ≤ 1 then none else runs.idxOf? longest

/-- The pieces from an index on, where the run to leave out begins at another one. -/
def ipv6Text (skip : Option ℕ) (skipping : Bool) (i : ℕ) : List UInt16 → JsString
  | [] => []
  | piece :: rest =>
    if skipping && piece == 0 then ipv6Text skip true (i + 1) rest
    else if skip = some i then
      (if i = 0 then js "::" else js ":") ++ ipv6Text skip true (i + 1) rest
    else pieceText piece ++ (if rest = [] then [] else js ":") ++ ipv6Text skip false (i + 1) rest

/-- `url.hostname` -/
def hostname : Host → JsString
  | domain name => name
  | ipv4 a b c d =>
    natDigits a.toNat ++ js "." ++ natDigits b.toNat ++ js "." ++ natDigits c.toNat ++ js "." ++
      natDigits d.toNat
  | ipv6 pieces _ => js "[" ++ ipv6Text (compress pieces) false 0 pieces ++ js "]"
  | other text => text

end Host

/-- `s.toLowerCase()` on texts in ASCII. -/
def asciiLower (s : JsString) : JsString :=
  s.map fun u => if 65 ≤ u ∧ u ≤ 90 then u + 32 else u

end Js
