import AgentEval.Js.Str
import Mathlib.Data.List.Basic

/-!
# Buffers and their text encodings

Octet sequences as `node:buffer` has them: hexadecimal (`toHex`, `fromHex`) and base64
(`toBase64`, `fromBase64`), and texts from UTF-8 (`fromUtf8`). Decoding is lenient as it is there:
hexadecimal stops at the first pair that is not two digits, base64 skips what is not in its alphabet
and stops at the padding, and UTF-8 has `U+FFFD` for what begins no character or ends too soon.

* **`fromHex_toHex`**, **`fromBase64_toBase64`**: decoding inverts encoding.
* `toHex_injective`: the text determines the octets.
-/

namespace Js

/-! ## Hexadecimal -/

/-- A lower-case hexadecimal digit. -/
def hexDigit (n : ℕ) : UInt16 := UInt16.ofNat (if n < 10 then 48 + n else 87 + n)

/-- The value of a hexadecimal digit of either case. -/
def hexVal? (u : UInt16) : Option ℕ :=
  if 48 ≤ u.toNat ∧ u.toNat ≤ 57 then some (u.toNat - 48)
  else if 97 ≤ u.toNat ∧ u.toNat ≤ 102 then some (u.toNat - 87)
  else if 65 ≤ u.toNat ∧ u.toNat ≤ 70 then some (u.toNat - 55)
  else none

/-- `buf.toString('hex')`. -/
def toHex (b : Bytes) : JsString :=
  b.flatMap fun x => [hexDigit (x.toNat / 16), hexDigit (x.toNat % 16)]

/-- `Buffer.from(s, 'hex')`. -/
def fromHex : JsString → Bytes
  | u :: v :: s =>
    match hexVal? u, hexVal? v with
    | some a, some b => UInt8.ofNat (16 * a + b) :: fromHex s
    | _, _ => []
  | _ => []

/-- A digit is worth its value. -/
theorem hexVal?_hexDigit : ∀ n, n < 16 → hexVal? (hexDigit n) = some n := by decide

/-- **Decoding hexadecimal text inverts writing it.** -/
@[simp] theorem fromHex_toHex (b : Bytes) : fromHex (toHex b) = b := by
  induction b with
  | nil => rfl
  | cons x b ih =>
    have hx := x.toNat_lt
    have h1 := hexVal?_hexDigit (x.toNat / 16) (by omega)
    have h2 := hexVal?_hexDigit (x.toNat % 16) (by omega)
    have hval : UInt8.ofNat (16 * (x.toNat / 16) + x.toNat % 16) = x := by
      rw [Nat.div_add_mod, UInt8.ofNat_toNat]
    change fromHex (hexDigit (x.toNat / 16) :: hexDigit (x.toNat % 16) :: toHex b) = x :: b
    simp only [fromHex, h1, h2, hval, ih]

/-- Two digits for each octet. -/
theorem length_toHex (b : Bytes) : (toHex b).length = 2 * b.length := by
  unfold toHex
  rw [List.length_flatMap]
  simp [Nat.mul_comm]

/-- The hexadecimal text of two octet sequences differs when they do. -/
theorem toHex_injective {a b : Bytes} (h : toHex a = toHex b) : a = b := by
  rw [← fromHex_toHex a, h, fromHex_toHex]

/-! ## Base64 -/

/-- The base64 digit of a sextet. -/
def base64Digit (n : ℕ) : UInt16 :=
  UInt16.ofNat (if n < 26 then 65 + n else if n < 52 then 71 + n else if n < 62 then n - 4
    else if n = 62 then 43 else 47)

/-- The sextet of a base64 digit; the URL-safe alphabet reads as well. -/
def base64Val? (u : UInt16) : Option ℕ :=
  if 65 ≤ u.toNat ∧ u.toNat ≤ 90 then some (u.toNat - 65)
  else if 97 ≤ u.toNat ∧ u.toNat ≤ 122 then some (u.toNat - 71)
  else if 48 ≤ u.toNat ∧ u.toNat ≤ 57 then some (u.toNat + 4)
  else if u.toNat = 43 ∨ u.toNat = 45 then some 62
  else if u.toNat = 47 ∨ u.toNat = 95 then some 63
  else none

/-- The sextets of an octet sequence, the last one filled up with zero bits. -/
def toSextets : Bytes → List ℕ
  | x :: y :: z :: b =>
    [x.toNat / 4, x.toNat % 4 * 16 + y.toNat / 16, y.toNat % 16 * 4 + z.toNat / 64, z.toNat % 64] ++
      toSextets b
  | [x, y] => [x.toNat / 4, x.toNat % 4 * 16 + y.toNat / 16, y.toNat % 16 * 4]
  | [x] => [x.toNat / 4, x.toNat % 4 * 16]
  | [] => []

/-- The octets of a sextet sequence; bits that do not fill an octet are dropped. -/
def ofSextets : List ℕ → Bytes
  | a :: b :: c :: d :: l =>
    [UInt8.ofNat (a * 4 + b / 16), UInt8.ofNat (b % 16 * 16 + c / 4),
      UInt8.ofNat (c % 4 * 64 + d)] ++ ofSextets l
  | [a, b, c] => [UInt8.ofNat (a * 4 + b / 16), UInt8.ofNat (b % 16 * 16 + c / 4)]
  | [a, b] => [UInt8.ofNat (a * 4 + b / 16)]
  | _ => []

section

-- the equations are derived here, once, and not by each proof that unfolds
attribute [local simp] toSextets ofSextets

end

/-- `buf.toString('base64')`. -/
def toBase64 (b : Bytes) : JsString :=
  (toSextets b).map base64Digit ++ List.replicate ((3 - b.length % 3) % 3) 61

/-- `Buffer.from(s, 'base64')`. -/
def fromBase64 (s : JsString) : Bytes :=
  ofSextets ((s.takeWhile (· ≠ 61)).filterMap base64Val?)

/-- A digit is worth its sextet. -/
theorem base64Val?_base64Digit : ∀ n, n < 64 → base64Val? (base64Digit n) = some n := by decide

/-- No digit is the padding. -/
theorem base64Digit_ne_padding : ∀ n, n < 64 → base64Digit n ≠ 61 := by decide

/-- A sextet is below 64. -/
theorem lt_of_mem_toSextets {b : Bytes} {n : ℕ} (h : n ∈ toSextets b) : n < 64 := by
  induction b using toSextets.induct with
  | case1 x y z b ih =>
    have hx := x.toNat_lt
    have hy := y.toNat_lt
    have hz := z.toNat_lt
    simp only [toSextets, List.mem_append, List.mem_cons, List.not_mem_nil, or_false] at h
    rcases h with (rfl | rfl | rfl | rfl) | h
    · omega
    · omega
    · omega
    · omega
    · exact ih h
  | case2 x y =>
    have hx := x.toNat_lt
    have hy := y.toNat_lt
    simp only [toSextets, List.mem_cons, List.not_mem_nil, or_false] at h
    omega
  | case3 x =>
    have hx := x.toNat_lt
    simp only [toSextets, List.mem_cons, List.not_mem_nil, or_false] at h
    omega
  | case4 => simp [toSextets] at h

/-- The octets of the sextets are the octets. -/
theorem ofSextets_toSextets (b : Bytes) : ofSextets (toSextets b) = b := by
  have hofNat : ∀ (x : UInt8) (n : ℕ), n = x.toNat → UInt8.ofNat n = x := by
    rintro x _ rfl
    exact UInt8.ofNat_toNat
  induction b using toSextets.induct with
  | case1 x y z b ih =>
    have hx := x.toNat_lt
    have hy := y.toNat_lt
    have hz := z.toNat_lt
    simp only [toSextets, List.cons_append, List.nil_append, ofSextets, ih]
    rw [hofNat x _ (by omega), hofNat y _ (by omega), hofNat z _ (by omega)]
  | case2 x y =>
    have hx := x.toNat_lt
    have hy := y.toNat_lt
    simp only [toSextets, ofSextets]
    rw [hofNat x _ (by omega), hofNat y _ (by omega)]
  | case3 x =>
    have hx := x.toNat_lt
    simp only [toSextets, ofSextets]
    rw [hofNat x _ (by omega)]
  | case4 => rfl

/-- **Decoding base64 text inverts writing it.** -/
@[simp] theorem fromBase64_toBase64 (b : Bytes) : fromBase64 (toBase64 b) = b := by
  have hne : ∀ u ∈ (toSextets b).map base64Digit, decide (u ≠ 61) = true := by
    intro u hu
    obtain ⟨n, hn, rfl⟩ := List.mem_map.mp hu
    exact decide_eq_true (base64Digit_ne_padding n (lt_of_mem_toSextets hn))
  have hpad : ∀ k : ℕ, (List.replicate k (61 : UInt16)).takeWhile (· ≠ 61) = [] := by
    intro k
    cases k <;> simp [List.replicate_succ]
  have hback : ((toSextets b).map base64Digit).filterMap base64Val? = toSextets b := by
    rw [List.filterMap_map]
    refine (List.filterMap_congr fun n hn => ?_).trans List.filterMap_some
    exact base64Val?_base64Digit n (lt_of_mem_toSextets hn)
  unfold fromBase64 toBase64
  rw [List.takeWhile_append_of_pos hne, hpad, List.append_nil, hback, ofSextets_toSextets]

/-! ## UTF-8 -/

/-- A character that is not complete: how many octets it lacks, between which values the next of
them lies, and the bits there are. -/
structure Utf8State where
  /-- How many octets are missing. -/
  more : ℕ
  /-- The least value of the next one. -/
  lower : ℕ
  /-- The greatest value of the next one. -/
  upper : ℕ
  /-- The bits so far. -/
  codePoint : ℕ

/-- The first octet of a character; one that begins none is replaced. -/
def utf8Lead (b : UInt8) : List Char × Option Utf8State :=
  let x := b.toNat
  if x < 0x80 then ([Char.ofNat x], none)
  else if 0xC2 ≤ x ∧ x ≤ 0xDF then ([], some ⟨1, 0x80, 0xBF, x % 0x20⟩)
  else if 0xE0 ≤ x ∧ x ≤ 0xEF then
    ([], some ⟨2, if x = 0xE0 then 0xA0 else 0x80, if x = 0xED then 0x9F else 0xBF, x % 0x10⟩)
  else if 0xF0 ≤ x ∧ x ≤ 0xF4 then
    ([], some ⟨3, if x = 0xF0 then 0x90 else 0x80, if x = 0xF4 then 0x8F else 0xBF, x % 0x08⟩)
  else (['\uFFFD'], none)

/-- The next octet. One that does not continue the character ends it, and begins another. -/
def utf8Next (state : Option Utf8State) (b : UInt8) : List Char × Option Utf8State :=
  match state with
  | none => utf8Lead b
  | some q =>
    if q.lower ≤ b.toNat ∧ b.toNat ≤ q.upper then
      let codePoint := q.codePoint * 0x40 + b.toNat % 0x40
      if q.more = 1 then ([Char.ofNat codePoint], none)
      else ([], some ⟨q.more - 1, 0x80, 0xBF, codePoint⟩)
    else ('\uFFFD' :: (utf8Lead b).1, (utf8Lead b).2)

/-- The characters of an octet sequence, from a given state on. -/
def utf8Decode (state : Option Utf8State) : Bytes → List Char
  | [] => if state.isSome then ['\uFFFD'] else []
  | b :: bs => (utf8Next state b).1 ++ utf8Decode (utf8Next state b).2 bs

section

-- the equations are derived here, once, and not by each proof that unfolds
attribute [local simp] utf8Decode

end

/-- `buf.toString('utf8')`. -/
def fromUtf8 (b : Bytes) : JsString := (utf8Decode none b).flatMap utf16

section decode

variable {x lower upper codePoint : ℕ} (bs : Bytes)

/-- An octet that ends a character. -/
theorem utf8Decode_last (hx : x < 256) (hlower : lower ≤ x) (hupper : x ≤ upper) :
    utf8Decode (some ⟨1, lower, upper, codePoint⟩) (UInt8.ofNat x :: bs) =
      Char.ofNat (codePoint * 0x40 + x % 0x40) :: utf8Decode none bs := by
  have hnat : (UInt8.ofNat x).toNat = x := UInt8.toNat_ofNat_of_lt' hx
  rw [utf8Decode, utf8Next]
  dsimp only
  rw [hnat, if_pos ⟨hlower, hupper⟩, if_pos rfl]
  rfl

/-- An octet that continues a character. -/
theorem utf8Decode_more {n : ℕ} (hx : x < 256) (hlower : lower ≤ x) (hupper : x ≤ upper) :
    utf8Decode (some ⟨n + 2, lower, upper, codePoint⟩) (UInt8.ofNat x :: bs) =
      utf8Decode (some ⟨n + 1, 0x80, 0xBF, codePoint * 0x40 + x % 0x40⟩) bs := by
  have hnat : (UInt8.ofNat x).toNat = x := UInt8.toNat_ofNat_of_lt' hx
  rw [utf8Decode, utf8Next]
  dsimp only
  rw [hnat, if_pos ⟨hlower, hupper⟩, if_neg (by omega)]
  rfl

/-- An octet that is a character. -/
theorem utf8Decode_lead₁ (hx : x < 0x80) :
    utf8Decode none (UInt8.ofNat x :: bs) = Char.ofNat x :: utf8Decode none bs := by
  have hnat : (UInt8.ofNat x).toNat = x :=
    UInt8.toNat_ofNat_of_lt' (Nat.lt_of_lt_of_le hx (by decide))
  rw [utf8Decode, utf8Next, utf8Lead]
  simp only [hnat, if_pos hx]
  rfl

/-- An octet that begins a character of two. -/
theorem utf8Decode_lead₂ (hlower : 0xC2 ≤ x) (hupper : x ≤ 0xDF) :
    utf8Decode none (UInt8.ofNat x :: bs) = utf8Decode (some ⟨1, 0x80, 0xBF, x % 0x20⟩) bs := by
  have hnat : (UInt8.ofNat x).toNat = x :=
    UInt8.toNat_ofNat_of_lt' (Nat.lt_of_le_of_lt hupper (by decide))
  rw [utf8Decode, utf8Next, utf8Lead]
  simp only [hnat, if_neg (show ¬ x < 0x80 by omega), if_pos (And.intro hlower hupper)]
  rfl

/-- An octet that begins a character of three. -/
theorem utf8Decode_lead₃ (hlower : 0xE0 ≤ x) (hupper : x ≤ 0xEF) :
    utf8Decode none (UInt8.ofNat x :: bs) = utf8Decode
      (some ⟨2, if x = 0xE0 then 0xA0 else 0x80, if x = 0xED then 0x9F else 0xBF, x % 0x10⟩) bs := by
  have hnat : (UInt8.ofNat x).toNat = x :=
    UInt8.toNat_ofNat_of_lt' (Nat.lt_of_le_of_lt hupper (by decide))
  rw [utf8Decode, utf8Next, utf8Lead]
  simp only [hnat, if_neg (show ¬ x < 0x80 by omega), if_neg (show ¬ (0xC2 ≤ x ∧ x ≤ 0xDF) by omega),
    if_pos (And.intro hlower hupper)]
  rfl

/-- An octet that begins a character of four. -/
theorem utf8Decode_lead₄ (hlower : 0xF0 ≤ x) (hupper : x ≤ 0xF4) :
    utf8Decode none (UInt8.ofNat x :: bs) = utf8Decode
      (some ⟨3, if x = 0xF0 then 0x90 else 0x80, if x = 0xF4 then 0x8F else 0xBF, x % 0x08⟩) bs := by
  have hnat : (UInt8.ofNat x).toNat = x :=
    UInt8.toNat_ofNat_of_lt' (Nat.lt_of_le_of_lt hupper (by decide))
  rw [utf8Decode, utf8Next, utf8Lead]
  simp only [hnat, if_neg (show ¬ x < 0x80 by omega), if_neg (show ¬ (0xC2 ≤ x ∧ x ≤ 0xDF) by omega),
    if_neg (show ¬ (0xE0 ≤ x ∧ x ≤ 0xEF) by omega), if_pos (And.intro hlower hupper)]
  rfl

/-- **The octets of a character are read as that character.** -/
theorem utf8Decode_encode (c : Char) :
    utf8Decode none (String.utf8EncodeChar c ++ bs) = c :: utf8Decode none bs := by
  have hvalid : c.toNat < 0xD800 ∨ 0xDFFF < c.toNat ∧ c.toNat < 0x110000 := c.valid
  have hval : c.val.toNat = c.toNat := rfl
  unfold String.utf8EncodeChar
  simp only [hval]
  by_cases h₁ : c.toNat ≤ 0x7f
  · rw [if_pos h₁, List.singleton_append, utf8Decode_lead₁ _ (by omega), Char.ofNat_toNat]
  rw [if_neg h₁]
  by_cases h₂ : c.toNat ≤ 0x7ff
  · have hcode : (c.toNat / 64 % 0x20 + 0xc0) % 0x20 * 0x40 + (c.toNat % 0x40 + 0x80) % 0x40 =
        c.toNat := by omega
    rw [if_pos h₂, List.cons_append, utf8Decode_lead₂ _ (by omega) (by omega), List.singleton_append,
      utf8Decode_last _ (by omega) (by omega) (by omega), hcode, Char.ofNat_toNat]
  rw [if_neg h₂]
  by_cases h₃ : c.toNat ≤ 0xffff
  · have hcode : ((c.toNat / 4096 % 0x10 + 0xe0) % 0x10 * 0x40 +
        (c.toNat / 64 % 0x40 + 0x80) % 0x40) * 0x40 + (c.toNat % 0x40 + 0x80) % 0x40 = c.toNat := by
      omega
    rw [if_pos h₃, List.cons_append, utf8Decode_lead₃ _ (by omega) (by omega), List.cons_append,
      utf8Decode_more _ (by omega) (by split_ifs <;> omega) (by split_ifs <;> omega),
      List.singleton_append, utf8Decode_last _ (by omega) (by omega) (by omega), hcode,
      Char.ofNat_toNat]
  · have hcode : (((c.toNat / 262144 % 0x08 + 0xf0) % 0x08 * 0x40 +
        (c.toNat / 4096 % 0x40 + 0x80) % 0x40) * 0x40 + (c.toNat / 64 % 0x40 + 0x80) % 0x40) * 0x40 +
        (c.toNat % 0x40 + 0x80) % 0x40 = c.toNat := by
      omega
    rw [if_neg h₃, List.cons_append, utf8Decode_lead₄ _ (by omega) (by omega), List.cons_append,
      utf8Decode_more _ (by omega) (by split_ifs <;> omega) (by split_ifs <;> omega),
      List.cons_append, utf8Decode_more _ (by omega) (by omega) (by omega), List.singleton_append,
      utf8Decode_last _ (by omega) (by omega) (by omega), hcode, Char.ofNat_toNat]

/-- **The octets of a string are read as its code points.** -/
theorem fromUtf8_utf8 (s : JsString) : fromUtf8 (utf8 s) = (toChars s).flatMap utf16 := by
  have hdecode : ∀ cs : List Char, utf8Decode none (cs.flatMap String.utf8EncodeChar) = cs := by
    intro cs
    induction cs with
    | nil => rfl
    | cons c cs ih => rw [List.flatMap_cons, utf8Decode_encode, ih]
  rw [fromUtf8, utf8, hdecode]

/-- **A string comes back from its octets** exactly when it is well formed. -/
theorem fromUtf8_utf8_eq_self_iff {s : JsString} : fromUtf8 (utf8 s) = s ↔ WellFormed s := by
  rw [fromUtf8_utf8]
  constructor
  · exact fun h => ⟨toChars s, h.symm⟩
  · rintro ⟨cs, rfl⟩
    rw [toChars_flatMap_utf16]

end decode

end Js
