import AgentEval.Js.Json
import Mathlib.Data.List.DropRight

/-!
# `verify.py`: canonical JSON in Python

The conformance script writes canonical JSON on its own. A Python string is a list of code points;
what `json.loads` reads keeps a surrogate without a partner as one. The digits of a number come from
`repr`, which writes the shortest decimal in a layout of its own, and are laid out again as
ECMAScript has it.

* **`parseRepr_repr`**: the digits and the position of the point are read back from `repr`.
* **`esNumberToString_finite`**: the text of a finite number is that of `Number::toString`.
* **`wellFormed_iff`**: a string can be encoded exactly when its surrogates are paired.
* **`keyLE_codePoints`**: the sort keys order strings as ECMAScript does.
-/

namespace AgentEval.Conformance.Py

open Js

/-! ## Strings -/

/-- A value of type `str`: any sequence of code points, surrogates among them. -/
abbrev PyStr := List ℕ

/-- An exception. -/
inductive PyError where
  /-- `ValueError` -/
  | valueError (message : PyStr)
  /-- `TypeError` -/
  | typeError (message : PyStr)
  /-- `UnicodeEncodeError`: surrogates are not allowed. -/
  | unicodeEncodeError

/-- A text in ASCII, whose code units are its code points. -/
def ascii (s : JsString) : PyStr := s.map UInt16.toNat

/-- What `json.loads` makes of the code units of a string: a surrogate pair is one code point, and
every other unit is one of its own. -/
def codePoints : JsString → PyStr
  | [] => []
  | [u] => [u.toNat]
  | u :: v :: s =>
    if isHigh u && isLow v then (ofPair u v).toNat :: codePoints s
    else u.toNat :: codePoints (v :: s)

/-- Every code point is a character: there is no surrogate. -/
def Scalars (s : PyStr) : Prop := ∀ c ∈ s, c.isValidChar

/-- `s.encode("utf-8")`. -/
def encodeUtf8 : PyStr → Except PyError Bytes
  | [] => .ok []
  | c :: s => do
    if ¬ c.isValidChar then throw .unicodeEncodeError
    let rest ← encodeUtf8 s
    return String.utf8EncodeChar (Char.ofNat c) ++ rest

/-- The two octets of a code unit, the high one first. -/
def unitBE (n : ℕ) : List ℕ := [n / 256, n % 256]

/-- `s.encode("utf-16-be", "surrogatepass")`, as numbers.
Source: `verify.py`, `utf16_sort_key` -/
def utf16SortKey (s : PyStr) : List ℕ :=
  s.flatMap fun c =>
    if c < 0x10000 then unitBE c
    else unitBE (0xD800 + (c - 0x10000) / 0x400) ++ unitBE (0xDC00 + (c - 0x10000) % 0x400)

/-- Source: `verify.py`, `_ESCAPES` -/
def escapes : List (ℕ × PyStr) :=
  [(34, [92, 34]), (92, [92, 92]), (8, [92, 98]), (12, [92, 102]), (10, [92, 110]), (13, [92, 114]),
    (9, [92, 116])]

/-- A code point inside quotes.
Source: `verify.py`, `es_quote` -/
def esQuoteChar (ch : ℕ) : PyStr :=
  match escapes.lookup ch with
  | some esc => esc
  | none => if ch < 32 then ascii (92 :: 117 :: hex4 (UInt16.ofNat ch)) else [ch]

/-- JSON string escaping.
Source: `verify.py`, `es_quote` -/
def esQuote (s : PyStr) : PyStr := 34 :: (s.flatMap esQuoteChar ++ [34])

/-! ## Numbers -/

/-- `repr` of a positive float, from its shortest digits and the position of the point: exponent
form from `1e16` on and below `1e-4`. -/
def reprDigits (digits : JsString) (decpt : ℤ) : JsString :=
  if -4 < decpt ∧ decpt ≤ 16 then
    if decpt ≤ 0 then 48 :: 46 :: (zeros (-decpt).toNat ++ digits)
    else if digits.length ≤ decpt then digits ++ zeros (decpt - digits.length).toNat ++ [46, 48]
    else digits.take decpt.toNat ++ 46 :: digits.drop decpt.toNat
  else
    digits.take 1 ++ (if digits.length = 1 then [] else 46 :: digits.drop 1) ++
      101 :: (if decpt - 1 < 0 then 45 else 43) ::
        ((if (decpt - 1).natAbs < 10 then [48] else []) ++ natDigits (decpt - 1).natAbs)

/-- `repr(x)` of a positive float. -/
def repr (x : Double) (hx : 0 < x.val) : JsString :=
  reprDigits (natDigits (shortest x hx).1)
    ((shortest x hx).2 + (natDigits (shortest x hx).1).length)

/-- `s.split(c)` in two where `c` is in `s`, once. -/
def split (c : UInt16) (s : JsString) : JsString × JsString :=
  (s.takeWhile (· ≠ c), (s.dropWhile (· ≠ c)).drop 1)

/-- `int(s)`. -/
def int : JsString → ℤ
  | 45 :: s => -(digitsValue s : ℤ)
  | 43 :: s => digitsValue s
  | s => digitsValue s

/-- Digits without the zeros around them; `n` counts from the left.
Source: `verify.py`, `es_number_to_string` -/
def trimZeros (digits : JsString) (n : ℤ) : JsString × ℤ :=
  let stripped := digits.dropWhile (· = 48)
  let n := n - (digits.length - stripped.length)
  let digits := stripped.rdropWhile (· = 48)
  (if digits = [] then [48] else digits, n)

/-- The digits of a positive float and the position of its point.
Source: `verify.py`, `es_number_to_string` -/
def parseRepr (r : JsString) : JsString × ℤ :=
  let (mantissa, exponent) :=
    if 101 ∈ r then ((split 101 r).1, int (split 101 r).2) else (r, 0)
  let (intPart, fracPart) := if 46 ∈ mantissa then split 46 mantissa else (mantissa, [])
  trimZeros (intPart ++ fracPart) (intPart.length + exponent)

/-- The ECMAScript layout.
Source: `verify.py`, `es_number_to_string` -/
def esLayout (digits : JsString) (n : ℤ) : JsString :=
  let k : ℤ := digits.length
  if k ≤ n ∧ n ≤ 21 then digits ++ zeros (n - k).toNat
  else if 0 < n ∧ n ≤ 21 then digits.take n.toNat ++ 46 :: digits.drop n.toNat
  else if -6 < n ∧ n ≤ 0 then 48 :: 46 :: (zeros (-n).toNat ++ digits)
  else
    let e := n - 1
    let esign : UInt16 := if 0 ≤ e then 43 else 45
    if k = 1 then digits ++ 101 :: esign :: natDigits e.natAbs
    else digits.take 1 ++ 46 :: (digits.drop 1 ++ 101 :: esign :: natDigits e.natAbs)

/-- ECMAScript `Number::toString`.
Source: `verify.py`, `es_number_to_string` -/
def esNumberToString (x : Number) : Except PyError PyStr :=
  match x with
  | .nan => .error (.valueError (ascii (js "non-finite numbers have no JSON representation")))
  | .infinity _ =>
    .error (.valueError (ascii (js "non-finite numbers have no JSON representation")))
  | .negZero =>
    .error (.valueError (ascii (js "negative zero does not round-trip through JSON")))
  | .finite x =>
    if hx : 0 < x.val then
      .ok (ascii (esLayout (parseRepr (repr x hx)).1 (parseRepr (repr x hx)).2))
    else if hn : 0 < -x.val then
      let r := repr x.neg hn
      .ok (ascii (45 :: esLayout (parseRepr r).1 (parseRepr r).2))
    else .ok (ascii [48])

/-! ## Values -/

/-- A value; a number is the float it is converted to. -/
inductive PyVal where
  /-- `None` -/
  | none
  /-- A `bool`. -/
  | bool (b : Bool)
  /-- A `str`. -/
  | str (s : PyStr)
  /-- An `int` or a `float`. -/
  | number (x : Number)
  /-- A `list`. -/
  | list (vs : List PyVal)
  /-- A `dict`. -/
  | dict (items : List (PyStr × PyVal))
  /-- Anything else, with its type. -/
  | other (type : PyStr)

/-- The order of keys in canonical JSON. -/
def keyLE (a b : PyStr) : Prop := utf16SortKey a ≤ utf16SortKey b

instance : DecidableRel keyLE := fun a b =>
  inferInstanceAs (Decidable (utf16SortKey a ≤ utf16SortKey b))

/-- `sorted(items, key=...)`. -/
def sortItems {β : Type} (items : List (PyStr × β)) : List (PyStr × β) :=
  items.insertionSort fun p q => keyLE p.1 q.1

/-- `",".join(parts)`. -/
def joinComma (parts : List PyStr) : PyStr := [44].intercalate parts

mutual

/-- Canonical JSON.
Source: `verify.py`, `canonicalize` -/
def canonicalize : PyVal → Except PyError PyStr
  | .none => .ok (ascii (js "null"))
  | .bool true => .ok (ascii (js "true"))
  | .bool false => .ok (ascii (js "false"))
  | .str s => .ok (esQuote s)
  | .number x => esNumberToString x
  | .list vs => do
    let parts ← canonicalizeEach vs
    return 91 :: (joinComma parts ++ [93])
  | .dict items => do
    let parts ← (sortItems (canonicalizeItems items)).mapM Prod.snd
    return 123 :: (joinComma parts ++ [125])
  | .other type => .error (.typeError (ascii (js "no canonical form for ") ++ type))

/-- The texts of the items of a list.
Source: `verify.py`, `canonicalize` -/
def canonicalizeEach : List PyVal → Except PyError (List PyStr)
  | [] => .ok []
  | v :: vs => do
    let part ← canonicalize v
    let parts ← canonicalizeEach vs
    return part :: parts

/-- The texts of the items of a dict, each under its key.
Source: `verify.py`, `canonicalize` -/
def canonicalizeItems : List (PyStr × PyVal) → List (PyStr × Except PyError PyStr)
  | [] => []
  | (k, v) :: items =>
    (k, (canonicalize v).map fun text => esQuote k ++ 58 :: text) :: canonicalizeItems items

end

section

-- the equations are derived here, once, and not by each proof that unfolds
attribute [local simp] canonicalize canonicalizeEach canonicalizeItems

end

/-- The octets of the canonical form. -/
def canonicalBytes (v : PyVal) : Except PyError Bytes := do
  let text ← canonicalize v
  encodeUtf8 text

/-! ## The text of a number -/

section number

variable {ds s t : JsString} {c : UInt16}

/-- A text is split where the separator is. -/
theorem split_append (hs : c ∉ s) (t : JsString) : split c (s ++ c :: t) = (s, t) := by
  have hne : ∀ u ∈ s, decide (u ≠ c) = true := by
    intro u hu
    refine decide_eq_true ?_
    rintro rfl
    exact hs hu
  have hc : decide (c ≠ c) = false := decide_eq_false (not_not.mpr rfl)
  rw [split, List.takeWhile_append_of_pos hne, List.dropWhile_append_of_pos hne,
    List.takeWhile_cons, List.dropWhile_cons]
  simp

/-- The digits of a number: no zero at either end. -/
structure Trimmed (ds : JsString) : Prop where
  digits : ∀ u ∈ ds, isDigit u = true
  head : ∃ u us, ds = u :: us ∧ u ≠ 48
  last : ∃ us u, ds = us ++ [u] ∧ u ≠ 48

/-- Neither a point nor an exponent mark is a digit. -/
theorem notMem_of_isDigit (hc : isDigit c = false) (hs : ∀ u ∈ s, isDigit u = true) : c ∉ s := by
  intro hmem
  rw [hs c hmem] at hc
  cases hc

/-- Zeros at both ends are trimmed. -/
theorem trimZeros_zeros (h : Trimmed ds) (i j : ℕ) (n : ℤ) :
    trimZeros (zeros i ++ ds ++ zeros j) n = (ds, n - i) := by
  obtain ⟨u, us, hu, hu48⟩ := h.head
  obtain ⟨vs, v, hv, hv48⟩ := h.last
  have hzeros : ∀ k : ℕ, ∀ u ∈ zeros k, decide (u = 48) = true := fun k u hu =>
    decide_eq_true (List.eq_of_mem_replicate hu)
  have hstripped : (zeros i ++ ds ++ zeros j).dropWhile (· = 48) = ds ++ zeros j := by
    rw [List.append_assoc, List.dropWhile_append_of_pos (hzeros i), hu, List.cons_append,
      List.dropWhile_cons, decide_eq_false hu48, if_neg Bool.false_ne_true]
  have hdigits : (ds ++ zeros j).rdropWhile (· = 48) = ds := by
    rw [List.rdropWhile, List.reverse_append, List.dropWhile_append_of_pos, hv,
      List.reverse_append, List.reverse_singleton, List.singleton_append, List.dropWhile_cons,
      decide_eq_false hv48, if_neg Bool.false_ne_true, List.reverse_cons, List.reverse_reverse]
    intro u hu
    exact hzeros j u (List.mem_reverse.mp hu)
  have hne : ds ≠ [] := by
    rw [hu]
    exact List.cons_ne_nil u us
  rw [trimZeros, hstripped]
  rw [hdigits, if_neg hne]
  simp only [List.length_append, zeros, List.length_replicate]
  congr 1
  push_cast
  ring

/-- A text with a point and without an exponent. -/
theorem parseRepr_point {int frac : JsString} (hint : ∀ u ∈ int, isDigit u = true)
    (hfrac : ∀ u ∈ frac, isDigit u = true) :
    parseRepr (int ++ 46 :: frac) = trimZeros (int ++ frac) int.length := by
  have hexp : 101 ∉ int ++ 46 :: frac := by
    rw [List.mem_append, List.mem_cons, not_or, not_or]
    exact ⟨notMem_of_isDigit rfl hint, by decide, notMem_of_isDigit rfl hfrac⟩
  have hpoint : 46 ∈ int ++ 46 :: frac := List.mem_append_right _ (List.mem_cons_self ..)
  rw [parseRepr, if_neg hexp]
  dsimp only
  rw [if_pos hpoint, split_append (notMem_of_isDigit rfl hint)]
  dsimp only
  rw [add_zero]

/-- The exponent is read back. -/
theorem int_exponent (e : ℤ) :
    int ((if e < 0 then 45 else 43) ::
      ((if e.natAbs < 10 then [48] else []) ++ natDigits e.natAbs)) = e := by
  have hvalue : digitsValue ((if e.natAbs < 10 then [48] else []) ++ natDigits e.natAbs) =
      e.natAbs := by
    rw [digitsValue_append, digitsValue_natDigits]
    split <;> simp [digitsValue]
  split
  · rw [int, hvalue]
    omega
  · rw [int, hvalue]
    omega

/-- Zeros are digits. -/
theorem isDigit_zeros_append (i : ℕ) (hs : ∀ u ∈ s, isDigit u = true) :
    ∀ u ∈ zeros i ++ s, isDigit u = true := by
  intro u hu
  rcases List.mem_append.mp hu with hu | hu
  · exact isDigit_of_mem_zeros hu
  · exact hs u hu

/-- **The digits and the position of the point are read back** from what `repr` writes. -/
theorem parseRepr_reprDigits (h : Trimmed ds) (decpt : ℤ) :
    parseRepr (reprDigits ds decpt) = (ds, decpt) := by
  have hdigits := h.digits
  have htrim : ∀ n, trimZeros ds n = (ds, n) := by
    intro n
    have hzeros := trimZeros_zeros h 0 0 n
    rw [zeros, List.replicate_zero, List.nil_append, List.append_nil] at hzeros
    rw [hzeros, Nat.cast_zero, sub_zero]
  obtain ⟨u, us, hu, -⟩ := h.head
  have hpos : 1 ≤ ds.length := by
    rw [hu, List.length_cons]
    omega
  have htake : ∀ n, ∀ u ∈ ds.take n, isDigit u = true := fun n u hu =>
    hdigits u (List.mem_of_mem_take hu)
  have hdrop : ∀ n, ∀ u ∈ ds.drop n, isDigit u = true := fun n u hu =>
    hdigits u (List.mem_of_mem_drop hu)
  unfold reprDigits
  split
  · rename_i hplain
    split
    · -- zeros after the point
      have hpoint := @parseRepr_point [48] (zeros (-decpt).toNat ++ ds) (by simp [isDigit])
        (isDigit_zeros_append _ hdigits)
      rw [List.singleton_append] at hpoint
      rw [hpoint]
      have hzeros := trimZeros_zeros h ((-decpt).toNat + 1) 0 1
      rw [zeros, List.replicate_succ, zeros, List.replicate_zero, List.append_nil] at hzeros
      change trimZeros (48 :: (zeros (-decpt).toNat ++ ds)) 1 = _ at hzeros
      rw [List.singleton_append, List.length_singleton, Nat.cast_one, hzeros, Prod.mk.injEq]
      exact ⟨rfl, by omega⟩
    · split
      · -- zeros before the point
        rename_i hlong
        have hpoint := @parseRepr_point (ds ++ zeros (decpt - ds.length).toNat) [48] ?_
          (by simp [isDigit])
        · rw [hpoint]
          have hzeros := trimZeros_zeros h 0 ((decpt - ds.length).toNat + 1) decpt
          have hsplit : zeros ((decpt - ds.length).toNat + 1) =
              zeros (decpt - ds.length).toNat ++ [48] := List.replicate_succ'
          rw [hsplit, ← List.append_assoc, Nat.cast_zero, sub_zero] at hzeros
          change trimZeros (ds ++ zeros (decpt - ds.length).toNat ++ [48]) decpt = _ at hzeros
          have hlength : ((ds ++ zeros (decpt - ds.length).toNat).length : ℤ) = decpt := by
            rw [List.length_append, zeros, List.length_replicate]
            push_cast
            omega
          rw [hlength, hzeros]
        · intro u hu
          rcases List.mem_append.mp hu with hu | hu
          · exact hdigits u hu
          · exact isDigit_of_mem_zeros hu
      · -- the point between the digits
        rw [parseRepr_point (htake _) (hdrop _), List.take_append_drop, htrim, Prod.mk.injEq]
        refine ⟨rfl, ?_⟩
        rw [List.length_take]
        omega
  · -- the exponent form
    rename_i hexp
    have hmantissa : 101 ∉ ds.take 1 ++ (if ds.length = 1 then [] else 46 :: ds.drop 1) := by
      rw [List.mem_append, not_or]
      refine ⟨notMem_of_isDigit rfl (htake 1), ?_⟩
      split
      · exact List.not_mem_nil
      · rw [List.mem_cons, not_or]
        exact ⟨by decide, notMem_of_isDigit rfl (hdrop 1)⟩
    have hmark : ∀ X : JsString, 101 ∈ ds.take 1 ++ (if ds.length = 1 then [] else 46 :: ds.drop 1) ++
        101 :: X := fun X => List.mem_append_right _ (List.mem_cons_self ..)
    rw [parseRepr, if_pos (hmark _), split_append hmantissa, int_exponent]
    dsimp only
    split
    · -- one digit
      rename_i hone
      have hall : ds.take 1 = ds := List.take_of_length_le hone.le
      have hpoint : 46 ∉ ds := notMem_of_isDigit rfl hdigits
      rw [hall, List.append_nil, if_neg hpoint, List.append_nil, htrim, hone, Prod.mk.injEq]
      exact ⟨rfl, by omega⟩
    · have hpoint : 46 ∈ ds.take 1 ++ 46 :: ds.drop 1 :=
        List.mem_append_right _ (List.mem_cons_self ..)
      rw [if_pos hpoint, split_append (notMem_of_isDigit rfl (htake 1)), List.take_append_drop,
        htrim, List.length_take, Prod.mk.injEq]
      exact ⟨rfl, by omega⟩

/-- The digits of the shortest decimal are trimmed. -/
theorem trimmed_shortest (x : Double) (hx : 0 < x.val) : Trimmed (natDigits (shortest x hx).1) := by
  refine ⟨fun u hu => isDigit_of_mem_natDigits hu,
    exists_natDigits_eq_cons (shortest_ne_zero x hx), ?_⟩
  have hne := natDigits_ne_nil (shortest x hx).1
  refine ⟨_, _, (List.dropLast_append_getLast hne).symm, fun hlast => ?_⟩
  have hvalue := digitsValue_natDigits (shortest x hx).1
  rw [← List.dropLast_append_getLast hne, hlast, digitsValue_append] at hvalue
  refine shortest_mod_ten x hx ?_
  rw [← hvalue]
  simp [digitsValue]

/-- What `repr` writes is read back as the shortest decimal. -/
theorem parseRepr_repr (x : Double) (hx : 0 < x.val) :
    parseRepr (repr x hx) = (natDigits (shortest x hx).1,
      (shortest x hx).2 + (natDigits (shortest x hx).1).length) :=
  parseRepr_reprDigits (trimmed_shortest x hx) _

/-- The text of an exponent, with the sign asked the other way round. -/
theorem renderExp_eq (e : ℤ) :
    Literal.renderExp e = 101 :: (if 0 ≤ e then 43 else 45) :: natDigits e.natAbs := by
  rw [Literal.renderExp]
  rcases lt_or_ge e 0 with he | he
  · rw [if_pos he, if_neg he.not_ge]
  · rw [if_neg he.not_gt, if_pos he]

/-- **The layout is that of `Number::toString`.** -/
theorem esLayout_natDigits (n : ℕ) (p : ℤ) :
    esLayout (natDigits n) (p + (natDigits n).length) = (layout n p).render := by
  have hpos : (natDigits n).length ≠ 0 := by
    rw [ne_eq, List.length_eq_zero_iff]
    exact natDigits_ne_nil n
  unfold esLayout layout
  dsimp only
  by_cases h₁ : ((natDigits n).length : ℤ) ≤ p + (natDigits n).length ∧
      p + (natDigits n).length ≤ 21
  · -- zeros before the point
    rw [if_pos h₁, if_pos h₁]
    simp [Literal.render]
  rw [if_neg h₁, if_neg h₁]
  by_cases h₂ : 0 < p + (natDigits n).length ∧ p + (natDigits n).length ≤ 21
  · -- the point between the digits
    have hfrac : (natDigits n).drop (p + (natDigits n).length).toNat ≠ [] := by
      rw [ne_eq, List.drop_eq_nil_iff]
      omega
    rw [if_pos h₂, if_pos h₂, Literal.render, if_neg hfrac]
    exact (List.append_nil _).symm
  rw [if_neg h₂, if_neg h₂]
  by_cases h₃ : -6 < p + (natDigits n).length ∧ p + (natDigits n).length ≤ 0
  · -- zeros after the point
    have hfrac : zeros (-(p + (natDigits n).length)).toNat ++ natDigits n ≠ [] :=
      List.append_ne_nil_of_right_ne_nil _ (natDigits_ne_nil n)
    rw [if_pos h₃, if_pos h₃, Literal.render, if_neg hfrac]
    exact (List.append_nil _).symm
  rw [if_neg h₃, if_neg h₃, Literal.render, Option.map_some, Option.getD_some, renderExp_eq]
  by_cases h₄ : (natDigits n).length = 1
  · -- one digit and an exponent
    have hall : (natDigits n).take 1 = natDigits n := List.take_of_length_le h₄.le
    have hfrac : (natDigits n).drop 1 = [] := List.drop_eq_nil_iff.mpr h₄.le
    rw [if_pos (by exact_mod_cast h₄), hall, if_pos hfrac, List.append_nil]
  · -- more digits and an exponent
    have hfrac : (natDigits n).drop 1 ≠ [] := by
      rw [ne_eq, List.drop_eq_nil_iff]
      omega
    rw [if_neg (by exact_mod_cast h₄), if_neg hfrac, List.append_assoc, List.cons_append]

/-- **The text of a finite number is that of `Number::toString`.** -/
theorem esNumberToString_finite (x : Double) :
    esNumberToString (.finite x) = .ok (ascii (Number.finite x).toString) := by
  have hpos : ∀ (y : Double) (hy : 0 < y.val),
      esLayout (parseRepr (repr y hy)).1 (parseRepr (repr y hy)).2 = Number.renderPos y hy := by
    intro y hy
    rw [parseRepr_repr, Number.renderPos]
    exact esLayout_natDigits _ _
  unfold esNumberToString Number.toString
  dsimp only
  by_cases hx : 0 < x.val
  · rw [dif_pos hx, dif_pos hx, hpos]
  rw [dif_neg hx, dif_neg hx]
  by_cases hn : 0 < -x.val
  · rw [dif_pos hn, dif_pos hn]
    have h := hpos x.neg hn
    rw [h]
  · rw [dif_neg hn, dif_neg hn]

end number

/-! ## The code points of a string -/

section codePoints

variable {s t : JsString} {u v : UInt16}

/-- A unit that is no leading surrogate is read on its own. -/
theorem codePoints_cons (hu : isHigh u = false) (s : JsString) :
    codePoints (u :: s) = u.toNat :: codePoints s := by
  cases s with
  | nil => rfl
  | cons v s => rw [codePoints, hu, Bool.false_and, if_neg Bool.false_ne_true]

/-- A surrogate pair is read at once. -/
theorem codePoints_pair (hu : isHigh u = true) (hv : isLow v = true) (s : JsString) :
    codePoints (u :: v :: s) = (ofPair u v).toNat :: codePoints s := by
  rw [codePoints, hu, hv, Bool.and_self, if_pos rfl]

/-- A text without leading surrogates. -/
theorem codePoints_eq_ascii (hs : ∀ u ∈ s, isHigh u = false) : codePoints s = ascii s := by
  induction s with
  | nil => rfl
  | cons u s ih =>
    rw [List.forall_mem_cons] at hs
    rw [codePoints_cons hs.1, ih hs.2, ascii, ascii, List.map_cons]

/-- The code point of a character. -/
theorem codePoints_utf16_append (c : Char) (s : JsString) :
    codePoints (utf16 c ++ s) = c.toNat :: codePoints s := by
  rcases utf16_cases c with ⟨u, h, hn, hhigh, -⟩ | ⟨u, v, h, hhigh, hlow, hpair⟩
  · rw [h, List.singleton_append, codePoints_cons hhigh, hn]
  · rw [h, List.cons_append, List.singleton_append, codePoints_pair hhigh hlow, hpair]

/-- The code points of a list of characters. -/
theorem codePoints_flatMap_utf16 (cs : List Char) (s : JsString) :
    codePoints (cs.flatMap utf16 ++ s) = cs.map Char.toNat ++ codePoints s := by
  induction cs with
  | nil => rfl
  | cons c cs ih =>
    rw [List.flatMap_cons, List.append_assoc, codePoints_utf16_append, ih]
    rfl

/-- Code points after a well-formed text. -/
theorem codePoints_append (hs : WellFormed s) (t : JsString) :
    codePoints (s ++ t) = codePoints s ++ codePoints t := by
  obtain ⟨cs, rfl⟩ := hs
  have h := codePoints_flatMap_utf16 cs []
  rw [List.append_nil] at h
  rw [codePoints_flatMap_utf16, h]
  exact congrArg (· ++ codePoints t) (List.append_nil _).symm

/-- **A string is well formed exactly when its code points are characters.** -/
theorem wellFormed_iff : WellFormed s ↔ Scalars (codePoints s) := by
  constructor
  · rintro ⟨cs, rfl⟩
    have h := codePoints_flatMap_utf16 cs []
    rw [List.append_nil] at h
    rw [h]
    intro n hn
    rcases List.mem_append.mp hn with hn | hn
    · obtain ⟨c, -, rfl⟩ := List.mem_map.mp hn
      exact c.valid
    · cases hn
  · intro h
    have hunit : ∀ {u : UInt16}, u.toNat.isValidChar → WellFormed [u] := fun hu =>
      wellFormed_singleton (not_surrogate_of_isValidChar hu).1 (not_surrogate_of_isValidChar hu).2
    induction s using codePoints.induct with
    | case1 => exact .nil
    | case2 u => exact hunit (h _ (List.mem_singleton_self _))
    | case3 u v s hpair ih =>
      obtain ⟨hu, hv⟩ := Bool.and_eq_true_iff.mp hpair
      rw [codePoints_pair hu hv, Scalars, List.forall_mem_cons] at h
      exact (wellFormed_pair hu hv).append (ih h.2)
    | case4 u v s hpair ih =>
      rw [codePoints, if_neg hpair, Scalars, List.forall_mem_cons] at h
      exact (hunit h.1).append (ih h.2)

/-- The octets of the code points of a well-formed string. -/
theorem encodeUtf8_codePoints (hs : WellFormed s) : encodeUtf8 (codePoints s) = .ok (utf8 s) := by
  obtain ⟨cs, rfl⟩ := hs
  have h := codePoints_flatMap_utf16 cs []
  rw [List.append_nil] at h
  rw [h, utf8, toChars_flatMap_utf16]
  clear h
  change encodeUtf8 (cs.map Char.toNat ++ []) = _
  rw [List.append_nil]
  induction cs with
  | nil => rfl
  | cons c cs ih =>
    have hvalid : c.toNat.isValidChar := c.valid
    rw [List.map_cons, encodeUtf8, if_neg (not_not.mpr hvalid), ih, Char.ofNat_toNat]
    rfl

/-- A text with a surrogate in it has no octets. -/
theorem encodeUtf8_eq_error {s : PyStr} (hs : ¬ Scalars s) :
    encodeUtf8 s = .error .unicodeEncodeError := by
  induction s with
  | nil => exact absurd (fun _ hc => absurd hc List.not_mem_nil) hs
  | cons c s ih =>
    rw [encodeUtf8]
    by_cases hc : c.isValidChar
    · rw [if_neg (not_not.mpr hc), ih fun h => hs (List.forall_mem_cons.mpr ⟨hc, h⟩)]
      rfl
    · rw [if_pos hc]
      rfl

/-! ## The order of keys -/

/-- The sort key of a string is its code units. -/
theorem utf16SortKey_codePoints (s : JsString) :
    utf16SortKey (codePoints s) = s.flatMap fun u => unitBE u.toNat := by
  induction s using codePoints.induct with
  | case1 => rfl
  | case2 u =>
    have hu : u.toNat < 0x10000 := u.toNat_lt
    simp [codePoints, utf16SortKey, hu]
  | case3 u v s h ih =>
    obtain ⟨hu, hv⟩ := Bool.and_eq_true_iff.mp h
    have hn := toNat_ofPair hu hv
    rw [codePoints_pair hu hv, utf16SortKey, List.flatMap_cons, ← utf16SortKey, ih]
    simp only [isHigh, isLow, Bool.and_eq_true, decide_eq_true_eq] at hu hv
    have hhigh : 0xD800 + ((ofPair u v).toNat - 0x10000) / 0x400 = u.toNat := by omega
    have hlow : 0xDC00 + ((ofPair u v).toNat - 0x10000) % 0x400 = v.toNat := by omega
    rw [if_neg (by omega), hhigh, hlow, List.append_assoc]
    rfl
  | case4 u v s h ih =>
    have hu : u.toNat < 0x10000 := u.toNat_lt
    rw [codePoints, if_neg h, utf16SortKey, List.flatMap_cons, ← utf16SortKey, ih, if_pos hu]
    rfl

/-- The two octets of each code unit are ordered as the code units are. -/
theorem flatMap_unitBE_lt (s t : JsString) :
    (s.flatMap fun u => unitBE u.toNat) < (t.flatMap fun u => unitBE u.toNat) ↔
      s.map UInt16.toNat < t.map UInt16.toNat := by
  induction s generalizing t with
  | nil =>
    cases t with
    | nil => exact Iff.rfl
    | cons v t => exact iff_of_true (List.nil_lt_cons ..) (List.nil_lt_cons ..)
  | cons u s ih =>
    cases t with
    | nil => exact iff_of_false (List.not_lt_nil _) (List.not_lt_nil _)
    | cons v t =>
      have hu : u.toNat < 0x10000 := u.toNat_lt
      have hv : v.toNat < 0x10000 := v.toNat_lt
      rw [List.flatMap_cons, List.flatMap_cons, List.map_cons, List.map_cons, List.cons_lt_cons_iff,
        ← ih]
      simp only [unitBE, List.cons_append, List.nil_append, List.cons_lt_cons_iff]
      constructor
      · rintro (h | ⟨h, h' | ⟨h', hlt⟩⟩)
        · left
          omega
        · left
          omega
        · exact Or.inr ⟨by omega, hlt⟩
      · rintro (h | ⟨h, hlt⟩)
        · by_cases hq : u.toNat / 256 < v.toNat / 256
          · exact Or.inl hq
          · exact Or.inr ⟨by omega, Or.inl (by omega)⟩
        · rw [h]
          exact Or.inr ⟨rfl, Or.inr ⟨rfl, hlt⟩⟩

/-- **The sort keys order strings as ECMAScript does.** -/
theorem keyLE_codePoints : keyLE (codePoints s) (codePoints t) ↔ Js.keyLE s t := by
  rw [keyLE, Js.keyLE, utf16SortKey_codePoints, utf16SortKey_codePoints, ← not_lt, ← not_lt,
    flatMap_unitBE_lt]

end codePoints

end AgentEval.Conformance.Py
