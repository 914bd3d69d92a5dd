import Mathlib.Data.List.Sort
import Mathlib.Data.List.Lex
import Mathlib.Data.List.Forall2
import Mathlib.Order.Lattice.Nat

/-!
# ECMAScript strings

A string is its list of UTF-16 code units, paired or not.

* `js "…"` — the code units of a literal.
* `toChars s` — the code points of `s`, every lone surrogate replaced by `U+FFFD`; `utf8 s` — the
  bytes of `Buffer.from(s, 'utf8')`.
* `WellFormed s` — `s` has no lone surrogate: it is the UTF-16 form of some list of characters.
  **`utf8_injective`**: on such strings the byte form determines the string.
* `JsError` — a thrown error, by class name and message.
* `keyLE` — the order in which `Array.prototype.sort` puts strings: code unit by code unit.
-/

namespace Js

/-- A value of type String: any sequence of 16-bit code units. -/
abbrev JsString := List UInt16

/-- Strings are looked for in a list by comparing them. -/
instance (s : JsString) (ss : List JsString) : Decidable (s ∈ ss) :=
  List.instDecidableMemOfLawfulBEq s ss

/-- What holds of all code units of a string is decided along the string. -/
instance (priority := 2000) (s : JsString) (P : UInt16 → Prop) [DecidablePred P] :
    Decidable (∀ u ∈ s, P u) := List.decidableBAll P s

/-- What holds of some of them, too. -/
instance (priority := 2000) (s : JsString) (P : UInt16 → Prop) [DecidablePred P] :
    Decidable (∃ u ∈ s, P u) := List.decidableBEx P s

/-- A sequence of octets. -/
abbrev Bytes := List UInt8

/-- The UTF-16 form of a character. -/
def utf16 (c : Char) : JsString :=
  if c.toNat < 0x10000 then [UInt16.ofNat c.toNat]
  else [UInt16.ofNat (0xD800 + (c.toNat - 0x10000) / 0x400),
    UInt16.ofNat (0xDC00 + (c.toNat - 0x10000) % 0x400)]

/-- The code units of a literal. -/
def js (s : String) : JsString := s.toList.flatMap utf16

/-- A leading surrogate. -/
def isHigh (u : UInt16) : Bool := 0xD800 ≤ u.toNat && u.toNat < 0xDC00

/-- A trailing surrogate. -/
def isLow (u : UInt16) : Bool := 0xDC00 ≤ u.toNat && u.toNat < 0xE000

/-- The character of a surrogate pair. -/
def ofPair (u v : UInt16) : Char :=
  Char.ofNat (0x10000 + (u.toNat - 0xD800) * 0x400 + (v.toNat - 0xDC00))

/-- The character of a code unit read on its own; a lone surrogate reads as `U+FFFD`. -/
def ofUnit (u : UInt16) : Char :=
  if isHigh u || isLow u then '\uFFFD' else Char.ofNat u.toNat

/-- The code points of a string. -/
def toChars : JsString → List Char
  | [] => []
  | [u] => [ofUnit u]
  | u :: v :: s =>
    if isHigh u && isLow v then ofPair u v :: toChars s else ofUnit u :: toChars (v :: s)

section

-- the equations are derived here, once, and not by each proof that unfolds
attribute [local simp] toChars

end

/-- The octets of `Buffer.from(s, 'utf8')`. -/
def utf8 (s : JsString) : Bytes := (toChars s).flatMap String.utf8EncodeChar

/-- A string with every surrogate paired: the UTF-16 form of a list of characters. -/
def WellFormed (s : JsString) : Prop := ∃ cs : List Char, s = cs.flatMap utf16

/-! ## Well-formed strings -/

/-- The empty string is well formed. -/
theorem WellFormed.nil : WellFormed [] := ⟨[], rfl⟩

/-- Well-formed strings concatenate. -/
theorem WellFormed.append {s t : JsString} (hs : WellFormed s) (ht : WellFormed t) :
    WellFormed (s ++ t) := by
  obtain ⟨cs, rfl⟩ := hs
  obtain ⟨ds, rfl⟩ := ht
  exact ⟨cs ++ ds, by simp⟩

/-- A literal is well formed. -/
theorem wellFormed_js (s : String) : WellFormed (js s) := ⟨s.toList, rfl⟩

/-- The number of a character built from a scalar value. -/
theorem toNat_ofNat_of_isValidChar {n : ℕ} (h : n.isValidChar) : (Char.ofNat n).toNat = n := by
  rw [Char.ofNat, dif_pos h]
  rfl

/-- A code unit that is a character is no surrogate. -/
theorem not_surrogate_of_isValidChar {u : UInt16} (h : u.toNat.isValidChar) :
    isHigh u = false ∧ isLow u = false := by
  unfold Nat.isValidChar at h
  simp only [isHigh, isLow, Bool.and_eq_false_iff, decide_eq_false_iff_not]
  omega

/-- A code unit outside the surrogates is well formed on its own. -/
theorem wellFormed_singleton {u : UInt16} (h₁ : isHigh u = false) (h₂ : isLow u = false) :
    WellFormed [u] := by
  have hu := u.toNat_lt
  simp only [isHigh, isLow, Bool.and_eq_false_iff, decide_eq_false_iff_not] at h₁ h₂
  have hv : u.toNat.isValidChar := by
    unfold Nat.isValidChar
    omega
  refine ⟨[Char.ofNat u.toNat], ?_⟩
  have hn : (Char.ofNat u.toNat).toNat = u.toNat :=
    toNat_ofNat_of_isValidChar hv
  simp [utf16, hn, show u.toNat < 0x10000 from hu]

/-- The number of the character of a surrogate pair. -/
theorem toNat_ofPair {u v : UInt16} (hu : isHigh u = true) (hv : isLow v = true) :
    (ofPair u v).toNat = 0x10000 + (u.toNat - 0xD800) * 0x400 + (v.toNat - 0xDC00) := by
  simp only [isHigh, isLow, Bool.and_eq_true, decide_eq_true_eq] at hu hv
  have hval : (0x10000 + (u.toNat - 0xD800) * 0x400 + (v.toNat - 0xDC00)).isValidChar := by
    unfold Nat.isValidChar
    omega
  exact toNat_ofNat_of_isValidChar hval

/-- A surrogate pair is well formed. -/
theorem wellFormed_pair {u v : UInt16} (hu : isHigh u = true) (hv : isLow v = true) :
    WellFormed [u, v] := by
  have hn := toNat_ofPair hu hv
  simp only [isHigh, isLow, Bool.and_eq_true, decide_eq_true_eq] at hu hv
  have hfst : UInt16.ofNat (0xD800 + ((ofPair u v).toNat - 0x10000) / 0x400) = u := by
    apply UInt16.toNat_inj.mp
    rw [hn, UInt16.toNat_ofNat']
    omega
  have hsnd : UInt16.ofNat (0xDC00 + ((ofPair u v).toNat - 0x10000) % 0x400) = v := by
    apply UInt16.toNat_inj.mp
    rw [hn, UInt16.toNat_ofNat']
    omega
  refine ⟨[ofPair u v], ?_⟩
  rw [List.flatMap_cons, List.flatMap_nil, List.append_nil, utf16, if_neg (by omega), hfst, hsnd]

/-- A code unit outside the leading surrogates is read on its own. -/
theorem toChars_cons_of_not_isHigh {u : UInt16} (h : isHigh u = false) (s : JsString) :
    toChars (u :: s) = ofUnit u :: toChars s := by
  cases s with
  | nil => rfl
  | cons v s => rw [toChars, h, Bool.false_and, if_neg Bool.false_ne_true]

/-- A surrogate pair is read at once. -/
theorem toChars_pair {u v : UInt16} (hu : isHigh u = true) (hv : isLow v = true) (s : JsString) :
    toChars (u :: v :: s) = ofPair u v :: toChars s := by
  rw [toChars, hu, hv, Bool.and_self, if_pos rfl]

/-- A character is one unit outside the surrogates, or a surrogate pair. -/
theorem utf16_cases (c : Char) :
    (∃ u, utf16 c = [u] ∧ u.toNat = c.toNat ∧ isHigh u = false ∧ isLow u = false) ∨
      ∃ u v, utf16 c = [u, v] ∧ isHigh u = true ∧ isLow v = true ∧ ofPair u v = c := by
  have hvalid : c.toNat < 0xD800 ∨ 0xDFFF < c.toNat ∧ c.toNat < 0x110000 := c.valid
  unfold utf16
  split_ifs with h
  · have hn : (UInt16.ofNat c.toNat).toNat = c.toNat := by
      rw [UInt16.toNat_ofNat']
      omega
    refine Or.inl ⟨_, rfl, hn, ?_, ?_⟩
    · simp only [isHigh, hn, Bool.and_eq_false_iff, decide_eq_false_iff_not]
      omega
    · simp only [isLow, hn, Bool.and_eq_false_iff, decide_eq_false_iff_not]
      omega
  · have hn : (UInt16.ofNat (0xD800 + (c.toNat - 0x10000) / 0x400)).toNat =
        0xD800 + (c.toNat - 0x10000) / 0x400 := by
      rw [UInt16.toNat_ofNat']
      omega
    have hm : (UInt16.ofNat (0xDC00 + (c.toNat - 0x10000) % 0x400)).toNat =
        0xDC00 + (c.toNat - 0x10000) % 0x400 := by
      rw [UInt16.toNat_ofNat']
      omega
    refine Or.inr ⟨_, _, rfl, ?_, ?_, ?_⟩
    · simp only [isHigh, hn, Bool.and_eq_true, decide_eq_true_eq]
      omega
    · simp only [isLow, hm, Bool.and_eq_true, decide_eq_true_eq]
      omega
    · have harith : 0x10000 + (0xD800 + (c.toNat - 0x10000) / 0x400 - 0xD800) * 0x400 +
          (0xDC00 + (c.toNat - 0x10000) % 0x400 - 0xDC00) = c.toNat := by omega
      rw [ofPair, hn, hm, harith, Char.ofNat_toNat]

/-- Reading the UTF-16 form of a character gives the character back. -/
theorem toChars_utf16_append (c : Char) (s : JsString) :
    toChars (utf16 c ++ s) = c :: toChars s := by
  rcases utf16_cases c with ⟨u, h, hn, hhigh, hlow⟩ | ⟨u, v, h, hhigh, hlow, hpair⟩
  · rw [h, List.singleton_append, toChars_cons_of_not_isHigh hhigh, ofUnit, hhigh, hlow, hn,
      Char.ofNat_toNat]
    rfl
  · rw [h, List.cons_append, List.singleton_append, toChars_pair hhigh hlow, hpair]

/-- Only the empty string has no characters. -/
theorem toChars_ne_nil {s : JsString} (h : s ≠ []) : toChars s ≠ [] := by
  unfold toChars
  split
  · exact absurd rfl h
  · exact List.cons_ne_nil _ _
  · split_ifs <;> exact List.cons_ne_nil _ _

/-- Reading a UTF-16 form gives the characters back. -/
@[simp] theorem toChars_flatMap_utf16 (cs : List Char) : toChars (cs.flatMap utf16) = cs := by
  induction cs with
  | nil => rfl
  | cons c cs ih => rw [List.flatMap_cons, toChars_utf16_append, ih]

/-- A literal is determined by its code units. -/
@[simp] theorem js_inj {s t : String} : js s = js t ↔ s = t := by
  constructor
  · intro h
    have hchars := congrArg toChars h
    rw [js, js, toChars_flatMap_utf16, toChars_flatMap_utf16] at hchars
    exact String.toList_inj.mp hchars
  · rintro rfl
    rfl

/-- Only the empty literal has no code units. -/
@[simp] theorem js_eq_nil_iff {s : String} : js s = [] ↔ s = "" := js_inj (t := "")

/-- The octets of a string determine its code points. -/
theorem toChars_eq_of_utf8_eq {s t : JsString} (h : utf8 s = utf8 t) : toChars s = toChars t := by
  have henc : (String.ofList (toChars s)).toByteArray = (String.ofList (toChars t)).toByteArray := by
    rw [String.toByteArray_ofList, String.toByteArray_ofList]
    exact congrArg List.toByteArray h
  exact String.ofList_injective (String.toByteArray_inj.mp henc)

/-- **The octets of a well-formed string determine it.** -/
theorem utf8_injective {s t : JsString} (hs : WellFormed s) (ht : WellFormed t)
    (h : utf8 s = utf8 t) : s = t := by
  have hchars := toChars_eq_of_utf8_eq h
  obtain ⟨cs, rfl⟩ := hs
  obtain ⟨ds, rfl⟩ := ht
  rw [toChars_flatMap_utf16, toChars_flatMap_utf16] at hchars
  rw [hchars]

/-- A string that reads without a replacement has its surrogates paired. -/
theorem wellFormed_of_toChars {s : JsString} (h : '\uFFFD' ∉ toChars s) : WellFormed s := by
  have hunit : ∀ u, '\uFFFD' ≠ ofUnit u → WellFormed [u] := by
    intro u hu
    unfold ofUnit at hu
    split_ifs at hu with hsurrogate
    · exact absurd rfl hu
    · rw [Bool.or_eq_true, not_or, Bool.not_eq_true, Bool.not_eq_true] at hsurrogate
      exact wellFormed_singleton hsurrogate.1 hsurrogate.2
  induction s using toChars.induct with
  | case1 => exact .nil
  | case2 u =>
    rw [toChars, List.mem_singleton] at h
    exact hunit u h
  | case3 u v s hpair ih =>
    rw [Bool.and_eq_true] at hpair
    rw [toChars_pair hpair.1 hpair.2, List.mem_cons, not_or] at h
    exact (wellFormed_pair hpair.1 hpair.2).append (ih h.2)
  | case4 u v s hpair ih =>
    rw [toChars, if_neg hpair, List.mem_cons, not_or] at h
    exact (hunit u h.1).append (ih h.2)

/-- A string in ASCII reads unit by unit. -/
theorem toChars_of_ascii {s : JsString} (h : ∀ u ∈ s, u.toNat < 128) : toChars s = s.map ofUnit := by
  induction s with
  | nil => rfl
  | cons u s ih =>
    obtain ⟨hu, hs⟩ := List.forall_mem_cons.mp h
    have hhigh : isHigh u = false := by
      simp only [isHigh, Bool.and_eq_false_iff, decide_eq_false_iff_not]
      omega
    rw [toChars_cons_of_not_isHigh hhigh, ih hs, List.map_cons]

/-- **A string with the octets of one in ASCII is that string.** -/
theorem eq_of_utf8_eq_ascii {s t : JsString} (hs : ∀ u ∈ s, u.toNat < 128)
    (h : utf8 t = utf8 s) : t = s := by
  have hreplaced : '\uFFFD' ∉ toChars s := by
    rw [toChars_of_ascii hs]
    intro hmem
    obtain ⟨u, hu, heq⟩ := List.mem_map.mp hmem
    have hlt := hs u hu
    have hvalid : u.toNat.isValidChar := by
      unfold Nat.isValidChar
      omega
    obtain ⟨hhigh, hlow⟩ := not_surrogate_of_isValidChar hvalid
    rw [ofUnit, hhigh, hlow, Bool.or_self, if_neg Bool.false_ne_true] at heq
    have hnat := congrArg Char.toNat heq
    rw [toNat_ofNat_of_isValidChar hvalid] at hnat
    rw [hnat] at hlt
    exact absurd hlt (by decide)
  refine utf8_injective (wellFormed_of_toChars ?_) (wellFormed_of_toChars hreplaced) h
  rw [toChars_eq_of_utf8_eq h]
  exact hreplaced

/-! ## Errors -/

/-- A thrown error: its `name` and its `message`. -/
structure JsError where
  /-- The class, as `error.name` has it. -/
  name : JsString
  /-- The text. -/
  message : JsString
  deriving DecidableEq

/-- `new Error(message)`. -/
def JsError.error (message : JsString) : JsError := ⟨js "Error", message⟩

/-- An error in other words is no success. -/
theorem mapError_eq_ok {ε ε' α : Type*} {f : ε → ε'} {x : Except ε α} {a : α} :
    x.mapError f = .ok a ↔ x = .ok a := by
  cases x <;> simp [Except.mapError]

/-! ## The sort order -/

/-- `a` sorts before `b` or is `b`: code units compare as numbers, left to right. -/
def keyLE (a b : JsString) : Prop := a.map UInt16.toNat ≤ b.map UInt16.toNat

instance : DecidableRel keyLE := fun a b =>
  inferInstanceAs (Decidable (a.map UInt16.toNat ≤ b.map UInt16.toNat))

instance : Std.Total keyLE := ⟨fun a b => le_total (a.map UInt16.toNat) (b.map UInt16.toNat)⟩

instance : IsTrans JsString keyLE := ⟨fun _ _ _ hab hbc => le_trans hab hbc⟩

/-- Two strings that sort before each other are equal. -/
theorem keyLE_antisymm {a b : JsString} (hab : keyLE a b) (hba : keyLE b a) : a = b := by
  have h : a.map UInt16.toNat = b.map UInt16.toNat := le_antisymm hab hba
  exact List.map_injective_iff.mpr (fun _ _ => UInt16.toNat_inj.mp) h

end Js
