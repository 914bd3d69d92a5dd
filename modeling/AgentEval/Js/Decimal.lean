import AgentEval.Js.Number
import AgentEval.Js.Str
import Mathlib.Algebra.Order.Floor.Semifield
import Mathlib.Data.Nat.Digits.Defs
import Mathlib.Data.Nat.Digits.Lemmas

/-!
# Numbers as decimal text

`Number::toString` and the JSON number grammar.

* A `Literal` is the text of an unsigned JSON number: integer digits, fraction digits and an
  optional exponent. `Literal.render` writes it, `scanLiteral` reads it, and **`scanLiteral_render`**
  says that reading inverts writing whatever follows the number, as long as it cannot continue it.
* `shortest x` — the decimal `s * 10 ^ p` with the fewest digits that rounds to the double `x`
  (the nearer of two), and `layout` the way ECMAScript lays those digits out.
* **`parseNumber_toString`**: reading the text of a finite Number other than `-0` gives it back.
-/

namespace Js

/-! ## Digits -/

/-- A decimal digit. -/
def isDigit (u : UInt16) : Bool := 48 ≤ u.toNat && u.toNat ≤ 57

/-- The decimal digits of a natural number, `0` for zero. -/
def natDigits (n : ℕ) : JsString :=
  if n = 0 then [48] else (Nat.digits 10 n).reverse.map fun d => UInt16.ofNat (48 + d)

/-- The natural number written by a list of digits. -/
def digitsValue (ds : JsString) : ℕ := ds.foldl (fun a u => 10 * a + (u.toNat - 48)) 0

/-- Zeros only. -/
def zeros (n : ℕ) : JsString := List.replicate n 48

/-- Appending digits shifts the value. -/
theorem digitsValue_append (ds es : JsString) :
    digitsValue (ds ++ es) = digitsValue ds * 10 ^ es.length + digitsValue es := by
  have key : ∀ (l : JsString) (a : ℕ),
      l.foldl (fun a u => 10 * a + (u.toNat - 48)) a = a * 10 ^ l.length + digitsValue l := by
    intro l
    induction l with
    | nil => intro a; simp [digitsValue]
    | cons u l ih =>
      intro a
      have hcons : digitsValue (u :: l) = (u.toNat - 48) * 10 ^ l.length + digitsValue l := by
        unfold digitsValue
        rw [List.foldl_cons, ih]
        simp [digitsValue]
      rw [List.foldl_cons, ih, hcons, List.length_cons]
      ring
  rw [digitsValue, List.foldl_append, key]
  rfl

/-- Zeros are worth nothing. -/
@[simp] theorem digitsValue_zeros (n : ℕ) : digitsValue (zeros n) = 0 := by
  induction n with
  | zero => rfl
  | succ n ih =>
    have : zeros (n + 1) = [48] ++ zeros n := rfl
    rw [this, digitsValue_append, ih]
    simp [digitsValue]

/-- Zeros are digits. -/
theorem isDigit_of_mem_zeros {n : ℕ} {u : UInt16} (h : u ∈ zeros n) : isDigit u = true := by
  rw [List.eq_of_mem_replicate h]
  rfl

/-- The digits of a number write it. -/
@[simp] theorem digitsValue_natDigits (n : ℕ) : digitsValue (natDigits n) = n := by
  unfold natDigits
  split_ifs with h
  · rw [h]; rfl
  · have hlt : ∀ d ∈ Nat.digits 10 n, d < 10 := fun d hd => Nat.digits_lt_base (by norm_num) hd
    have key : ∀ l : List ℕ, (∀ d ∈ l, d < 10) →
        digitsValue (l.reverse.map fun d => UInt16.ofNat (48 + d)) = Nat.ofDigits 10 l := by
      intro l hl
      induction l with
      | nil => rfl
      | cons d l ih =>
        have hd : d < 10 := hl d (List.mem_cons_self ..)
        rw [List.reverse_cons, List.map_append, digitsValue_append,
          ih fun e he => hl e (List.mem_cons_of_mem _ he), Nat.ofDigits_cons]
        have hu : (UInt16.ofNat (48 + d)).toNat = 48 + d := by
          rw [UInt16.toNat_ofNat']
          omega
        have hone : digitsValue [UInt16.ofNat (48 + d)] = d := by
          simp only [digitsValue, List.foldl_cons, List.foldl_nil, hu]
          omega
        rw [List.map_cons, List.map_nil, hone]
        simp
        ring
    rw [key _ hlt, Nat.ofDigits_digits]

/-- The digits of a number are digits. -/
theorem isDigit_of_mem_natDigits {n : ℕ} {u : UInt16} (h : u ∈ natDigits n) :
    isDigit u = true := by
  unfold natDigits at h
  split_ifs at h with h0
  · rw [List.mem_singleton.mp h]; rfl
  · simp only [List.mem_map, List.mem_reverse] at h
    obtain ⟨d, hd, rfl⟩ := h
    have hd10 : d < 10 := Nat.digits_lt_base (by norm_num) hd
    have hu : (UInt16.ofNat (48 + d)).toNat = 48 + d := by
      rw [UInt16.toNat_ofNat']
      omega
    simp only [isDigit, hu, Bool.and_eq_true, decide_eq_true_eq]
    omega

/-- A number is written with at least one digit. -/
theorem natDigits_ne_nil (n : ℕ) : natDigits n ≠ [] := by
  unfold natDigits
  split_ifs with h
  · exact List.cons_ne_nil _ _
  · intro hnil
    rw [List.map_eq_nil_iff, List.reverse_eq_nil_iff] at hnil
    exact Nat.digits_ne_nil_iff_ne_zero.mpr h hnil

/-- A positive number does not start with a zero. -/
theorem head_natDigits {n : ℕ} (h : n ≠ 0) (hne : natDigits n ≠ []) :
    (natDigits n).head hne ≠ 48 := by
  have hlast := Nat.getLast_digit_ne_zero 10 h
  have hnil : Nat.digits 10 n ≠ [] := Nat.digits_ne_nil_iff_ne_zero.mpr h
  have hlt : (Nat.digits 10 n).getLast hnil < 10 :=
    Nat.digits_lt_base (by norm_num) (List.getLast_mem hnil)
  have hhead : (natDigits n).head hne =
      UInt16.ofNat (48 + (Nat.digits 10 n).getLast hnil) := by
    simp only [natDigits, h, if_false, List.head_map, List.head_reverse]
  rw [hhead]
  intro hc
  have := congrArg UInt16.toNat hc
  rw [UInt16.toNat_ofNat'] at this
  have h48 : (48 : UInt16).toNat = 48 := rfl
  omega

/-! ## The text of an unsigned number -/

/-- The text of an unsigned JSON number. -/
structure Literal where
  /-- The digits before the point. -/
  int : JsString
  /-- The digits after the point, none when there is no point. -/
  frac : JsString
  /-- The exponent, when there is one. -/
  exp : Option ℤ

namespace Literal

/-- The value of a literal. -/
def value (l : Literal) : ℚ :=
  digitsValue (l.int ++ l.frac) * 10 ^ (l.exp.getD 0 - l.frac.length)

/-- The text of an exponent: `e`, a sign, digits. -/
def renderExp (e : ℤ) : JsString :=
  101 :: (if e < 0 then 45 else 43) :: natDigits e.natAbs

/-- The text of a literal. -/
def render (l : Literal) : JsString :=
  l.int ++ (if l.frac = [] then [] else 46 :: l.frac) ++ (l.exp.map renderExp).getD []

/-- What the grammar asks of the parts: digits, at least one before the point, and no leading
zero unless it is the only one. -/
structure Ok (l : Literal) : Prop where
  int_digits : ∀ u ∈ l.int, isDigit u = true
  frac_digits : ∀ u ∈ l.frac, isDigit u = true
  int_head : l.int = [48] ∨ ∃ u us, l.int = u :: us ∧ u ≠ 48

end Literal

/-- What cannot continue a number: the end, or a unit that is no digit, point or exponent mark. -/
def NumberEnd (s : JsString) : Prop :=
  ∀ u us, s = u :: us → isDigit u = false ∧ u ≠ 46 ∧ u ≠ 101 ∧ u ≠ 69

/-- The longest run of digits, and what follows it. -/
def spanDigits (s : JsString) : JsString × JsString := (s.takeWhile isDigit, s.dropWhile isDigit)

/-- `DecimalDigits`, at least one. -/
def scanDigits (s : JsString) : Option (JsString × JsString) :=
  match spanDigits s with
  | ([], _) => none
  | (ds, rest) => some (ds, rest)

/-- The integer part: a lone `0`, or digits that do not start with `0`. -/
def scanInt : JsString → Option (JsString × JsString)
  | 48 :: s => some ([48], s)
  | s => scanDigits s

/-- The fraction, when a point comes next. -/
def scanFrac : JsString → Option (JsString × JsString)
  | 46 :: s => scanDigits s
  | s => some ([], s)

/-- The exponent, when an exponent mark comes next. -/
def scanExp (s : JsString) : Option (Option ℤ × JsString) :=
  match s with
  | [] => some (none, s)
  | u :: us =>
    if u = 101 ∨ u = 69 then
      match us with
      | 45 :: vs => (scanDigits vs).map fun p => (some (-(digitsValue p.1 : ℤ)), p.2)
      | 43 :: vs => (scanDigits vs).map fun p => (some (digitsValue p.1 : ℤ), p.2)
      | _ => (scanDigits us).map fun p => (some (digitsValue p.1 : ℤ), p.2)
    else some (none, s)

/-- An unsigned JSON number at the front of `s`. -/
def scanLiteral (s : JsString) : Option (Literal × JsString) := do
  let (int, s) ← scanInt s
  let (frac, s) ← scanFrac s
  let (exp, s) ← scanExp s
  return (⟨int, frac, exp⟩, s)

/-! ## Reading inverts writing -/

section scan

variable {s ds : JsString}

/-- A run of digits before something that is no digit is read whole. -/
theorem spanDigits_append (hds : ∀ u ∈ ds, isDigit u = true)
    (hs : ∀ u us, s = u :: us → isDigit u = false) : spanDigits (ds ++ s) = (ds, s) := by
  unfold spanDigits
  rw [List.takeWhile_append_of_pos hds, List.dropWhile_append_of_pos hds]
  cases s with
  | nil => simp
  | cons u us => simp [hs u us rfl]

/-- A nonempty run of digits is read whole. -/
theorem scanDigits_append (hne : ds ≠ []) (hds : ∀ u ∈ ds, isDigit u = true)
    (hs : ∀ u us, s = u :: us → isDigit u = false) : scanDigits (ds ++ s) = some (ds, s) := by
  unfold scanDigits
  rw [spanDigits_append hds hs]
  cases ds with
  | nil => exact absurd rfl hne
  | cons u us => rfl

/-- The integer part of a literal is read whole. -/
theorem scanInt_append {l : Literal} (hl : l.Ok)
    (hs : ∀ u us, s = u :: us → isDigit u = false) : scanInt (l.int ++ s) = some (l.int, s) := by
  rcases hl.int_head with h | ⟨u, us, h, hu⟩
  · rw [h]; rfl
  · have hdig := hl.int_digits
    rw [h] at hdig ⊢
    have := scanDigits_append (List.cons_ne_nil u us) hdig hs
    rw [List.cons_append] at this ⊢
    unfold scanInt
    split
    · rename_i heq
      injection heq with h1 _
      exact absurd h1 hu
    · exact this

/-- The fraction of a literal is read whole. -/
theorem scanFrac_append {l : Literal} (hl : l.Ok)
    (hs : ∀ u us, s = u :: us → isDigit u = false ∧ u ≠ 46) :
    scanFrac ((if l.frac = [] then [] else 46 :: l.frac) ++ s) = some (l.frac, s) := by
  split_ifs with h
  · rw [h, List.nil_append]
    cases s with
    | nil => rfl
    | cons u us =>
      have hu := (hs u us rfl).2
      unfold scanFrac
      split
      · rename_i heq
        injection heq with h1 _
        exact absurd h1 hu
      · rfl
  · rw [List.cons_append]
    exact scanDigits_append h hl.frac_digits fun u us hu => (hs u us hu).1

/-- The exponent of a literal is read whole. -/
theorem scanExp_append {e : Option ℤ} (hs : NumberEnd s) :
    scanExp ((e.map Literal.renderExp).getD [] ++ s) = some (e, s) := by
  cases e with
  | none =>
    cases s with
    | nil => rfl
    | cons u us =>
      obtain ⟨-, -, h1, h2⟩ := hs u us rfl
      simp [scanExp, h1, h2]
  | some e =>
    have hd := scanDigits_append (natDigits_ne_nil e.natAbs)
      (fun u hu => isDigit_of_mem_natDigits hu) (fun u us hu => (hs u us hu).1)
    simp only [Option.map_some, Option.getD_some, Literal.renderExp, List.cons_append]
    split_ifs with hneg
    · simp only [scanExp, true_or, if_true, hd, Option.map_some, digitsValue_natDigits]
      congr 3
      omega
    · simp only [scanExp, true_or, if_true, hd, Option.map_some, digitsValue_natDigits]
      congr 3
      omega

/-- **Reading a literal inverts writing it.** -/
theorem scanLiteral_render {l : Literal} (hl : l.Ok) (hs : NumberEnd s) :
    scanLiteral (l.render ++ s) = some (l, s) := by
  have hexp := scanExp_append (e := l.exp) hs
  -- what follows the fraction is an exponent mark or the end of the number
  have htail : ∀ u us, (l.exp.map Literal.renderExp).getD [] ++ s = u :: us →
      isDigit u = false ∧ u ≠ 46 := by
    intro u us h
    cases he : l.exp with
    | none =>
      rw [he] at h
      exact ⟨(hs u us h).1, (hs u us h).2.1⟩
    | some e =>
      rw [he] at h
      injection h with h1 _
      subst h1
      exact ⟨rfl, by decide⟩
  have hmid : ∀ u us, (if l.frac = [] then [] else 46 :: l.frac) ++
      ((l.exp.map Literal.renderExp).getD [] ++ s) = u :: us → isDigit u = false := by
    intro u us h
    split_ifs at h with hf
    · exact (htail u us h).1
    · injection h with h1 _
      subst h1
      rfl
  unfold scanLiteral Literal.render
  rw [List.append_assoc, List.append_assoc, scanInt_append hl hmid]
  simp only [Option.bind_eq_bind, Option.bind_some]
  rw [scanFrac_append hl htail]
  simp only [Option.bind_some]
  rw [hexp]
  rfl

end scan

/-! ## The shortest decimal of a double -/

/-- `x` is below `10` to this power and at least `10` to the power before it. -/
def decade (x : ℚ) : ℤ := Int.log 10 x + 1

/-- The `k`-digit decimal at or below `x`, in units of `10 ^ (decade x - k)`. -/
def digitsBelow (x : ℚ) (k : ℕ) : ℕ := ⌊x * 10 ^ (k - decade x)⌋₊

/-- The decimal `s * 10 ^ p` rounds to `x`. -/
def RoundsTo (x : ℚ) (s : ℕ) (p : ℤ) : Prop := roundQ (s * 10 ^ p) = x

instance (x : ℚ) (s : ℕ) (p : ℤ) : Decidable (RoundsTo x s p) :=
  inferInstanceAs (Decidable (_ = _))

/-- Some `k`-digit decimal rounds to `x`: the one just below or the one just above. -/
def HasDigits (x : ℚ) (k : ℕ) : Prop :=
  1 ≤ k ∧ (RoundsTo x (digitsBelow x k) (decade x - k) ∨
    RoundsTo x (digitsBelow x k + 1) (decade x - k))

instance (x : ℚ) (k : ℕ) : Decidable (HasDigits x k) := inferInstanceAs (Decidable (_ ∧ _))

/-- Every positive double has an exact decimal. -/
theorem exists_hasDigits {x : Double} (hx : 0 < x.val) : ∃ k, HasDigits x.val k := by
  obtain ⟨q, m, e, hm, he, he', hq⟩ := x
  simp only at hx ⊢
  -- with `k` far enough to the right of the decade, the scaled value is an integer
  obtain ⟨k, hk1, hk⟩ : ∃ k : ℕ, 1 ≤ k ∧ 1074 ≤ (k : ℤ) - decade q :=
    ⟨(max 1 (1074 + decade q)).toNat, by omega, by omega⟩
  obtain ⟨j, hj⟩ := Int.eq_ofNat_of_zero_le (show 0 ≤ (k : ℤ) - decade q by omega)
  obtain ⟨i, hi⟩ := Int.eq_ofNat_of_zero_le (show 0 ≤ e + j by omega)
  have hint : q * 10 ^ ((k : ℤ) - decade q) = ((m * 2 ^ i * 5 ^ j : ℤ) : ℚ) := by
    have h10 : (10 : ℚ) ^ (j : ℤ) = 2 ^ (j : ℤ) * 5 ^ (j : ℤ) := by
      rw [← mul_zpow]
      norm_num
    rw [hj, hq, h10, mul_assoc, ← mul_assoc (2 ^ e : ℚ), ← zpow_add₀ (by norm_num), hi]
    push_cast
    rw [zpow_natCast, zpow_natCast]
    ring
  have hpos : 0 ≤ q * 10 ^ ((k : ℤ) - decade q) :=
    mul_nonneg hx.le (zpow_nonneg (by norm_num) _)
  refine ⟨k, hk1, Or.inl ?_⟩
  have hfloor : ((digitsBelow q k : ℕ) : ℚ) = q * 10 ^ ((k : ℤ) - decade q) := by
    unfold digitsBelow
    rw [hint] at hpos ⊢
    obtain ⟨n, hn⟩ := Int.eq_ofNat_of_zero_le (show (0 : ℤ) ≤ m * 2 ^ i * 5 ^ j by exact_mod_cast hpos)
    rw [hn]
    simp
  unfold RoundsTo
  rw [hfloor, mul_assoc, ← zpow_add₀ (by norm_num), show ((k : ℤ) - decade q) + (decade q - k) = 0
    by ring, zpow_zero, mul_one]
  exact roundQ_of_isDouble ⟨m, e, hm, he, he', hq⟩

/-- The fewest digits a decimal needs to round to `x`. -/
def digitCount (x : Double) (hx : 0 < x.val) : ℕ := Nat.find (exists_hasDigits hx)

/-- Of the two `k`-digit neighbours of `x`, the one that rounds to `x`; when both do, the nearer,
and of two equally near ones the even. -/
def nearestDigits (x : ℚ) (k : ℕ) : ℕ :=
  if RoundsTo x (digitsBelow x k) (decade x - k) then
    if RoundsTo x (digitsBelow x k + 1) (decade x - k) then
      if x * 10 ^ (k - decade x) - digitsBelow x k < 1 / 2 then digitsBelow x k
      else if 1 / 2 < x * 10 ^ (k - decade x) - digitsBelow x k then digitsBelow x k + 1
      else if digitsBelow x k % 2 = 0 then digitsBelow x k else digitsBelow x k + 1
    else digitsBelow x k
  else digitsBelow x k + 1

/-- The digits `s` and the exponent `p` of the shortest decimal of a positive double; a carry into
a new digit is dropped again. -/
def shortest (x : Double) (hx : 0 < x.val) : ℕ × ℤ :=
  if nearestDigits x.val (digitCount x hx) = 10 ^ digitCount x hx then
    (10 ^ (digitCount x hx - 1), decade x.val - digitCount x hx + 1)
  else (nearestDigits x.val (digitCount x hx), decade x.val - digitCount x hx)

/-- The chosen neighbour rounds to `x`. -/
theorem roundsTo_nearestDigits {x : ℚ} {k : ℕ} (h : HasDigits x k) :
    RoundsTo x (nearestDigits x k) (decade x - k) := by
  unfold nearestDigits
  split_ifs with h1 h2 <;> first | assumption | exact h.2.resolve_left h1

/-- **The shortest decimal rounds to its double.** -/
theorem roundsTo_shortest (x : Double) (hx : 0 < x.val) :
    RoundsTo x.val (shortest x hx).1 (shortest x hx).2 := by
  have hk : HasDigits x.val (digitCount x hx) := Nat.find_spec (exists_hasDigits hx)
  have h := roundsTo_nearestDigits hk
  unfold shortest
  split_ifs with hc
  · rw [hc] at h
    unfold RoundsTo at h ⊢
    refine Eq.trans (congrArg roundQ ?_) h
    obtain ⟨j, hj⟩ := Nat.exists_eq_add_of_le' hk.1
    simp only [hj, Nat.add_sub_cancel]
    rw [zpow_add_one₀ (by norm_num)]
    push_cast
    ring
  · exact h

/-- The shortest decimal of a positive double is not zero. -/
theorem shortest_ne_zero (x : Double) (hx : 0 < x.val) : (shortest x hx).1 ≠ 0 := by
  intro h0
  have h := roundsTo_shortest x hx
  rw [h0] at h
  unfold RoundsTo at h
  have hz : roundQ ((0 : ℕ) * 10 ^ (shortest x hx).2 : ℚ) = 0 := by
    rw [Nat.cast_zero, zero_mul]
    exact roundQ_of_isDouble ⟨0, 0, by norm_num, by norm_num, by norm_num, by simp⟩
  rw [hz] at h
  exact hx.ne h

/-- One digit less drops the last one. -/
theorem digitsBelow_pred {x : ℚ} (k : ℕ) : digitsBelow x k = digitsBelow x (k + 1) / 10 := by
  rw [digitsBelow, digitsBelow, ← Nat.floor_div_natCast]
  congr 1
  have hexp : ((k + 1 : ℕ) : ℤ) - decade x = ((k : ℤ) - decade x) + 1 := by
    push_cast
    ring
  rw [hexp, zpow_add_one₀ (by norm_num)]
  push_cast
  field_simp

/-- A decimal that ends in a zero is one with a digit less. -/
theorem roundsTo_div_ten {x : ℚ} {s : ℕ} {p : ℤ} (h : RoundsTo x s p) (hs : s % 10 = 0) :
    RoundsTo x (s / 10) (p + 1) := by
  obtain ⟨m, rfl⟩ := Nat.dvd_of_mod_eq_zero hs
  rw [RoundsTo] at h ⊢
  rw [Nat.mul_div_cancel_left m (by norm_num), zpow_add_one₀ (by norm_num), ← h]
  congr 1
  push_cast
  ring

/-- The digits of the shortest decimal are at the neighbours. -/
theorem nearestDigits_eq_or (x : ℚ) (k : ℕ) :
    nearestDigits x k = digitsBelow x k ∨ nearestDigits x k = digitsBelow x k + 1 := by
  unfold nearestDigits
  split_ifs <;> simp

/-- The first digit of a positive number. -/
theorem digitsBelow_one {x : ℚ} (hx : 0 < x) : 1 ≤ digitsBelow x 1 ∧ digitsBelow x 1 ≤ 9 := by
  have hlow : (10 : ℚ) ^ (decade x - 1) ≤ x := by
    rw [decade, add_sub_cancel_right]
    exact_mod_cast Int.zpow_log_le_self (by norm_num) hx
  have hhigh : x < (10 : ℚ) ^ decade x := by
    rw [decade]
    exact_mod_cast Int.lt_zpow_succ_log_self (by norm_num) x
  have hscale : (10 : ℚ) ^ (decade x - 1) * 10 ^ (((1 : ℕ) : ℤ) - decade x) = 1 := by
    rw [← zpow_add₀ (by norm_num), Nat.cast_one, sub_add_sub_cancel', sub_self, zpow_zero]
  have hscale' : (10 : ℚ) ^ decade x * 10 ^ (((1 : ℕ) : ℤ) - decade x) = 10 := by
    rw [← zpow_add₀ (by norm_num), Nat.cast_one, add_sub_cancel, zpow_one]
  have hpos : (0 : ℚ) < 10 ^ (((1 : ℕ) : ℤ) - decade x) := zpow_pos (by norm_num) _
  constructor
  · rw [digitsBelow, Nat.one_le_floor_iff, ← hscale]
    exact mul_le_mul_of_nonneg_right hlow hpos.le
  · rw [digitsBelow, ← Nat.lt_succ_iff, Nat.floor_lt' (by norm_num)]
    refine (mul_lt_mul_of_pos_right hhigh hpos).trans_le ?_
    rw [hscale']
    norm_num

/-- **The shortest decimal does not end in a zero.** -/
theorem shortest_mod_ten (x : Double) (hx : 0 < x.val) : (shortest x hx).1 % 10 ≠ 0 := by
  have hk : HasDigits x.val (digitCount x hx) := Nat.find_spec (exists_hasDigits hx)
  obtain ⟨j, hj⟩ := Nat.exists_eq_add_of_le' hk.1
  have hnear := roundsTo_nearestDigits hk
  have hcases := nearestDigits_eq_or x.val (digitCount x hx)
  unfold shortest
  rw [hj] at hk hnear hcases ⊢
  cases j with
  | zero =>
    -- one digit: it is at least one, and a ten is carried
    obtain ⟨hlow, hhigh⟩ := digitsBelow_one hx
    split_ifs with hten
    · simp
    · simp only [zero_add] at hten hcases ⊢
      rw [pow_one] at hten
      omega
  | succ j =>
    have hmin : ¬ HasDigits x.val (j + 1) := Nat.find_min (exists_hasDigits hx) (by
      change j + 1 < digitCount x hx
      omega)
    -- a zero at the end could be dropped
    have hlast : nearestDigits x.val (j + 1 + 1) % 10 ≠ 0 := by
      intro hzero
      have hround := roundsTo_div_ten hnear hzero
      have hexp : decade x.val - ((j + 1 + 1 : ℕ) : ℤ) + 1 = decade x.val - ((j + 1 : ℕ) : ℤ) := by
        push_cast
        ring
      rw [hexp] at hround
      refine hmin ⟨by omega, ?_⟩
      rw [digitsBelow_pred (j + 1)]
      rcases hcases with heq | heq
      · left
        rwa [heq] at hround
      · right
        have hdiv : nearestDigits x.val (j + 1 + 1) / 10 = digitsBelow x.val (j + 1 + 1) / 10 + 1 := by
          omega
        rwa [hdiv] at hround
    split_ifs with hten
    · exact absurd (by rw [hten, pow_succ, Nat.mul_mod_left]) hlast
    · exact hlast

/-! ## Laying the digits out -/

/-- The layout of the digits `s` with exponent `p`, as `Number::toString` has it: plain up to
`10 ^ 21`, with leading zeros down to `10 ^ -6`, in exponent form beyond. -/
def layout (s : ℕ) (p : ℤ) : Literal :=
  let ds := natDigits s
  let k : ℤ := ds.length
  let n : ℤ := p + k
  if k ≤ n ∧ n ≤ 21 then ⟨ds ++ zeros (n - k).toNat, [], none⟩
  else if 0 < n ∧ n ≤ 21 then ⟨ds.take n.toNat, ds.drop n.toNat, none⟩
  else if -6 < n ∧ n ≤ 0 then ⟨[48], zeros (-n).toNat ++ ds, none⟩
  else ⟨ds.take 1, ds.drop 1, some (n - 1)⟩

/-- A positive number's digits, split at the first. -/
theorem exists_natDigits_eq_cons {s : ℕ} (h : s ≠ 0) :
    ∃ u us, natDigits s = u :: us ∧ u ≠ 48 := by
  have hne := natDigits_ne_nil s
  have hhead := head_natDigits h hne
  cases hd : natDigits s with
  | nil => exact absurd hd hne
  | cons u us =>
    refine ⟨u, us, rfl, ?_⟩
    simpa only [hd, List.head_cons] using hhead

/-- A layout is a number of the grammar. -/
theorem layout_ok {s : ℕ} (h : s ≠ 0) (p : ℤ) : (layout s p).Ok := by
  obtain ⟨u, us, hds, hu⟩ := exists_natDigits_eq_cons h
  have hdig : ∀ v ∈ natDigits s, isDigit v = true := fun v hv => isDigit_of_mem_natDigits hv
  have hzero : ∀ n, ∀ v ∈ zeros n, isDigit v = true := fun n v hv => isDigit_of_mem_zeros hv
  unfold layout
  dsimp only
  split_ifs with h1 h2 h3
  · refine ⟨fun v hv => ?_, by simp, Or.inr ⟨u, us ++ zeros _, by rw [hds]; rfl, hu⟩⟩
    rcases List.mem_append.mp hv with hv | hv
    · exact hdig v hv
    · exact hzero _ v hv
  · refine ⟨fun v hv => hdig v (List.mem_of_mem_take hv),
      fun v hv => hdig v (List.mem_of_mem_drop hv), Or.inr ?_⟩
    obtain ⟨j, hj⟩ := Nat.exists_eq_succ_of_ne_zero (show (p + (natDigits s).length).toNat ≠ 0 by omega)
    exact ⟨u, us.take j, by rw [hj, hds, List.take_succ_cons], hu⟩
  · refine ⟨fun v hv => ?_, fun v hv => ?_, Or.inl rfl⟩
    · rw [List.mem_singleton.mp hv]; rfl
    · rcases List.mem_append.mp hv with hv | hv
      · exact hzero _ v hv
      · exact hdig v hv
  · exact ⟨fun v hv => hdig v (List.mem_of_mem_take hv),
      fun v hv => hdig v (List.mem_of_mem_drop hv), Or.inr ⟨u, [], by rw [hds]; rfl, hu⟩⟩

/-- A layout has the value of its digits. -/
theorem value_layout {s : ℕ} (h : s ≠ 0) (p : ℤ) : (layout s p).value = s * 10 ^ p := by
  obtain ⟨u, us, hds, -⟩ := exists_natDigits_eq_cons h
  have hval := digitsValue_natDigits s
  unfold layout
  dsimp only
  split_ifs with h1 h2 h3
  · obtain ⟨j, hj⟩ := Int.eq_ofNat_of_zero_le (show 0 ≤ p by omega)
    simp only [Literal.value, List.append_nil, digitsValue_append, digitsValue_zeros, hval,
      Option.getD_none, List.length_nil]
    rw [show (p + ((natDigits s).length : ℤ) - (natDigits s).length).toNat = j by omega]
    simp [zeros, hj]
  · simp only [Literal.value, List.take_append_drop, hval, Option.getD_none, List.length_drop]
    congr 2
    omega
  · obtain ⟨j, hj⟩ := Int.eq_ofNat_of_zero_le (show 0 ≤ -(p + ((natDigits s).length : ℤ)) by omega)
    have hz : digitsValue ([48] ++ (zeros j ++ natDigits s)) = s := by
      rw [digitsValue_append, digitsValue_append, digitsValue_zeros, hval]
      simp [digitsValue]
    simp only [Literal.value, hj, Int.toNat_natCast, hz, Option.getD_none, List.length_append]
    congr 2
    simp only [zeros, List.length_replicate]
    push_cast
    omega
  · simp only [Literal.value, List.take_append_drop, hval, Option.getD_some, List.length_drop]
    congr 2
    have : 1 ≤ (natDigits s).length := by rw [hds]; simp
    omega

/-! ## `Number::toString` and its inverse -/

namespace Number

/-- The text of a positive double. -/
def renderPos (x : Double) (hx : 0 < x.val) : JsString :=
  (layout (shortest x hx).1 (shortest x hx).2).render

/-- `Number::toString` in radix 10. -/
def toString : Number → JsString
  | nan => js "NaN"
  | infinity true => js "-Infinity"
  | infinity false => js "Infinity"
  | negZero => [48]
  | finite x =>
    if hx : 0 < x.val then renderPos x hx
    else if hn : 0 < -x.val then 45 :: renderPos x.neg hn
    else [48]

end Number

/-- The Number of a signed literal. -/
def Literal.toNumber (neg : Bool) (l : Literal) : Number :=
  if neg then
    if l.value = 0 then .negZero else .ofRat (-l.value)
  else .ofRat l.value

/-- A JSON number at the front of `s`. -/
def parseNumber : JsString → Option (Number × JsString)
  | 45 :: s => (scanLiteral s).map fun p => (p.1.toNumber true, p.2)
  | s => (scanLiteral s).map fun p => (p.1.toNumber false, p.2)

namespace Number

/-- A number that rounds to a nonzero double is its Number. -/
theorem ofRat_of_roundQ {q : ℚ} {x : Double} (h : roundQ q = x.val) (hx : x.val ≠ 0) :
    ofRat q = finite x := by
  have hlt := x.isDouble.abs_lt
  unfold ofRat
  have hneg : ¬ (x.val = 0 ∧ q < 0) := fun h0 => hx h0.1
  simp only [h, hlt, hneg, if_false, dite_true]

/-- A positive double is read back from its text. -/
theorem scanLiteral_renderPos {x : Double} (hx : 0 < x.val) {s : JsString} (hs : NumberEnd s) :
    ∃ l : Literal, scanLiteral (renderPos x hx ++ s) = some (l, s) ∧ roundQ l.value = x.val := by
  have hne := shortest_ne_zero x hx
  refine ⟨_, scanLiteral_render (layout_ok hne _) hs, ?_⟩
  rw [value_layout hne]
  exact roundsTo_shortest x hx

/-- The text of a positive double starts with a digit. -/
theorem exists_renderPos_eq_cons {x : Double} (hx : 0 < x.val) :
    ∃ u us, renderPos x hx = u :: us ∧ isDigit u = true := by
  have hok := layout_ok (shortest_ne_zero x hx) (shortest x hx).2
  unfold renderPos Literal.render
  rcases hok.int_head with h | ⟨u, us, h, -⟩
  · rw [h]
    exact ⟨48, _, rfl, rfl⟩
  · rw [h]
    exact ⟨u, _, rfl, hok.int_digits u (by rw [h]; exact List.mem_cons_self ..)⟩

/-- A number that starts with a digit has no sign. -/
theorem parseNumber_of_isDigit {u : UInt16} {us : JsString} (hu : isDigit u = true) :
    parseNumber (u :: us) =
      (scanLiteral (u :: us)).map fun p => (p.1.toNumber false, p.2) := by
  unfold parseNumber
  split
  · rename_i heq
    injection heq with h1 _
    subst h1
    exact absurd hu (by decide)
  · rfl

/-- **The text of a finite Number other than `-0` reads back as that Number**, whatever follows. -/
theorem parseNumber_toString (x : Double) {s : JsString} (hs : NumberEnd s) :
    parseNumber (toString (finite x) ++ s) = some (finite x, s) := by
  simp only [toString]
  split_ifs with hx hn
  · obtain ⟨l, hl, hval⟩ := scanLiteral_renderPos hx hs
    obtain ⟨u, us, hu, hdig⟩ := exists_renderPos_eq_cons hx
    rw [hu, List.cons_append] at hl ⊢
    rw [parseNumber_of_isDigit hdig, hl]
    simp only [Option.map_some, Literal.toNumber, if_false, Bool.false_eq_true]
    rw [ofRat_of_roundQ hval hx.ne']
  · obtain ⟨l, hl, hval⟩ := scanLiteral_renderPos (x := x.neg) hn hs
    rw [Double.neg_val] at hval
    have hx0 : x.val ≠ 0 := by
      intro h0
      rw [h0] at hn
      norm_num at hn
    have hl0 : l.value ≠ 0 := by
      intro h0
      rw [h0] at hval
      have hz : roundQ 0 = 0 :=
        roundQ_of_isDouble ⟨0, 0, by norm_num, by norm_num, by norm_num, by simp⟩
      rw [hz] at hval
      linarith
    have hneg : roundQ (-l.value) = x.val := by
      rw [roundQ_neg, hval]
      ring
    rw [List.cons_append]
    simp only [parseNumber, hl, Option.map_some, Literal.toNumber, if_true, hl0, if_false]
    rw [ofRat_of_roundQ hneg hx0]
  · have hx0 : x.val = 0 := by linarith
    have hok : (⟨[48], [], none⟩ : Literal).Ok :=
      ⟨fun u hu => by rw [List.mem_singleton.mp hu]; rfl, by simp, Or.inl rfl⟩
    have hl := scanLiteral_render hok hs
    have h0 : (⟨[48], [], none⟩ : Literal).render ++ s = 48 :: s := rfl
    rw [h0] at hl
    rw [List.singleton_append, parseNumber_of_isDigit rfl, hl]
    have hv : (⟨[48], [], none⟩ : Literal).value = x.val := by
      rw [hx0]
      simp [Literal.value, digitsValue]
    simp only [Option.map_some, Literal.toNumber, if_false, Bool.false_eq_true, hv]
    rw [ofRat_val]

/-- The texts of naturals below `2 ^ 53` tell them apart. -/
theorem toString_ofNat_injOn {a b : ℕ} (ha : a < 2 ^ 53) (hb : b < 2 ^ 53)
    (h : (ofNat a).toString = (ofNat b).toString) : a = b := by
  have hend : NumberEnd [] := fun _ _ h => absurd h (by simp)
  rw [ofNat_eq ha, ofNat_eq hb] at h
  have hread := parseNumber_toString ⟨a, isDouble_natCast ha⟩ hend
  rw [h, parseNumber_toString ⟨b, isDouble_natCast hb⟩ hend] at hread
  refine ofNat_injOn ha hb ?_
  rw [ofNat_eq ha, ofNat_eq hb]
  exact (congrArg Prod.fst (Option.some.inj hread)).symm

end Number

/-! ## Integers -/

/-- White space and line terminators. -/
def isWhiteSpace (u : UInt16) : Bool :=
  (9 ≤ u && u ≤ 13) || (0x2000 ≤ u && u ≤ 0x200A) ||
    [0x20, 0xA0, 0x1680, 0x2028, 0x2029, 0x202F, 0x205F, 0x3000, 0xFEFF].contains u

/-- `s.trim()`. -/
def trim (s : JsString) : JsString :=
  ((s.dropWhile isWhiteSpace).reverse.dropWhile isWhiteSpace).reverse

/-- `Number.parseInt(s, 10)`: white space, a sign, and the digits up to the first other code unit. -/
def parseInt (s : JsString) : Number :=
  let unsigned (neg : Bool) (t : JsString) : Number :=
    match t.takeWhile isDigit with
    | [] => .nan
    | ds =>
      if !neg then .ofNat (digitsValue ds)
      else if digitsValue ds = 0 then .negZero
      else .ofInt (-digitsValue ds)
  match s.dropWhile isWhiteSpace with
  | 43 :: t => unsigned false t
  | 45 :: t => unsigned true t
  | t => unsigned false t

/-- A digit is no white space and no sign. -/
theorem not_isWhiteSpace_of_isDigit {u : UInt16} (h : isDigit u = true) :
    isWhiteSpace u = false ∧ u ≠ 43 ∧ u ≠ 45 := by
  unfold isDigit at h
  rw [Bool.and_eq_true, decide_eq_true_iff, decide_eq_true_iff] at h
  obtain ⟨k, hk, rfl⟩ : ∃ k : ℕ, k < 10 ∧ u = UInt16.ofNat (48 + k) := by
    refine ⟨u.toNat - 48, by omega, ?_⟩
    rw [Nat.add_sub_cancel' h.1, UInt16.ofNat_toNat]
  clear h
  revert k
  decide

/-- A text of digits is read as their value. -/
theorem parseInt_of_digits {ds : JsString} (hne : ds ≠ []) (hds : ∀ u ∈ ds, isDigit u = true) :
    parseInt ds = .ofNat (digitsValue ds) := by
  obtain ⟨u, us, rfl⟩ := List.exists_cons_of_ne_nil hne
  obtain ⟨hspace, hplus, hminus⟩ := not_isWhiteSpace_of_isDigit (hds u (List.mem_cons_self ..))
  have hall : (u :: us).takeWhile isDigit = u :: us := by
    have h := congrArg Prod.fst (spanDigits_append (s := []) hds fun _ _ h => absurd h.symm (by simp))
    rwa [spanDigits, List.append_nil] at h
  unfold parseInt
  rw [List.dropWhile_cons_of_neg (by rw [hspace]; decide)]
  dsimp only
  split
  · rename_i heq
    exact absurd (List.cons.inj heq).1 hplus
  · rename_i heq
    exact absurd (List.cons.inj heq).1 hminus
  · rw [hall]
    rfl

/-- A natural number has no more digits than it is written with. -/
theorem exponent_shortest_nonneg {n : ℕ} (h : IsDouble (n : ℚ)) (hpos : (0 : ℚ) < n) :
    0 ≤ (shortest ⟨n, h⟩ hpos).2 := by
  have hdecade : decade (n : ℚ) = ((Nat.log 10 n + 1 : ℕ) : ℤ) := by
    rw [decade, Int.log_natCast]
    rfl
  have hdigits : HasDigits (n : ℚ) (Nat.log 10 n + 1) := by
    have hbelow : digitsBelow (n : ℚ) (Nat.log 10 n + 1) = n := by
      rw [digitsBelow, hdecade, sub_self, zpow_zero, mul_one, Nat.floor_natCast]
    refine ⟨Nat.succ_le_succ (Nat.zero_le _), .inl ?_⟩
    rw [hbelow, hdecade, sub_self, RoundsTo, zpow_zero, mul_one]
    exact roundQ_of_isDouble h
  have hcount : digitCount ⟨n, h⟩ hpos ≤ Nat.log 10 n + 1 :=
    Nat.find_min' _ hdigits
  have hle : (digitCount ⟨n, h⟩ hpos : ℤ) ≤ decade (n : ℚ) := by
    rw [hdecade]
    exact_mod_cast hcount
  unfold shortest
  split_ifs
  · exact add_nonneg (sub_nonneg.mpr hle) zero_le_one
  · exact sub_nonneg.mpr hle

/-- **The text of a natural number** is one of digits, of the same value. -/
theorem exists_digits_toString {n : ℕ} (h : n < 2 ^ 53) :
    (Number.ofNat n).toString ≠ [] ∧ (∀ u ∈ (Number.ofNat n).toString, isDigit u = true) ∧
      Number.ofNat (digitsValue (Number.ofNat n).toString) = Number.ofNat n := by
  rcases Nat.eq_zero_or_pos n with rfl | hpos
  · rw [Number.ofNat_eq h, Number.toString, dif_neg (by norm_num), dif_neg (by norm_num)]
    refine ⟨List.cons_ne_nil _ _, ?_, ?_⟩
    · simp [isDigit]
    · rw [← Number.ofNat_eq h]
      rfl
  · have hx : (0 : ℚ) < n := Nat.cast_pos.mpr hpos
    have hne := shortest_ne_zero ⟨n, Number.isDouble_natCast h⟩ hx
    have hround := roundsTo_shortest ⟨n, Number.isDouble_natCast h⟩ hx
    obtain ⟨j, hj⟩ := Int.eq_ofNat_of_zero_le (exponent_shortest_nonneg (Number.isDouble_natCast h) hx)
    generalize hs : (shortest ⟨n, Number.isDouble_natCast h⟩ hx).1 = s at hne hround
    rw [hj, RoundsTo, zpow_natCast] at hround
    change _ = (n : ℚ) at hround
    have hsmall : s * 10 ^ j < 10 ^ 21 := by
      by_contra hlarge
      have hle : ((2 : ℚ) ^ 60) ≤ s * 10 ^ j := by
        have hpow : 2 ^ 60 ≤ s * 10 ^ j := le_trans (by norm_num) (not_lt.mp hlarge)
        exact_mod_cast hpow
      have hdouble : IsDouble ((2 : ℚ) ^ 60) := ⟨1, 60, by norm_num, by norm_num, by norm_num, by norm_num⟩
      have hbig := le_roundQ_of_isDouble hdouble hle
      rw [hround] at hbig
      have hnat : 2 ^ 60 ≤ n := by exact_mod_cast hbig
      exact absurd (hnat.trans_lt h) (by norm_num)
    have hlength : (natDigits s).length + j ≤ 21 := by
      have hone : 10 ^ j ≤ s * 10 ^ j := Nat.le_mul_of_pos_left _ (Nat.pos_of_ne_zero hne)
      have hj21 : j < 21 := (Nat.pow_lt_pow_iff_right (by norm_num)).mp (hone.trans_lt hsmall)
      have hs21 : s < 10 ^ (21 - j) := by
        rw [← Nat.sub_add_cancel hj21.le, pow_add] at hsmall
        exact Nat.lt_of_mul_lt_mul_right hsmall
      have hdigits := (Nat.digits_length_le_iff (by norm_num) s).mpr hs21
      rw [natDigits, if_neg hne, List.length_map, List.length_reverse]
      omega
    have htext : (Number.ofNat n).toString = natDigits s ++ zeros j := by
      rw [Number.ofNat_eq h, Number.toString, dif_pos hx, Number.renderPos, hs, hj, layout,
        if_pos ⟨by simp, by omega⟩]
      simp [Literal.render]
    rw [htext]
    refine ⟨List.append_ne_nil_of_left_ne_nil (natDigits_ne_nil s) _, fun u hu => ?_, ?_⟩
    · rcases List.mem_append.mp hu with hu | hu
      · exact isDigit_of_mem_natDigits hu
      · exact isDigit_of_mem_zeros hu
    · rw [digitsValue_append, digitsValue_natDigits, digitsValue_zeros, add_zero, zeros,
        List.length_replicate, Number.ofNat_eq h, Number.ofNat]
      refine Number.ofRat_of_roundQ ?_ hx.ne'
      push_cast
      exact hround

/-- **A small natural number is read back from its text.** -/
theorem parseInt_toString_ofNat {n : ℕ} (h : n < 2 ^ 53) :
    parseInt (Number.ofNat n).toString = .ofNat n := by
  obtain ⟨hne, hdigits, hvalue⟩ := exists_digits_toString h
  rw [parseInt_of_digits hne hdigits, hvalue]

/-- `Number.isInteger`. -/
def Number.isInteger : Number → Bool
  | negZero => true
  | finite x => x.val.den = 1
  | _ => false

/-- A small natural number is an integer. -/
theorem Number.isInteger_ofNat {n : ℕ} (h : n < 2 ^ 53) : (ofNat n).isInteger = true := by
  rw [ofNat_eq h]
  exact decide_eq_true (Rat.den_natCast n)

/-! ## Base 36 -/

/-- A digit in base 36. -/
def digit36 (d : ℕ) : UInt16 := UInt16.ofNat (if d < 10 then 48 + d else 87 + d)

/-- What a digit in base 36 is worth. -/
def value36 (u : UInt16) : ℕ := if u.toNat < 58 then u.toNat - 48 else u.toNat - 87

/-- A digit is worth what it writes. -/
theorem value36_digit36 : ∀ d < 36, value36 (digit36 d) = d := by decide

/-- The digits of a number in base 36, `0` for zero. -/
def digits36 (n : ℕ) : List ℕ := if n = 0 then [0] else (Nat.digits 36 n).reverse

/-- A digit is below the base. -/
theorem lt_of_mem_digits36 {n d : ℕ} (h : d ∈ digits36 n) : d < 36 := by
  unfold digits36 at h
  split_ifs at h
  · rw [List.mem_singleton.mp h]
    norm_num
  · exact Nat.digits_lt_base (by norm_num) (List.mem_reverse.mp h)

/-- The digits of a number write it. -/
theorem ofDigits_digits36 (n : ℕ) : Nat.ofDigits 36 (digits36 n).reverse = n := by
  unfold digits36
  split_ifs with hn
  · rw [hn]
    rfl
  · rw [List.reverse_reverse, Nat.ofDigits_digits]

/-- A larger number has no fewer digits. -/
theorem length_digits36_mono {m n : ℕ} (h : m ≤ n) :
    (digits36 m).length ≤ (digits36 n).length := by
  unfold digits36
  by_cases hm : m = 0
  · rw [if_pos hm]
    split_ifs with hn
    · exact le_rfl
    · rw [List.length_reverse]
      exact List.length_pos_of_ne_nil (Nat.digits_ne_nil_iff_ne_zero.mpr hn)
  · rw [if_neg hm, if_neg (by omega), List.length_reverse, List.length_reverse]
    exact Nat.le_length_digits_le 36 m n h

/-- `n.toString(36)` on an integer. -/
def toBase36 (n : ℤ) : JsString :=
  let digits :=
    (Nat.digits 36 n.natAbs).reverse.map fun d => UInt16.ofNat (if d < 10 then 48 + d else 87 + d)
  if n = 0 then [48] else if n < 0 then 45 :: digits else digits

/-- The text of a natural number. -/
theorem toBase36_natCast (n : ℕ) : toBase36 n = (digits36 n).map digit36 := by
  unfold toBase36 digits36
  by_cases hn : n = 0
  · subst hn
    rfl
  · rw [if_neg (by exact_mod_cast hn), if_neg (by omega), if_neg hn, Int.natAbs_natCast]
    rfl

/-- **A natural number is read off its text.** -/
theorem toBase36_injective {m n : ℕ} (h : toBase36 m = toBase36 n) : m = n := by
  have hvalues : ∀ n, ((digits36 n).map digit36).map value36 = digits36 n := by
    intro n
    have hid : ∀ d ∈ digits36 n, (value36 ∘ digit36) d = id d :=
      fun d hd => value36_digit36 d (lt_of_mem_digits36 hd)
    rw [List.map_map, List.map_congr_left hid, List.map_id]
  rw [toBase36_natCast, toBase36_natCast] at h
  have hdigits : digits36 m = digits36 n := by rw [← hvalues m, h, hvalues n]
  rw [← ofDigits_digits36 m, hdigits, ofDigits_digits36]

/-- **A time and a counter that both go up give new texts**, though nothing stands between the two:
equal texts have parts of equal length. -/
theorem toBase36_append_ne {t t' : ℤ} {c c' : ℕ} (ht : 0 ≤ t) (htt : t ≤ t') (hcc : c < c') :
    toBase36 t ++ toBase36 c ≠ toBase36 t' ++ toBase36 c' := by
  obtain ⟨m, rfl⟩ := Int.eq_ofNat_of_zero_le ht
  obtain ⟨n, rfl⟩ := Int.eq_ofNat_of_zero_le (ht.trans htt)
  have hlength : ∀ n : ℕ, (toBase36 n).length = (digits36 n).length := fun n => by
    rw [toBase36_natCast, List.length_map]
  intro h
  have htotal := congrArg List.length h
  rw [List.length_append, List.length_append, hlength, hlength, hlength, hlength] at htotal
  have htime := length_digits36_mono (Int.ofNat_le.mp htt)
  have hcount := length_digits36_mono hcc.le
  obtain ⟨-, hcounter⟩ := List.append_inj h (by rw [hlength, hlength]; omega)
  exact hcc.ne (toBase36_injective hcounter)

end Js
