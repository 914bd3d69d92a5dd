import AgentEval.Js.OwnKeys
import AgentEval.Rego.Values

/-!
# Documents that are handed over as JSON text

A module is handed a value as the text that `JSON.stringify` writes. A number is then the exact
decimal of that text, and what is not finite is `null`.

* `decimal x` — the number that is written for a double. **`decimal_lt_iff`**: numbers keep their
  order.
* `received v` — what is read of the text; `documentOf` — the document of a JSON value.
* **`get_documentOf`**: the properties of a document.
-/

namespace Rego

open Js

/-! ## Texts -/

/-- The text of a string. -/
def textOf (s : JsString) : String := String.ofList (toChars s)

/-- The text of a literal. -/
@[simp] theorem textOf_js (s : String) : textOf (js s) = s := by
  rw [textOf, js, toChars_flatMap_utf16, String.ofList_toList]

/-- Well-formed strings are told by their texts. -/
theorem textOf_inj {s t : JsString} (hs : WellFormed s) (ht : WellFormed t) :
    textOf s = textOf t ↔ s = t := by
  constructor
  · intro h
    have hchars := String.ofList_injective h
    obtain ⟨cs, rfl⟩ := hs
    obtain ⟨ds, rfl⟩ := ht
    rw [toChars_flatMap_utf16, toChars_flatMap_utf16] at hchars
    rw [hchars]
  · exact congrArg textOf

/-- The text of a string is that of a literal. -/
theorem textOf_eq_iff {s : JsString} (hs : WellFormed s) (t : String) : textOf s = t ↔ s = js t := by
  rw [← textOf_inj hs (wellFormed_js t), textOf_js]

/-! ## Numbers -/

/-- The number that is written for a double. -/
def decimal (x : Double) : ℚ :=
  if hx : 0 < x.val then (shortest x hx).1 * 10 ^ (shortest x hx).2
  else if hx : 0 < x.neg.val then -((shortest x.neg hx).1 * 10 ^ (shortest x.neg hx).2)
  else 0

/-- What is written rounds to what was meant. -/
theorem roundQ_decimal (x : Double) : roundQ (decimal x) = x.val := by
  unfold decimal
  split_ifs with hpos hneg
  · exact roundsTo_shortest x hpos
  · rw [roundQ_neg, roundsTo_shortest x.neg hneg]
    exact neg_neg x.val
  · have hneg' : ¬ 0 < -x.val := hneg
    rw [roundQ_zero]
    linarith

/-- The sign of what is written. -/
theorem decimal_nonneg_iff (x : Double) : 0 ≤ decimal x ↔ 0 ≤ x.val := by
  constructor
  · intro h
    rw [← roundQ_decimal x]
    exact roundQ_nonneg h
  · intro h
    by_contra hlt
    have hneg : 0 ≤ -decimal x := by linarith
    have hround := roundQ_nonneg hneg
    rw [roundQ_neg, roundQ_decimal] at hround
    have hzero : x.val = 0 := le_antisymm (by linarith) h
    unfold decimal at hlt
    have hpos : ¬ 0 < x.val := by linarith
    have hneg' : ¬ 0 < x.neg.val := by
      change ¬ 0 < -x.val
      linarith
    rw [dif_neg hpos, dif_neg hneg'] at hlt
    exact hlt (le_refl 0)

/-- Rounding keeps the order, across the signs too. -/
theorem val_le_of_decimal_le {x y : Double} (h : decimal x ≤ decimal y) : x.val ≤ y.val := by
  by_cases hx : 0 ≤ decimal x
  · rw [← roundQ_decimal x, ← roundQ_decimal y]
    exact roundQ_mono hx h
  · by_cases hy : 0 ≤ decimal y
    · have hxneg := mt (decimal_nonneg_iff x).mpr hx
      have hypos := (decimal_nonneg_iff y).mp hy
      linarith
    · have hround := @roundQ_mono (-decimal y) (-decimal x) (by linarith) (by linarith)
      rw [roundQ_neg, roundQ_neg, roundQ_decimal, roundQ_decimal] at hround
      linarith

/-- **What is written keeps the order of numbers.** -/
theorem decimal_lt_iff {x y : Double} : decimal x < decimal y ↔ x.val < y.val := by
  constructor
  · intro h
    refine lt_of_le_of_ne (val_le_of_decimal_le h.le) fun heq => ?_
    obtain rfl := Double.eq_of_val heq
    exact lt_irrefl _ h
  · intro h
    by_contra hle
    exact absurd (val_le_of_decimal_le (not_lt.mp hle)) (not_le.mpr h)

/-- Zero is written as it is. -/
theorem decimal_zero : decimal ⟨0, isDouble_zero⟩ = 0 := by
  unfold decimal
  rw [dif_neg (lt_irrefl 0), dif_neg]
  change ¬ (0 : ℚ) < -0
  simp

/-! ## Values -/

/-- The value of a Number as it is written. -/
def numberOf : Number → Value
  | .finite x => .num (decimal x)
  | .negZero => .num 0
  | _ => .null

/-- A number is greater than `null`. -/
theorem order_num_null (q : ℚ) : (Value.num q).order .null = .gt := rfl

/-- `null` is less than a number. -/
theorem order_null_num (q : ℚ) : Value.null.order (.num q) = .lt := rfl

/-- `null` is `null`. -/
theorem order_null_null : Value.null.order .null = .eq := rfl

/-- A number is itself. -/
theorem order_num_num (q : ℚ) : (Value.num q).order (.num q) = .eq := Value.order_eq_iff.mpr rfl

/-- **One number is greater than another** as they are written: what is not finite is less than any
number. -/
theorem order_numberOf {a b : Number} : (numberOf a).order (numberOf b) = .gt ↔
    a.isFinite = true ∧ (b.isFinite = true → b.lt a = true) := by
  have hlt : ∀ x y : Double, compare (decimal x) (decimal y) = .gt ↔ y.val < x.val := fun x y => by
    rw [compare_gt_iff_gt, decimal_lt_iff]
  cases a with
  | finite x =>
    cases b with
    | finite y =>
      rw [numberOf, numberOf, Value.order, hlt]
      simp [Number.isFinite, Number.lt, Number.place]
    | negZero =>
      rw [numberOf, numberOf, Value.order, ← decimal_zero, hlt]
      simp [Number.isFinite, Number.lt, Number.place]
    | _ => simp [numberOf, order_num_null, Number.isFinite]
  | negZero =>
    cases b with
    | finite y =>
      rw [numberOf, numberOf, Value.order, ← decimal_zero, hlt]
      simp [Number.isFinite, Number.lt, Number.place]
    | negZero => simp [numberOf, order_num_num, Number.isFinite, Number.lt, Number.place]
    | _ => simp [numberOf, order_num_null, Number.isFinite]
  | _ => cases b <;> simp [numberOf, order_null_num, order_null_null, Number.isFinite]

mutual

/-- The document of a JSON value. -/
def documentOf : JsVal → Value
  | .bool b => .bool b
  | .num x => numberOf x
  | .str s => .str (textOf s)
  | .arr xs => .arr (documentsOf xs)
  | .obj ps => .obj ((propsOf ps).insertionSort fun p q => p.1 ≤ q.1)
  | _ => .null

/-- The documents of the items. -/
def documentsOf : List JsVal → List Value
  | [] => []
  | x :: xs => documentOf x :: documentsOf xs

/-- The documents of the properties. -/
def propsOf : Props → List (String × Value)
  | [] => []
  | (k, v) :: ps => (textOf k, documentOf v) :: propsOf ps

end

/-- What a module reads of the text of a value. -/
def received (v : JsVal) : Option JsVal :=
  match jsonStringify v with
  | .ok (some text) => jsonParse text
  | _ => none

/-- Data is received as it is written. -/
theorem received_data {v : JsVal} (h : v.IsData) : received v = some v.lossy := by
  unfold received
  rw [jsonStringify_data h]
  exact jsonParse_render h.isJson_lossy

/-- All the texts in a value are well formed. -/
def Readable : JsVal → Prop :=
  JsVal.All fun
    | .str s => WellFormed s
    | .obj ps => ∀ p ∈ ps, WellFormed p.1
    | _ => True

/-- What is found under a key does not depend on the order. -/
theorem lookup_perm {β : Type} {ps qs : List (String × β)} (h : ps.Perm qs)
    (hps : (ps.map Prod.fst).Nodup) (k : String) : ps.lookup k = qs.lookup k := by
  induction h with
  | nil => rfl
  | cons p hperm ih =>
    obtain ⟨l, v⟩ := p
    rw [List.lookup_cons, List.lookup_cons, ih (List.nodup_cons.mp hps).2]
  | swap p q ps =>
    obtain ⟨l, v⟩ := p
    obtain ⟨m, w⟩ := q
    simp only [List.lookup_cons]
    cases hl : k == l with
    | false => rfl
    | true =>
      obtain rfl := eq_of_beq hl
      have hm : k ≠ m := fun hkm => by simp [hkm] at hps
      rw [beq_false_of_ne hm]
  | trans hperm hperm' ih ih' =>
    exact (ih hps).trans (ih' ((hperm.map Prod.fst).nodup_iff.mp hps))

/-- The properties as a list. -/
theorem propsOf_eq_map (ps : Props) :
    propsOf ps = ps.map fun p => (textOf p.1, documentOf p.2) := by
  induction ps with
  | nil => rfl
  | cons p ps ih =>
    obtain ⟨k, v⟩ := p
    rw [propsOf, ih, List.map_cons]

/-- **The properties of a document.** -/
theorem get_documentOf {ps : Props} (hps : DistinctKeys ps) (hkeys : ∀ p ∈ ps, WellFormed p.1)
    {k : JsString} {v : JsVal} (hmem : (k, v) ∈ ps) :
    (documentOf (.obj ps)).get (.str (textOf k)) = some (documentOf v) := by
  have hnodup : ((propsOf ps).map Prod.fst).Nodup := by
    rw [propsOf_eq_map, List.map_map]
    have hinj : ∀ p ∈ ps, ∀ q ∈ ps, textOf p.1 = textOf q.1 → p.1 = q.1 := fun p hp q hq heq =>
      (textOf_inj (hkeys p hp) (hkeys q hq)).mp heq
    have hkeys' : (ps.map Prod.fst).map textOf =
        ps.map (Prod.fst ∘ fun p => (textOf p.1, documentOf p.2)) := by
      rw [List.map_map]
      rfl
    rw [← hkeys']
    refine List.Nodup.map_on ?_ hps
    intro a ha b hb heq
    obtain ⟨p, hp, rfl⟩ := List.mem_map.mp ha
    obtain ⟨q, hq, rfl⟩ := List.mem_map.mp hb
    exact hinj p hp q hq heq
  have hfound : (propsOf ps).lookup (textOf k) = some (documentOf v) := by
    have hmem' : (textOf k, documentOf v) ∈ propsOf ps := by
      rw [propsOf_eq_map]
      exact List.mem_map.mpr ⟨(k, v), hmem, rfl⟩
    obtain ⟨before, after, heq⟩ := List.append_of_mem hmem'
    rw [heq, List.map_append, List.map_cons] at hnodup
    rw [heq, List.lookup_eq_some_iff]
    refine ⟨before, after, rfl, fun p hp => bne_iff_ne.mpr fun heqp => ?_⟩
    exact (List.nodup_append.mp hnodup).2.2 _ (List.mem_map_of_mem hp) _ List.mem_cons_self heqp.symm
  rw [documentOf]
  exact (lookup_perm (List.perm_insertionSort _ _).symm hnodup _).symm.trans hfound

end Rego
