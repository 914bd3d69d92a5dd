import AgentEval.Paging.Offset
import AgentEval.Store.Stores

/-!
# `store/index.ts`: lists that are read in pages

A cursor is the text of an offset. `paginate` reads it as a number, cuts the list there, and gives the
next offset as long as it is within the list.

* **`paginate_eq`**: a page is what a reader of the list at that offset reads.
-/

namespace AgentEval.Store

open Js Evidence Paging

/-! ## `Array.prototype.slice` -/

/-- A relative index in a list of a length. -/
def sliceIndex (length : ℕ) : Number → ℕ
  | .nan => 0
  | .infinity neg => if neg then 0 else length
  | .negZero => 0
  | .finite x =>
    if Number.trunc x.val < 0 then (length + Number.trunc x.val).toNat
    else min (Number.trunc x.val).toNat length

/-- The items from one index up to another. -/
def slice {α : Type*} (items : List α) (first last : Number) : List α :=
  (items.take (sliceIndex items.length last)).drop (sliceIndex items.length first)

/-- A small natural is its own index. -/
theorem sliceIndex_ofNat {n : ℕ} (hn : n < 2 ^ 53) (length : ℕ) :
    sliceIndex length (.ofNat n) = min n length := by
  have htrunc : Number.trunc (n : ℚ) = n := by
    unfold Number.trunc
    rw [if_neg (not_lt.mpr (Nat.cast_nonneg n)), Int.floor_natCast]
  rw [Number.ofNat_eq hn, sliceIndex, htrunc, if_neg (not_lt.mpr (Int.natCast_nonneg n)),
    Int.toNat_natCast]

/-- An index at or after the end is the end. -/
theorem sliceIndex_of_le {length : ℕ} {x : Number} (hlength : length < 2 ^ 53)
    (h : (Number.ofNat length).le x = true) : sliceIndex length x = length := by
  rw [Number.ofNat_eq hlength] at h
  cases x with
  | nan => cases h
  | infinity neg =>
    cases neg with
    | true =>
      unfold Number.le at h
      exact absurd (le_bot_iff.mp (of_decide_eq_true h)) WithBot.coe_ne_bot
    | false => rfl
  | negZero =>
    have hle : (length : ℚ) ≤ 0 :=
      WithTop.coe_le_coe.mp (WithBot.coe_le_coe.mp (of_decide_eq_true h))
    rw [Nat.cast_eq_zero.mp (le_antisymm hle (Nat.cast_nonneg length))]
    rfl
  | finite x =>
    have hle : (length : ℚ) ≤ x.val :=
      WithTop.coe_le_coe.mp (WithBot.coe_le_coe.mp (of_decide_eq_true h))
    have hfloor : (length : ℤ) ≤ ⌊x.val⌋ := Int.le_floor.mpr (by exact_mod_cast hle)
    have htrunc : Number.trunc x.val = ⌊x.val⌋ := by
      unfold Number.trunc
      rw [if_neg (not_lt.mpr ((Nat.cast_nonneg length).trans hle))]
    rw [sliceIndex, htrunc, if_neg (not_lt.mpr ((Int.natCast_nonneg length).trans hfloor))]
    exact Nat.min_eq_right (Int.toNat_natCast length ▸ Int.toNat_le_toNat hfloor)

/-! ## Pages -/

/-- Source: `store/index.ts`, `Page` -/
structure Page (α : Type*) where
  /-- The items. -/
  items : List α
  /-- Where the next page begins, when there is one. -/
  nextCursor : Option JsString

/-- The offset of a cursor; an empty cursor counts as none.
Source: `store/index.ts`, `paginate` -/
def cursorStart (cursor : Option JsString) : Number :=
  ((cursor.filter (· ≠ [])).map parseInt).getD (.ofNat 0)

/-- Source: `store/index.ts`, `paginate` -/
def paginate {α : Type*} (items : List α) (cursor : Option JsString) (limit : Number) : Page α :=
  let start := cursorStart cursor
  let next := start.add limit
  ⟨slice items start next, if next.lt (.ofNat items.length) then some next.toString else none⟩

/-- A cursor that a page of the list has given, or none for the first page. -/
def CursorAt (offset : ℕ) (cursor : Option JsString) : Prop :=
  (offset = 0 ∧ cursor = none) ∨ cursor = some (Number.ofNat offset).toString

section

variable {α : Type*} {items : List α} {offset : ℕ} {cursor : Option JsString}

/-- A cursor is read as its offset. -/
theorem CursorAt.cursorStart (h : CursorAt offset cursor) (hoffset : offset < 2 ^ 53) :
    cursorStart cursor = .ofNat offset := by
  rcases h with ⟨rfl, rfl⟩ | rfl
  · rfl
  · obtain ⟨hne, -⟩ := exists_digits_toString hoffset
    unfold Store.cursorStart
    rw [Option.filter_some, if_pos (decide_eq_true hne), Option.map_some, Option.getD_some,
      parseInt_toString_ofNat hoffset]

/-- **A page is what is read at its offset**, and there is a next one if something is left. -/
theorem paginate_eq (h : CursorAt offset cursor) (hoffset : offset ≤ items.length)
    (hitems : items.length < 2 ^ 53) (limit : ℕ) :
    paginate items cursor (.ofNat limit) = ⟨(items.drop offset).take limit,
      if offset + limit < items.length then some (Number.ofNat (offset + limit)).toString
      else none⟩ := by
  have hsmall : offset < 2 ^ 53 := hoffset.trans_lt hitems
  have hstart := h.cursorStart hsmall
  unfold paginate
  rw [hstart]
  dsimp only
  rcases Nat.lt_or_ge (offset + limit) items.length with hmore | hlast
  · have hlimit : limit < 2 ^ 53 := (Nat.le_add_left ..).trans_lt (hmore.trans hitems)
    have hnext := hmore.trans hitems
    rw [Number.add_ofNat hsmall hlimit, Number.lt_ofNat hnext hitems, slice,
      sliceIndex_ofNat hsmall, sliceIndex_ofNat hnext, Nat.min_eq_left hoffset,
      Nat.min_eq_left hmore.le, decide_eq_true hmore, if_pos rfl, if_pos hmore, List.drop_take,
      Nat.add_sub_cancel_left]
  · have hle := Number.le_add_ofNat hsmall hitems hlast
    have hdrop : (items.drop offset).length ≤ limit := by
      rw [List.length_drop]
      omega
    rw [Number.lt_eq_false_of_le hle, slice, sliceIndex_ofNat hsmall, sliceIndex_of_le hitems hle,
      Nat.min_eq_left hoffset, List.take_length, if_neg Bool.false_ne_true, if_neg (not_lt.mpr hlast),
      List.take_of_length_le hdrop]

end

end AgentEval.Store
