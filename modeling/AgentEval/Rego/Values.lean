import Mathlib.Algebra.Order.Ring.Rat
import Mathlib.Data.String.Basic
import Mathlib.Order.Compare

/-!
# Values of Rego

A value is a JSON value with exact numbers, or a set. The properties of an object are listed by their
keys and the elements of a set in the order of the language, so that equal values are one value.

* `Value.order` — the order of the language: `null`, booleans, numbers, strings, arrays, objects,
  sets. **`order_eq_iff`**: what it does not tell apart is equal.
* `Value.get` — `v[key]`; `Value.members` — what `in` ranges over.
-/

namespace Rego

/-- A value. -/
inductive Value where
  /-- `null`. -/
  | null
  /-- A boolean. -/
  | bool (b : Bool)
  /-- A number. -/
  | num (q : ℚ)
  /-- A string. -/
  | str (s : String)
  /-- An array. -/
  | arr (xs : List Value)
  /-- An object, by its keys. -/
  | obj (ps : List (String × Value))
  /-- A set, in order. -/
  | set (xs : List Value)

namespace Value

/-- Induction over a value and its children. -/
@[elab_as_elim]
theorem induct {motive : Value → Prop} (null : motive .null) (bool : ∀ b, motive (.bool b))
    (num : ∀ q, motive (.num q)) (str : ∀ s, motive (.str s))
    (arr : ∀ xs, (∀ x ∈ xs, motive x) → motive (.arr xs))
    (obj : ∀ ps, (∀ p ∈ ps, motive (Prod.snd p)) → motive (.obj ps))
    (set : ∀ xs, (∀ x ∈ xs, motive x) → motive (.set xs)) (v : Value) : motive v :=
  @Value.rec motive (fun xs => ∀ x ∈ xs, motive x) (fun ps => ∀ p ∈ ps, motive p.2)
    (fun p => motive p.2) null bool num str arr obj set
    (fun _ h => absurd h List.not_mem_nil) (fun _ _ hx hxs => List.forall_mem_cons.mpr ⟨hx, hxs⟩)
    (fun _ h => absurd h List.not_mem_nil) (fun _ _ hp hps => List.forall_mem_cons.mpr ⟨hp, hps⟩)
    (fun _ _ h => h) v

/-- The place of a type among the types. -/
def rank : Value → ℕ
  | null => 0
  | bool _ => 1
  | num _ => 2
  | str _ => 3
  | arr _ => 4
  | obj _ => 5
  | set _ => 6

mutual

/-- The order of two values. -/
def order : Value → Value → Ordering
  | bool a, bool b => compare a b
  | num p, num q => compare p q
  | str s, str t => compare s t
  | arr xs, arr ys => orderItems xs ys
  | obj ps, obj qs => orderProps ps qs
  | set xs, set ys => orderItems xs ys
  | v, w => compare v.rank w.rank

/-- The order of two lists: item by item, a shorter one first. -/
def orderItems : List Value → List Value → Ordering
  | [], [] => .eq
  | [], _ :: _ => .lt
  | _ :: _, [] => .gt
  | x :: xs, y :: ys => (order x y).then (orderItems xs ys)

/-- The order of two lists of properties: key by key, and the values of equal keys. -/
def orderProps : List (String × Value) → List (String × Value) → Ordering
  | [], [] => .eq
  | [], _ :: _ => .lt
  | _ :: _, [] => .gt
  | (k, v) :: ps, (l, w) :: qs => (compare k l).then ((order v w).then (orderProps ps qs))

end

section

-- the equations are derived here, once, and not by each proof that unfolds
attribute [local simp] order orderItems orderProps

end

/-- Lists are equal when their items are. -/
theorem orderItems_eq_iff {xs : List Value} (h : ∀ x ∈ xs, ∀ w, order x w = .eq ↔ x = w)
    (ys : List Value) : orderItems xs ys = .eq ↔ xs = ys := by
  induction xs generalizing ys with
  | nil => cases ys <;> simp [orderItems]
  | cons x xs ih =>
    obtain ⟨hx, hxs⟩ := List.forall_mem_cons.mp h
    cases ys with
    | nil => simp [orderItems]
    | cons y ys => rw [orderItems, Ordering.then_eq_eq, hx, ih hxs, List.cons.injEq]

/-- Lists of properties are equal when their keys and values are. -/
theorem orderProps_eq_iff {ps : List (String × Value)}
    (h : ∀ p ∈ ps, ∀ w, order p.2 w = .eq ↔ p.2 = w) (qs : List (String × Value)) :
    orderProps ps qs = .eq ↔ ps = qs := by
  induction ps generalizing qs with
  | nil => cases qs <;> simp [orderProps]
  | cons p ps ih =>
    obtain ⟨k, v⟩ := p
    obtain ⟨hp, hps⟩ := List.forall_mem_cons.mp h
    cases qs with
    | nil => simp [orderProps]
    | cons q qs =>
      obtain ⟨l, w⟩ := q
      rw [orderProps, Ordering.then_eq_eq, Ordering.then_eq_eq, compare_eq_iff_eq, hp, ih hps,
        List.cons.injEq, Prod.mk.injEq, and_assoc]

/-- Values of different types are in the order of their types. -/
theorem order_of_rank_ne {v w : Value} (h : v.rank ≠ w.rank) : order v w = compare v.rank w.rank := by
  cases v <;> cases w <;> first | rfl | exact absurd rfl h

/-- Values of different types are told apart. -/
theorem order_eq_iff_of_rank_ne {v w : Value} (h : v.rank ≠ w.rank) : order v w = .eq ↔ v = w := by
  rw [order_of_rank_ne h, compare_eq_iff_eq]
  exact iff_of_false h fun heq => h (congrArg rank heq)

/-- **Values that the order does not tell apart are equal.** -/
theorem order_eq_iff {v w : Value} : order v w = .eq ↔ v = w := by
  induction v using induct generalizing w with
  | null =>
    cases w with
    | null => exact iff_of_true rfl rfl
    | _ => exact order_eq_iff_of_rank_ne (by simp [rank])
  | bool b =>
    cases w with
    | bool c => rw [order, compare_eq_iff_eq, bool.injEq]
    | _ => exact order_eq_iff_of_rank_ne (by simp [rank])
  | num q =>
    cases w with
    | num r => rw [order, compare_eq_iff_eq, num.injEq]
    | _ => exact order_eq_iff_of_rank_ne (by simp [rank])
  | str s =>
    cases w with
    | str t => rw [order, compare_eq_iff_eq, str.injEq]
    | _ => exact order_eq_iff_of_rank_ne (by simp [rank])
  | arr xs ih =>
    cases w with
    | arr ys => rw [order, orderItems_eq_iff fun x hx w => ih x hx, arr.injEq]
    | _ => exact order_eq_iff_of_rank_ne (by simp [rank])
  | obj ps ih =>
    cases w with
    | obj qs => rw [order, orderProps_eq_iff fun p hp w => ih p hp, obj.injEq]
    | _ => exact order_eq_iff_of_rank_ne (by simp [rank])
  | set xs ih =>
    cases w with
    | set ys => rw [order, orderItems_eq_iff fun x hx w => ih x hx, set.injEq]
    | _ => exact order_eq_iff_of_rank_ne (by simp [rank])

instance : DecidableEq Value := fun _ _ => decidable_of_iff _ order_eq_iff

/-- `v[key]`: a property, an item by its position, or an element of a set. -/
def get : Value → Value → Option Value
  | obj ps, str k => ps.lookup k
  | arr xs, num q => if q.den = 1 ∧ 0 ≤ q.num then xs[q.num.toNat]? else none
  | set xs, v => if v ∈ xs then some v else none
  | _, _ => none

/-- What `in` ranges over. -/
def members : Value → List Value
  | arr xs => xs
  | obj ps => ps.map Prod.snd
  | set xs => xs
  | _ => []

/-- A value at its place among elements in order. -/
def insert (v : Value) : List Value → List Value
  | [] => [v]
  | w :: ws =>
    match order v w with
    | .lt => v :: w :: ws
    | .eq => w :: ws
    | .gt => w :: insert v ws

/-- The set of some values. -/
def setOf (vs : List Value) : Value := set (vs.foldr insert [])

/-- The elements after an insertion. -/
theorem mem_insert {u v : Value} {ws : List Value} : u ∈ insert v ws ↔ u = v ∨ u ∈ ws := by
  induction ws with
  | nil => exact List.mem_cons
  | cons w ws ih =>
    rw [insert]
    cases h : order v w with
    | lt => exact List.mem_cons
    | eq =>
      obtain rfl := order_eq_iff.mp h
      simp
    | gt =>
      rw [List.mem_cons, ih, List.mem_cons]
      tauto

/-- **A set has the elements that it was made of.** -/
theorem mem_members_setOf {u : Value} {vs : List Value} : u ∈ (setOf vs).members ↔ u ∈ vs := by
  unfold setOf members
  dsimp only
  induction vs with
  | nil => rfl
  | cons v vs ih => rw [List.foldr_cons, mem_insert, ih, List.mem_cons]

end Value

end Rego
