import AgentEval.Js.Date
import Mathlib.Data.List.Sort

/-!
# ECMAScript values

`JsVal` is a value as the serialisers see it: a primitive, a `Date`, an array without holes, or a
plain object with its own enumerable properties in order. A reference to an object that encloses
the reference is `ancestor`, which is how a cycle looks from inside.

* `JsVal.induct` — induction over a value and its children; `All P` — every part of a value
  satisfies `P`; `mapUp f` — `f` applied to every part, innermost first.
* `WF` — no object has a key twice; `IsJson` — JSON values only; `IsData` — JSON values with any
  Number in them.
* `sortKeys` — every object with its keys sorted. **`sortKeys_eq_iff`**: two values with the same
  sorted form are the ones that differ by the order of object keys only (`SameUpToKeyOrder`).
-/

namespace Js

/-- A value. -/
inductive JsVal where
  /-- `undefined`. -/
  | undefined
  /-- `null`. -/
  | null
  /-- A boolean. -/
  | bool (b : Bool)
  /-- A Number. -/
  | num (x : Number)
  /-- A string. -/
  | str (s : JsString)
  /-- A BigInt. -/
  | bigint (n : ℤ)
  /-- A function. -/
  | function
  /-- A symbol. -/
  | symbol
  /-- A `Date`; an invalid one has no time value. -/
  | date (t : Option TimeValue)
  /-- A reference to the enclosing object, so many levels up. -/
  | ancestor (levels : ℕ)
  /-- An array. -/
  | arr (xs : List JsVal)
  /-- A plain object. -/
  | obj (ps : List (JsString × JsVal))

/-- The own properties of an object. -/
abbrev Props := List (JsString × JsVal)

/-! ## Sorting by key -/

section sortProps

variable {β γ : Type*}

/-- Key-value pairs with their keys in order. -/
def sortProps (ps : List (JsString × β)) : List (JsString × β) :=
  ps.insertionSort fun p q => keyLE p.1 q.1

/-- Keys that occur once. -/
def DistinctKeys (ps : List (JsString × β)) : Prop := (ps.map Prod.fst).Nodup

instance : Std.Total fun p q : JsString × β => keyLE p.1 q.1 :=
  ⟨fun p q => Std.Total.total (r := keyLE) p.1 q.1⟩

instance : IsTrans (JsString × β) fun p q => keyLE p.1 q.1 :=
  ⟨fun p q s hpq hqs => IsTrans.trans (r := keyLE) p.1 q.1 s.1 hpq hqs⟩

/-- Sorting permutes. -/
theorem sortProps_perm (ps : List (JsString × β)) : (sortProps ps).Perm ps :=
  List.perm_insertionSort _ ps

/-- The same pairs are sorted. -/
@[simp] theorem mem_sortProps {ps : List (JsString × β)} {p : JsString × β} :
    p ∈ sortProps ps ↔ p ∈ ps := (sortProps_perm ps).mem_iff

/-- The sorted pairs are in order. -/
theorem pairwise_sortProps (ps : List (JsString × β)) :
    (sortProps ps).Pairwise fun p q => keyLE p.1 q.1 := List.pairwise_insertionSort _ ps

/-- Permuting keeps keys distinct. -/
theorem DistinctKeys.perm {ps qs : List (JsString × β)} (h : ps.Perm qs) (hps : DistinctKeys ps) :
    DistinctKeys qs := (h.map Prod.fst).nodup_iff.mp hps

/-- A key determines its pair. -/
theorem DistinctKeys.eq_of_mem {ps : List (JsString × β)} (h : DistinctKeys ps)
    {p q : JsString × β} (hp : p ∈ ps) (hq : q ∈ ps) (hpq : p.1 = q.1) : p = q :=
  List.inj_on_of_nodup_map h hp hq hpq

/-- **The sorted form does not depend on the order**, when no key occurs twice. -/
theorem sortProps_eq_of_perm {ps qs : List (JsString × β)} (h : ps.Perm qs)
    (hps : DistinctKeys ps) : sortProps ps = sortProps qs := by
  have hperm : (sortProps ps).Perm (sortProps qs) :=
    (sortProps_perm ps).trans (h.trans (sortProps_perm qs).symm)
  refine List.Perm.eq_of_pairwise ?_ (pairwise_sortProps ps) (pairwise_sortProps qs) hperm
  intro p q hp hq hpq hqp
  have hq' : q ∈ ps := h.mem_iff.mpr (mem_sortProps.mp hq)
  exact hps.eq_of_mem (mem_sortProps.mp hp) hq' (keyLE_antisymm hpq hqp)

/-- Sorting commutes with a change of the values. -/
theorem map_sortProps (f : JsString → β → γ) (ps : List (JsString × β)) :
    (sortProps ps).map (fun p => (p.1, f p.1 p.2)) =
      sortProps (ps.map fun p => (p.1, f p.1 p.2)) :=
  List.map_insertionSort _ _ _ _ fun _ _ _ _ => Iff.rfl

end sortProps

namespace JsVal

/-- `v === undefined`. -/
def isUndefined : JsVal → Bool
  | .undefined => true
  | _ => false

/-! ## Parts of a value -/

/-- Induction over a value and its children. -/
@[elab_as_elim]
theorem induct {motive : JsVal → Prop} (undefined : motive .undefined) (null : motive .null)
    (bool : ∀ b, motive (.bool b)) (num : ∀ x, motive (.num x)) (str : ∀ s, motive (.str s))
    (bigint : ∀ n, motive (.bigint n)) (function : motive .function) (symbol : motive .symbol)
    (date : ∀ t, motive (.date t)) (ancestor : ∀ k, motive (.ancestor k))
    (arr : ∀ xs, (∀ x ∈ xs, motive x) → motive (.arr xs))
    (obj : ∀ ps, (∀ p ∈ ps, motive (Prod.snd p)) → motive (.obj ps)) (v : JsVal) : motive v :=
  @JsVal.rec motive (fun xs => ∀ x ∈ xs, motive x) (fun ps => ∀ p ∈ ps, motive p.2)
    (fun p => motive p.2) undefined null bool num str bigint function symbol date ancestor arr obj
    (fun _ h => absurd h List.not_mem_nil) (fun _ _ hx hxs => List.forall_mem_cons.mpr ⟨hx, hxs⟩)
    (fun _ h => absurd h List.not_mem_nil) (fun _ _ hp hps => List.forall_mem_cons.mpr ⟨hp, hps⟩)
    (fun _ _ h => h) v

mutual

/-- Every part of a value satisfies `P`. -/
def All (P : JsVal → Prop) : JsVal → Prop
  | .arr xs => P (.arr xs) ∧ AllItems P xs
  | .obj ps => P (.obj ps) ∧ AllProps P ps
  | v => P v

/-- Every part of every item. -/
def AllItems (P : JsVal → Prop) : List JsVal → Prop
  | [] => True
  | x :: xs => All P x ∧ AllItems P xs

/-- Every part of every property. -/
def AllProps (P : JsVal → Prop) : Props → Prop
  | [] => True
  | (_, v) :: ps => All P v ∧ AllProps P ps

end

mutual

/-- `f` applied to every part of a value, innermost first. -/
def mapUp (f : JsVal → JsVal) : JsVal → JsVal
  | .arr xs => f (.arr (mapUpItems f xs))
  | .obj ps => f (.obj (mapUpProps f ps))
  | v => f v

/-- `mapUp` on every item. -/
def mapUpItems (f : JsVal → JsVal) : List JsVal → List JsVal
  | [] => []
  | x :: xs => mapUp f x :: mapUpItems f xs

/-- `mapUp` on every property. -/
def mapUpProps (f : JsVal → JsVal) : Props → Props
  | [] => []
  | (k, v) :: ps => (k, mapUp f v) :: mapUpProps f ps

end

section

-- the equations are derived here, once, and not by each proof that unfolds
attribute [local simp] All AllItems AllProps mapUp mapUpItems mapUpProps

end

section parts

variable {P : JsVal → Prop} (f : JsVal → JsVal)

/-- All parts of an array. -/
theorem all_arr {xs : List JsVal} : All P (.arr xs) ↔ P (.arr xs) ∧ ∀ x ∈ xs, All P x := by
  have h : AllItems P xs ↔ ∀ x ∈ xs, All P x := by
    induction xs with
    | nil => simp [AllItems]
    | cons x xs ih => rw [AllItems, ih, List.forall_mem_cons]
  rw [All, h]

/-- All parts of an object. -/
theorem all_obj {ps : Props} : All P (.obj ps) ↔ P (.obj ps) ∧ ∀ p ∈ ps, All P p.2 := by
  have h : AllProps P ps ↔ ∀ p ∈ ps, All P p.2 := by
    induction ps with
    | nil => simp [AllProps]
    | cons p ps ih => rw [AllProps, ih, List.forall_mem_cons]
  rw [All, h]

/-- The value is one of its parts. -/
theorem All.self {v : JsVal} (h : All P v) : P v := by
  cases v with
  | arr xs => exact (all_arr.mp h).1
  | obj ps => exact (all_obj.mp h).1
  | _ => exact h

/-- `mapUp` on an array. -/
theorem mapUp_arr (xs : List JsVal) : mapUp f (.arr xs) = f (.arr (xs.map (mapUp f))) := by
  have h : mapUpItems f xs = xs.map (mapUp f) := by
    induction xs with
    | nil => rfl
    | cons x xs ih => rw [mapUpItems, ih, List.map_cons]
  rw [mapUp, h]

/-- `mapUp` on an object. -/
theorem mapUp_obj (ps : Props) :
    mapUp f (.obj ps) = f (.obj (ps.map fun p => (p.1, mapUp f p.2))) := by
  have h : mapUpProps f ps = ps.map fun p => (p.1, mapUp f p.2) := by
    induction ps with
    | nil => rfl
    | cons p ps ih => rw [mapUpProps, ih, List.map_cons]
  rw [mapUp, h]

end parts

/-! ## Well-formed values and JSON values -/

/-- No object of the value has a key twice. -/
def WF : JsVal → Prop :=
  All fun
    | .obj ps => DistinctKeys ps
    | _ => True

/-- A JSON value: numbers are finite and not `-0`. -/
def IsJson : JsVal → Prop :=
  All fun
    | .null => True
    | .bool _ => True
    | .num (.finite _) => True
    | .str _ => True
    | .arr _ => True
    | .obj ps => DistinctKeys ps
    | _ => False

/-- What JSON text is read as, with any Number. -/
def IsData : JsVal → Prop :=
  All fun
    | .null => True
    | .bool _ => True
    | .num _ => True
    | .str _ => True
    | .arr _ => True
    | .obj ps => DistinctKeys ps
    | _ => False

/-- A well-formed array. -/
theorem wf_arr {xs : List JsVal} : WF (.arr xs) ↔ ∀ x ∈ xs, WF x := by
  rw [WF, all_arr]
  exact and_iff_right trivial

/-- A well-formed object. -/
theorem wf_obj {ps : Props} : WF (.obj ps) ↔ DistinctKeys ps ∧ ∀ p ∈ ps, WF p.2 := by
  rw [WF, all_obj]

/-- A JSON array. -/
theorem isJson_arr {xs : List JsVal} : IsJson (.arr xs) ↔ ∀ x ∈ xs, IsJson x := by
  rw [IsJson, all_arr]
  exact and_iff_right trivial

/-- A JSON object. -/
theorem isJson_obj {ps : Props} : IsJson (.obj ps) ↔ DistinctKeys ps ∧ ∀ p ∈ ps, IsJson p.2 := by
  rw [IsJson, all_obj]

/-- An array of data. -/
theorem isData_arr {xs : List JsVal} : IsData (.arr xs) ↔ ∀ x ∈ xs, IsData x := by
  rw [IsData, all_arr]
  exact and_iff_right trivial

/-- An object of data. -/
theorem isData_obj {ps : Props} : IsData (.obj ps) ↔ DistinctKeys ps ∧ ∀ p ∈ ps, IsData p.2 := by
  rw [IsData, all_obj]

/-- Data is well formed. -/
theorem IsData.wf {v : JsVal} (h : IsData v) : WF v := by
  induction v using induct with
  | arr xs ih => exact wf_arr.mpr fun x hx => ih x hx (isData_arr.mp h x hx)
  | obj ps ih =>
    obtain ⟨hk, hps⟩ := isData_obj.mp h
    exact wf_obj.mpr ⟨hk, fun p hp => ih p hp (hps p hp)⟩
  | _ => trivial

/-- Data is never `undefined`. -/
theorem IsData.isUndefined {v : JsVal} (h : IsData v) : v.isUndefined = false := by
  cases v with
  | undefined => exact absurd h id
  | _ => rfl

/-- No property of data is left out of its JSON text. -/
theorem IsData.filter_eq {ps : Props} (h : IsData (.obj ps)) :
    (ps.filter fun p => !p.2.isUndefined) = ps :=
  List.filter_eq_self.mpr fun p hp => by
    rw [((isData_obj.mp h).2 p hp).isUndefined, Bool.not_false]

/-- JSON values are data. -/
theorem IsJson.isData {v : JsVal} (h : IsJson v) : IsData v := by
  induction v using induct with
  | arr xs ih => exact isData_arr.mpr fun x hx => ih x hx (isJson_arr.mp h x hx)
  | obj ps ih =>
    obtain ⟨hk, hps⟩ := isJson_obj.mp h
    exact isData_obj.mpr ⟨hk, fun p hp => ih p hp (hps p hp)⟩
  | num x => trivial
  | _ => exact h

/-- JSON values are well formed. -/
theorem IsJson.wf {v : JsVal} (h : IsJson v) : WF v := h.isData.wf

/-! ## Equality up to the order of keys -/

/-- Two values that differ by the order of the keys of their objects, at any level: the smallest
reflexive, transitive relation that permutes properties and reaches into arrays and objects. -/
inductive SameUpToKeyOrder : JsVal → JsVal → Prop
  /-- A value is the same as itself. -/
  | refl (v : JsVal) : SameUpToKeyOrder v v
  /-- Two steps. -/
  | trans {u v w : JsVal} : SameUpToKeyOrder u v → SameUpToKeyOrder v w → SameUpToKeyOrder u w
  /-- The properties of an object permuted. -/
  | perm {ps qs : Props} : ps.Perm qs → SameUpToKeyOrder (.obj ps) (.obj qs)
  /-- An item of an array changed. -/
  | item (xs ys : List JsVal) {v w : JsVal} :
      SameUpToKeyOrder v w → SameUpToKeyOrder (.arr (xs ++ v :: ys)) (.arr (xs ++ w :: ys))
  /-- A property value of an object changed. -/
  | prop (ps qs : Props) (k : JsString) {v w : JsVal} : SameUpToKeyOrder v w →
      SameUpToKeyOrder (.obj (ps ++ (k, v) :: qs)) (.obj (ps ++ (k, w) :: qs))

namespace SameUpToKeyOrder

/-- The relation is symmetric. -/
theorem symm {v w : JsVal} (h : SameUpToKeyOrder v w) : SameUpToKeyOrder w v := by
  induction h with
  | refl v => exact refl v
  | trans _ _ ih₁ ih₂ => exact ih₂.trans ih₁
  | perm h => exact perm h.symm
  | item xs ys _ ih => exact item xs ys ih
  | prop ps qs k _ ih => exact prop ps qs k ih

/-- Arrays with the same items. -/
theorem arr {f g : JsVal → JsVal} {xs : List JsVal}
    (h : ∀ x ∈ xs, SameUpToKeyOrder (f x) (g x)) :
    SameUpToKeyOrder (.arr (xs.map f)) (.arr (xs.map g)) := by
  -- the items are changed one after the other, from the left
  have key : ∀ (zs ys : List JsVal), (∀ y ∈ ys, SameUpToKeyOrder (f y) (g y)) →
      SameUpToKeyOrder (.arr (zs ++ ys.map f)) (.arr (zs ++ ys.map g)) := by
    intro zs ys
    induction ys generalizing zs with
    | nil => intro _; exact refl _
    | cons y ys ih =>
      intro hys
      have hrest := ih (zs ++ [g y]) fun x hx => hys x (List.mem_cons_of_mem _ hx)
      rw [List.append_assoc, List.append_assoc] at hrest
      exact (item zs (ys.map f) (hys y (List.mem_cons_self ..))).trans hrest
  exact key [] xs h

/-- Objects with the same properties. -/
theorem obj {f g : JsVal → JsVal} {ps : Props}
    (h : ∀ p ∈ ps, SameUpToKeyOrder (f p.2) (g p.2)) :
    SameUpToKeyOrder (.obj (ps.map fun p => (p.1, f p.2))) (.obj (ps.map fun p => (p.1, g p.2))) := by
  have key : ∀ (rs qs : Props), (∀ q ∈ qs, SameUpToKeyOrder (f q.2) (g q.2)) →
      SameUpToKeyOrder (.obj (rs ++ qs.map fun q => (q.1, f q.2)))
        (.obj (rs ++ qs.map fun q => (q.1, g q.2))) := by
    intro rs qs
    induction qs generalizing rs with
    | nil => intro _; exact refl _
    | cons q qs ih =>
      intro hqs
      have hrest := ih (rs ++ [(q.1, g q.2)]) fun p hp => hqs p (List.mem_cons_of_mem _ hp)
      rw [List.append_assoc, List.append_assoc] at hrest
      exact (prop rs _ q.1 (hqs q (List.mem_cons_self ..))).trans hrest
  exact key [] ps h

/-- Objects that stay the same when the same properties are added to both. -/
theorem append {ps qs : Props} (h : SameUpToKeyOrder (.obj ps) (.obj qs)) (rs : Props) :
    SameUpToKeyOrder (.obj (ps ++ rs)) (.obj (qs ++ rs)) := by
  -- the induction is over the relation, so the addition is a function on all values
  let add : JsVal → JsVal := fun
    | .obj ps => .obj (ps ++ rs)
    | v => v
  have key : ∀ {v w : JsVal}, SameUpToKeyOrder v w → SameUpToKeyOrder (add v) (add w) := by
    intro v w h
    induction h with
    | refl v => exact refl _
    | trans _ _ ih₁ ih₂ => exact ih₁.trans ih₂
    | perm h => exact perm (h.append_right rs)
    | item xs ys h _ => exact item xs ys h
    | prop ps qs k h _ =>
      change SameUpToKeyOrder (.obj (ps ++ _ :: qs ++ rs)) (.obj (ps ++ _ :: qs ++ rs))
      rw [List.append_assoc, List.append_assoc, List.cons_append, List.cons_append]
      exact prop ps (qs ++ rs) k h
  exact key h

end SameUpToKeyOrder

/-- Every object with its keys sorted. -/
def sortKeys : JsVal → JsVal :=
  mapUp fun
    | .obj ps => .obj (sortProps ps)
    | v => v

/-- Sorted forms of arrays. -/
theorem sortKeys_arr (xs : List JsVal) : sortKeys (.arr xs) = .arr (xs.map sortKeys) :=
  mapUp_arr ..

/-- Sorted forms of objects. -/
theorem sortKeys_obj (ps : Props) :
    sortKeys (.obj ps) = .obj (sortProps (ps.map fun p => (p.1, sortKeys p.2))) :=
  mapUp_obj ..

/-- Keys stay distinct when the values change. -/
theorem distinctKeys_map {β γ : Type*} (f : β → γ) {ps : List (JsString × β)} :
    DistinctKeys (ps.map fun p => (p.1, f p.2)) ↔ DistinctKeys ps := by
  rw [DistinctKeys, List.map_map]
  rfl

/-- A value is the same as its sorted form. -/
theorem sameUpToKeyOrder_sortKeys (v : JsVal) : SameUpToKeyOrder v v.sortKeys := by
  induction v using induct with
  | arr xs ih =>
    rw [sortKeys_arr]
    have := SameUpToKeyOrder.arr (f := id) ih
    rwa [List.map_id] at this
  | obj ps ih =>
    rw [sortKeys_obj]
    have := SameUpToKeyOrder.obj (f := id) ih
    simp only [id, Prod.mk.eta, List.map_id'] at this
    exact this.trans (.perm (sortProps_perm _).symm)
  | _ => exact .refl _

/-- Values that differ by the order of keys only have one sorted form, and are well formed
together. -/
theorem SameUpToKeyOrder.sortKeys_eq {v w : JsVal} (h : SameUpToKeyOrder v w) (hv : WF v) :
    v.sortKeys = w.sortKeys ∧ WF w := by
  induction h with
  | refl v => exact ⟨rfl, hv⟩
  | trans _ _ ih₁ ih₂ =>
    obtain ⟨h₁, hm⟩ := ih₁ hv
    obtain ⟨h₂, hw⟩ := ih₂ hm
    exact ⟨h₁.trans h₂, hw⟩
  | perm hperm =>
    obtain ⟨hk, hps⟩ := wf_obj.mp hv
    refine ⟨?_, wf_obj.mpr ⟨hk.perm hperm, fun p hp => hps p (hperm.mem_iff.mpr hp)⟩⟩
    rw [sortKeys_obj, sortKeys_obj,
      sortProps_eq_of_perm (hperm.map _) ((distinctKeys_map sortKeys).mpr hk)]
  | item xs ys _ ih =>
    rw [wf_arr, List.forall_mem_append, List.forall_mem_cons] at hv
    obtain ⟨hxs, hv, hys⟩ := hv
    obtain ⟨heq, hw⟩ := ih hv
    refine ⟨?_, ?_⟩
    · rw [sortKeys_arr, sortKeys_arr, List.map_append, List.map_append, List.map_cons,
        List.map_cons, heq]
    · rw [wf_arr, List.forall_mem_append, List.forall_mem_cons]
      exact ⟨hxs, hw, hys⟩
  | prop ps qs k _ ih =>
    rw [wf_obj, List.forall_mem_append, List.forall_mem_cons] at hv
    obtain ⟨hk, hps, hv, hqs⟩ := hv
    obtain ⟨heq, hw⟩ := ih hv
    refine ⟨?_, ?_⟩
    · rw [sortKeys_obj, sortKeys_obj, List.map_append, List.map_append, List.map_cons,
        List.map_cons, heq]
    · rw [wf_obj, List.forall_mem_append, List.forall_mem_cons]
      refine ⟨?_, hps, hw, hqs⟩
      rw [DistinctKeys, List.map_append, List.map_cons] at hk ⊢
      exact hk

/-- **Two well-formed values have one sorted form exactly when they differ by the order of keys
only.** -/
theorem sortKeys_eq_iff {v w : JsVal} (hv : WF v) :
    v.sortKeys = w.sortKeys ↔ SameUpToKeyOrder v w := by
  refine ⟨fun h => ?_, fun h => (h.sortKeys_eq hv).1⟩
  have hw := (sameUpToKeyOrder_sortKeys w).symm
  rw [← h] at hw
  exact (sameUpToKeyOrder_sortKeys v).trans hw

/-- Sorting keys keeps JSON values. -/
theorem IsJson.sortKeys {v : JsVal} (h : IsJson v) : IsJson v.sortKeys := by
  induction v using induct with
  | arr xs ih =>
    rw [sortKeys_arr, isJson_arr, List.forall_mem_map]
    exact fun x hx => ih x hx (isJson_arr.mp h x hx)
  | obj ps ih =>
    obtain ⟨hk, hps⟩ := isJson_obj.mp h
    rw [sortKeys_obj, isJson_obj]
    refine ⟨((distinctKeys_map JsVal.sortKeys).mpr hk).perm (sortProps_perm _).symm, ?_⟩
    intro p hp
    obtain ⟨q, hq, rfl⟩ := List.mem_map.mp (mem_sortProps.mp hp)
    exact ih q hq (hps q hq)
  | _ => exact h

end JsVal

/-! ## Properties by key -/

/-- `o[key]`, for an own property. -/
def getProp (ps : Props) (key : JsString) : JsVal :=
  match ps with
  | [] => .undefined
  | p :: ps => if p.1 = key then p.2 else getProp ps key

section

-- the equations are derived here, once, and not by each proof that unfolds
attribute [local simp] getProp

end

section getProp

variable {ps qs : Props} {key : JsString}

/-- A property that occurs once is the one found. -/
theorem getProp_eq_of_mem (h : DistinctKeys ps) {v : JsVal} (hmem : (key, v) ∈ ps) :
    getProp ps key = v := by
  induction ps with
  | nil => exact absurd hmem List.not_mem_nil
  | cons p ps ih =>
    rw [getProp]
    split_ifs with hp
    · exact congrArg Prod.snd (h.eq_of_mem (List.mem_cons_self ..) hmem hp)
    · rcases List.mem_cons.mp hmem with heq | hmem
      · exact absurd (congrArg Prod.fst heq).symm hp
      · exact ih (List.Nodup.of_cons h) hmem

/-- What is found is a property. -/
theorem mem_of_getProp_ne (h : getProp ps key ≠ .undefined) : (key, getProp ps key) ∈ ps := by
  induction ps with
  | nil => exact absurd rfl h
  | cons p ps ih =>
    rw [getProp] at h ⊢
    split_ifs at h ⊢ with hp
    · rw [← hp]
      exact List.mem_cons_self ..
    · exact List.mem_cons_of_mem _ (ih h)

/-- A key that does not occur has no property. -/
theorem getProp_of_notMem (h : key ∉ ps.map Prod.fst) : getProp ps key = .undefined := by
  by_contra hne
  exact h (List.mem_map.mpr ⟨_, mem_of_getProp_ne hne, rfl⟩)

/-- The order of the properties does not matter. -/
theorem getProp_perm (h : DistinctKeys ps) (hperm : ps.Perm qs) :
    getProp ps key = getProp qs key := by
  by_cases hmem : key ∈ ps.map Prod.fst
  · obtain ⟨⟨k, v⟩, hp, rfl⟩ := List.mem_map.mp hmem
    rw [getProp_eq_of_mem h hp, getProp_eq_of_mem (h.perm hperm) (hperm.mem_iff.mp hp)]
  · rw [getProp_of_notMem hmem,
      getProp_of_notMem fun hq => hmem ((hperm.map Prod.fst).mem_iff.mpr hq)]

/-- The values changed by a function that keeps `undefined`. -/
theorem getProp_map {f : JsVal → JsVal} (hf : f .undefined = .undefined) :
    getProp (ps.map fun p => (p.1, f p.2)) key = f (getProp ps key) := by
  induction ps with
  | nil => exact hf.symm
  | cons p ps ih =>
    rw [List.map_cons, getProp, getProp]
    split_ifs
    · rfl
    · exact ih

/-- Dropping other properties. -/
theorem getProp_filter {keep : JsString → Bool} (h : keep key = true) :
    getProp (ps.filter fun p => keep p.1) key = getProp ps key := by
  induction ps with
  | nil => rfl
  | cons p ps ih =>
    rw [getProp]
    split_ifs with hp
    · rw [List.filter_cons_of_pos (by rw [hp]; exact h), getProp, if_pos hp]
    · rw [List.filter_cons]
      split_ifs
      · rw [getProp, if_neg hp, ih]
      · exact ih

/-- The value of a property of a well-formed object is well formed. -/
theorem JsVal.WF.getProp (h : JsVal.WF (.obj ps)) : (getProp ps key).WF := by
  by_cases hne : Js.getProp ps key = .undefined
  · rw [hne]
    trivial
  · exact (JsVal.wf_obj.mp h).2 _ (mem_of_getProp_ne hne)

/-- **Objects that differ by the order of keys have the same property at every key**, up to the
order of keys inside. -/
theorem JsVal.SameUpToKeyOrder.getProp (h : JsVal.SameUpToKeyOrder (.obj ps) (.obj qs))
    (hps : JsVal.WF (.obj ps)) : (getProp ps key).SameUpToKeyOrder (getProp qs key) := by
  obtain ⟨hsort, hqs⟩ := h.sortKeys_eq hps
  have hkey : ∀ rs : Props, DistinctKeys rs →
      Js.getProp (sortProps (rs.map fun p => (p.1, p.2.sortKeys))) key =
        (Js.getProp rs key).sortKeys := fun rs hrs => by
    rw [getProp_perm (((JsVal.distinctKeys_map JsVal.sortKeys).mpr hrs).perm
      (sortProps_perm _).symm) (sortProps_perm _), getProp_map rfl]
  rw [JsVal.sortKeys_obj, JsVal.sortKeys_obj, JsVal.obj.injEq] at hsort
  refine (JsVal.sortKeys_eq_iff hps.getProp).mp ?_
  rw [← hkey ps (JsVal.wf_obj.mp hps).1, ← hkey qs (JsVal.wf_obj.mp hqs).1, hsort]

end getProp

end Js
