import AgentEval.Js.Json
import AgentEval.Js.Object

/-!
# Values that are read from text and written again

An object lists its own keys with the array indices first, in ascending order, and the others in the
order in which they were created. Assignment creates a property like the reader of JSON text does,
except that `__proto__` is no property: it sets the prototype.

* **`isData_of_jsonParse`**: what is read is data.
* `jsonStringify_data` — data is written with its Numbers as `JSON.stringify` writes them.
* `JsVal.unsigned` — a value with one zero; `JsVal.Finite` — all its Numbers are finite.
* **`isJson_unsigned_iff`**: with one zero, data is a JSON value when its Numbers are finite.
-/

namespace Js

/-! ## The order of keys -/

section order

variable {β : Type*}

/-- The number of an array index: a canonical numeral below `2 ^ 32 - 1`. -/
def arrayIndex (key : JsString) : Option ℕ :=
  if key ≠ [] ∧ key.all isDigit = true ∧ (key = [48] ∨ key.head? ≠ some 48) ∧
      digitsValue key < 2 ^ 32 - 1 then some (digitsValue key)
  else none

/-- Properties in the order in which an object lists them, from the order of their creation. -/
def ownOrder (ps : List (JsString × β)) : List (JsString × β) :=
  (ps.filter fun p => (arrayIndex p.1).isSome).insertionSort
      (fun p q => (arrayIndex p.1).getD 0 ≤ (arrayIndex q.1).getD 0) ++
    ps.filter fun p => !(arrayIndex p.1).isSome

/-- The order of keys permutes. -/
theorem ownOrder_perm (ps : List (JsString × β)) : (ownOrder ps).Perm ps := by
  unfold ownOrder
  exact ((List.perm_insertionSort _ _).append_right _).trans
    (List.filter_append_perm (fun p : JsString × β => (arrayIndex p.1).isSome) ps)

/-- `o[key] = value`, for a plain object. -/
def assign (ps : List (JsString × β)) (p : JsString × β) : List (JsString × β) :=
  if p.1 = js "__proto__" then ps else setProp ps p

/-- New properties are created in their order, all but `__proto__`. -/
theorem foldl_assign {qs ps : List (JsString × β)} (h : DistinctKeys (qs ++ ps)) :
    ps.foldl assign qs = qs ++ ps.filter fun p => p.1 ≠ js "__proto__" := by
  induction ps generalizing qs with
  | nil => simp
  | cons p ps ih =>
    have hnot : p.1 ∉ qs.map Prod.fst := by
      unfold DistinctKeys at h
      rw [List.map_append, List.map_cons, List.nodup_append'] at h
      exact fun hmem => h.2.2 hmem (List.mem_cons_self ..)
    have happ : qs ++ p :: ps = qs ++ [p] ++ ps := by rw [List.append_assoc, List.singleton_append]
    rw [List.foldl_cons]
    unfold assign
    by_cases hproto : p.1 = js "__proto__"
    · rw [if_pos hproto, List.filter_cons_of_neg (by simpa using hproto)]
      apply ih
      exact List.Nodup.sublist (List.Sublist.map _ ((List.Sublist.refl qs).append
        (List.sublist_cons_self p ps))) h
    · rw [if_neg hproto, setProp_of_not_mem hnot, List.filter_cons_of_pos (by simpa using hproto)]
      rw [happ] at h
      refine (ih h).trans ?_
      rw [List.append_assoc, List.singleton_append]

end order

namespace JsVal

/-- Every object with its keys in the order in which it lists them. -/
def inOrder : JsVal → JsVal :=
  mapUp fun
    | .obj ps => .obj (ownOrder ps)
    | v => v

/-- Arrays in order. -/
theorem inOrder_arr (xs : List JsVal) : inOrder (.arr xs) = .arr (xs.map inOrder) := mapUp_arr ..

/-- Objects in order. -/
theorem inOrder_obj (ps : Props) :
    inOrder (.obj ps) = .obj (ownOrder (ps.map fun p => (p.1, inOrder p.2))) := mapUp_obj ..

/-- The order of keys is all that changes. -/
theorem sameUpToKeyOrder_inOrder (v : JsVal) : SameUpToKeyOrder v v.inOrder := by
  induction v using induct with
  | arr xs ih =>
    rw [inOrder_arr]
    have := SameUpToKeyOrder.arr (f := id) ih
    rwa [List.map_id] at this
  | obj ps ih =>
    rw [inOrder_obj]
    have := SameUpToKeyOrder.obj (f := id) ih
    simp only [id, Prod.mk.eta, List.map_id'] at this
    exact this.trans (.perm (ownOrder_perm _).symm)
  | _ => exact .refl _

/-- Data stays data in another order. -/
theorem IsData.inOrder {v : JsVal} (h : IsData v) : IsData v.inOrder := by
  induction v using induct with
  | arr xs ih =>
    rw [inOrder_arr, isData_arr, List.forall_mem_map]
    exact fun x hx => ih x hx (isData_arr.mp h x hx)
  | obj ps ih =>
    obtain ⟨hk, hps⟩ := isData_obj.mp h
    rw [inOrder_obj, isData_obj]
    refine ⟨((distinctKeys_map JsVal.inOrder).mpr hk).perm (ownOrder_perm _).symm, fun p hp => ?_⟩
    obtain ⟨q, hq, rfl⟩ := List.mem_map.mp ((ownOrder_perm _).mem_iff.mp hp)
    exact ih q hq (hps q hq)
  | _ => exact h

end JsVal

/-! ## What is read -/

/-- Properties that are set one after the other. -/
theorem isData_foldl_setProp {ps qs : Props} (hqs : JsVal.IsData (.obj qs))
    (hps : ∀ p ∈ ps, JsVal.IsData p.2) : JsVal.IsData (.obj (ps.foldl setProp qs)) := by
  induction ps generalizing qs with
  | nil => exact hqs
  | cons p ps ih =>
    rw [List.forall_mem_cons] at hps
    obtain ⟨hk, hvalues⟩ := JsVal.isData_obj.mp hqs
    rw [List.foldl_cons]
    apply ih _ hps.2
    refine JsVal.isData_obj.mpr ⟨hk.setProp p, fun q hq => ?_⟩
    rcases mem_of_mem_setProp hq with rfl | hq
    · exact hps.1
    · exact hvalues q hq

/-- What the three readers return. -/
theorem isData_of_parse (n : ℕ) :
    (∀ s v t, parseValue n s = some (v, t) → JsVal.IsData v) ∧
      (∀ s xs t, parseItems n s = some (xs, t) → ∀ x ∈ xs, JsVal.IsData x) ∧
      (∀ s ps t, parseMembers n s = some (ps, t) → ∀ p ∈ ps, JsVal.IsData p.2) := by
  induction n with
  | zero =>
    refine ⟨?_, ?_, ?_⟩ <;> intro s v t h <;> simp [parseValue, parseItems, parseMembers] at h
  | succ n ih =>
    obtain ⟨hvalue, hitems, hmembers⟩ := ih
    refine ⟨?_, ?_, ?_⟩
    · intro s v t h
      cases s with
      | nil => simp [parseValue] at h
      | cons u s =>
        unfold parseValue at h
        split_ifs at h with h₁ h₂ h₃ h₄ h₅ h₆
        · obtain ⟨p, -, heq⟩ := Option.map_eq_some_iff.mp h
          rw [← (Prod.mk.inj heq).1]
          trivial
        · split at h
          · exact absurd h (by simp)
          · split_ifs at h
            · rw [← (Prod.mk.inj (Option.some.inj h)).1]
              exact JsVal.isData_arr.mpr (List.forall_mem_nil _)
            · obtain ⟨p, hp, heq⟩ := Option.map_eq_some_iff.mp h
              rw [← (Prod.mk.inj heq).1]
              exact JsVal.isData_arr.mpr (hitems _ _ _ hp)
        · split at h
          · exact absurd h (by simp)
          · split_ifs at h
            · rw [← (Prod.mk.inj (Option.some.inj h)).1]
              exact JsVal.isData_obj.mpr ⟨List.nodup_nil, List.forall_mem_nil _⟩
            · obtain ⟨p, hp, heq⟩ := Option.map_eq_some_iff.mp h
              rw [← (Prod.mk.inj heq).1]
              exact isData_foldl_setProp (JsVal.isData_obj.mpr ⟨List.nodup_nil, List.forall_mem_nil _⟩)
                (hmembers _ _ _ hp)
        all_goals
          obtain ⟨p, -, heq⟩ := Option.map_eq_some_iff.mp h
          rw [← (Prod.mk.inj heq).1]
          trivial
    · intro s xs t h
      unfold parseItems at h
      split at h
      · exact absurd h (by simp)
      · rename_i v s' hv
        split at h
        · exact absurd h (by simp)
        · split_ifs at h
          · obtain ⟨p, hp, heq⟩ := Option.map_eq_some_iff.mp h
            rw [← (Prod.mk.inj heq).1]
            exact List.forall_mem_cons.mpr ⟨hvalue _ _ _ hv, hitems _ _ _ hp⟩
          · rw [← (Prod.mk.inj (Option.some.inj h)).1]
            exact List.forall_mem_singleton.mpr (hvalue _ _ _ hv)
    · intro s ps t h
      cases s with
      | nil => simp [parseMembers] at h
      | cons q s =>
        unfold parseMembers at h
        split_ifs at h
        split at h
        · exact absurd h (by simp)
        · split at h
          · exact absurd h (by simp)
          · split_ifs at h
            split at h
            · exact absurd h (by simp)
            · rename_i v s' hv
              split at h
              · exact absurd h (by simp)
              · split_ifs at h
                · obtain ⟨p, hp, heq⟩ := Option.map_eq_some_iff.mp h
                  rw [← (Prod.mk.inj heq).1]
                  exact List.forall_mem_cons.mpr ⟨hvalue _ _ _ hv, hmembers _ _ _ hp⟩
                · rw [← (Prod.mk.inj (Option.some.inj h)).1]
                  exact List.forall_mem_singleton.mpr (hvalue _ _ _ hv)

/-- **What `JSON.parse` returns is data.** -/
theorem isData_of_jsonParse {s : JsString} {v : JsVal} (h : jsonParse s = some v) : v.IsData := by
  unfold jsonParse at h
  split at h
  · exact absurd h (by simp)
  · rename_i w t hw
    split_ifs at h
    rw [← Option.some.inj h]
    exact (isData_of_parse _).1 _ _ _ hw

/-! ## What is written -/

/-- **Data is written with its Numbers as `JSON.stringify` writes them.** -/
theorem jsonStringify_data {v : JsVal} (h : v.IsData) :
    jsonStringify v = .ok (some (render v.lossy)) := by
  induction v using JsVal.induct with
  | null => rfl
  | bool b => cases b <;> rfl
  | num x =>
    cases x with
    | negZero =>
      have hzero : (Number.ofNat 0).toString = [48] := by
        rw [Number.ofNat_zero]
        rfl
      exact congrArg (fun s => Except.ok (some s)) hzero.symm
    | _ => rfl
  | str s => rfl
  | arr xs ih =>
    have hxs := JsVal.isData_arr.mp h
    have hitems : stringifyItems xs = .ok (xs.map fun x => render x.lossy) := by
      clear h
      induction xs with
      | nil => rfl
      | cons x xs ihxs =>
        rw [List.forall_mem_cons] at hxs ih
        rw [stringifyItems, ih.1 hxs.1, ihxs ih.2 hxs.2]
        rfl
    rw [jsonStringify, hitems, JsVal.lossy_arr, render_arr, List.map_map]
    rfl
  | obj ps ih =>
    have hps := (JsVal.isData_obj.mp h).2
    have hprops : stringifyProps ps = .ok (ps.map fun p => member p.1 (render p.2.lossy)) := by
      clear h
      induction ps with
      | nil => rfl
      | cons p ps ihps =>
        rw [List.forall_mem_cons] at hps ih
        rw [stringifyProps, ih.1 hps.1, ihps ih.2 hps.2]
        rfl
    rw [jsonStringify, hprops, JsVal.lossy_obj, render_obj, List.map_map]
    rfl
  | _ => exact absurd h id

/-! ## The same value -/

namespace JsVal

/-- A value with one zero. -/
def unsigned : JsVal → JsVal :=
  mapUp fun
    | .num .negZero => .num (.ofNat 0)
    | v => v

/-- All Numbers of a value are finite. -/
def AllFinite : JsVal → Prop :=
  All fun
    | .num x => x.isFinite = true
    | _ => True

/-- Two values with the same keys and values at every level, where `-0` and `0` are the same. -/
def SameValue (v w : JsVal) : Prop := SameUpToKeyOrder v.unsigned w.unsigned

/-- An array with one zero. -/
theorem unsigned_arr (xs : List JsVal) : unsigned (.arr xs) = .arr (xs.map unsigned) := mapUp_arr ..

/-- An object with one zero. -/
theorem unsigned_obj (ps : Props) :
    unsigned (.obj ps) = .obj (ps.map fun p => (p.1, p.2.unsigned)) := mapUp_obj ..

/-- The Numbers of an array. -/
theorem allFinite_arr {xs : List JsVal} : AllFinite (.arr xs) ↔ ∀ x ∈ xs, AllFinite x := by
  unfold AllFinite
  rw [all_arr]
  exact and_iff_right trivial

/-- The Numbers of an object. -/
theorem allFinite_obj {ps : Props} : AllFinite (.obj ps) ↔ ∀ p ∈ ps, AllFinite p.2 := by
  unfold AllFinite
  rw [all_obj]
  exact and_iff_right trivial

/-- With finite Numbers only, `JSON.stringify` loses the sign of zeros and nothing else. -/
theorem AllFinite.lossy_eq {v : JsVal} (h : AllFinite v) : v.lossy = v.unsigned := by
  induction v using induct with
  | num x =>
    cases x with
    | nan => exact absurd h Bool.false_ne_true
    | infinity neg => exact absurd h Bool.false_ne_true
    | _ => rfl
  | arr xs ih =>
    rw [lossy_arr, unsigned_arr]
    congr 1
    exact List.map_congr_left fun x hx => ih x hx (allFinite_arr.mp h x hx)
  | obj ps ih =>
    rw [lossy_obj, unsigned_obj]
    congr 1
    exact List.map_congr_left fun p hp => by rw [ih p hp (allFinite_obj.mp h p hp)]
  | _ => rfl

/-- **With one zero, data is a JSON value when its Numbers are finite.** -/
theorem isJson_unsigned_iff {v : JsVal} (h : v.IsData) : IsJson v.unsigned ↔ AllFinite v := by
  induction v using induct with
  | num x =>
    cases x with
    | nan => exact ⟨fun hx => absurd hx id, fun hx => absurd hx Bool.false_ne_true⟩
    | infinity neg => exact ⟨fun hx => absurd hx id, fun hx => absurd hx Bool.false_ne_true⟩
    | negZero =>
      refine ⟨fun _ => rfl, fun _ => ?_⟩
      change IsJson (.num (.ofNat 0))
      rw [Number.ofNat_zero]
      trivial
    | finite x => exact ⟨fun _ => rfl, fun _ => trivial⟩
  | arr xs ih =>
    rw [unsigned_arr, isJson_arr, allFinite_arr, List.forall_mem_map]
    exact forall₂_congr fun x hx => ih x hx (isData_arr.mp h x hx)
  | obj ps ih =>
    obtain ⟨hk, hps⟩ := isData_obj.mp h
    rw [unsigned_obj, isJson_obj, distinctKeys_map, allFinite_obj, List.forall_mem_map,
      and_iff_right hk]
    exact forall₂_congr fun p hp => ih p hp (hps p hp)
  | null => exact ⟨fun _ => trivial, fun _ => trivial⟩
  | bool b => exact ⟨fun _ => trivial, fun _ => trivial⟩
  | str s => exact ⟨fun _ => trivial, fun _ => trivial⟩
  | _ => exact absurd h id

/-- A JSON value has one zero. -/
theorem IsJson.unsigned_eq {v : JsVal} (h : IsJson v) : v.unsigned = v := by
  induction v using induct with
  | num x =>
    cases x with
    | negZero => exact absurd h id
    | _ => rfl
  | arr xs ih =>
    rw [unsigned_arr, List.map_congr_left fun x hx => ih x hx (isJson_arr.mp h x hx), List.map_id']
  | obj ps ih =>
    obtain ⟨-, hps⟩ := isJson_obj.mp h
    have hmap : ∀ p ∈ ps, (p.1, p.2.unsigned) = p := fun p hp => by rw [ih p hp (hps p hp)]
    rw [unsigned_obj, List.map_congr_left hmap, List.map_id']
  | _ => rfl

namespace SameUpToKeyOrder

/-- A JSON value in another order is one. -/
theorem isJson {v w : JsVal} (h : SameUpToKeyOrder v w) (hv : IsJson v) : IsJson w := by
  induction h with
  | refl v => exact hv
  | trans _ _ ih₁ ih₂ => exact ih₂ (ih₁ hv)
  | perm hperm =>
    obtain ⟨hk, hps⟩ := isJson_obj.mp hv
    exact isJson_obj.mpr ⟨hk.perm hperm, fun p hp => hps p (hperm.mem_iff.mpr hp)⟩
  | item xs ys _ ih =>
    rw [isJson_arr, List.forall_mem_append, List.forall_mem_cons] at hv ⊢
    exact ⟨hv.1, ih hv.2.1, hv.2.2⟩
  | prop ps qs k _ ih =>
    rw [isJson_obj, List.forall_mem_append, List.forall_mem_cons] at hv ⊢
    refine ⟨?_, hv.2.1, ih hv.2.2.1, hv.2.2.2⟩
    have hk := hv.1
    unfold DistinctKeys at hk ⊢
    rw [List.map_append, List.map_cons] at hk ⊢
    exact hk

/-- The order of keys matters as little with one zero. -/
theorem unsigned {v w : JsVal} (h : SameUpToKeyOrder v w) : SameValue v w := by
  unfold SameValue
  induction h with
  | refl v => exact refl _
  | trans _ _ ih₁ ih₂ => exact ih₁.trans ih₂
  | perm hperm =>
    rw [unsigned_obj, unsigned_obj]
    exact perm (hperm.map _)
  | item xs ys _ ih =>
    rw [unsigned_arr, unsigned_arr, List.map_append, List.map_append, List.map_cons, List.map_cons]
    exact item _ _ ih
  | prop ps qs k _ ih =>
    rw [unsigned_obj, unsigned_obj, List.map_append, List.map_append, List.map_cons, List.map_cons]
    exact prop _ _ k ih

/-- The keys of the values, when they are objects. -/
theorem keys_perm {ps qs : Props} (h : SameUpToKeyOrder (.obj ps) (.obj qs)) :
    (ps.map Prod.fst).Perm (qs.map Prod.fst) := by
  let keys : JsVal → List JsString := fun
    | .obj ps => ps.map Prod.fst
    | _ => []
  have key : ∀ {v w : JsVal}, SameUpToKeyOrder v w → (keys v).Perm (keys w) := by
    intro v w h
    induction h with
    | refl v => exact .refl _
    | trans _ _ ih₁ ih₂ => exact ih₁.trans ih₂
    | perm hperm => exact hperm.map _
    | item xs ys _ _ => exact .refl _
    | prop ps qs k _ _ =>
      change (List.map Prod.fst (ps ++ _ :: qs)).Perm (List.map Prod.fst (ps ++ _ :: qs))
      rw [List.map_append, List.map_append]
      exact .refl _
  exact key h

end SameUpToKeyOrder

end JsVal

end Js
