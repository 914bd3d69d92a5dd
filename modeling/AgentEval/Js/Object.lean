import AgentEval.Js.Json

/-!
# Plain objects

`PlainObject` is an object whose keys, and those of every object in it, are distinct. A declared
interface is such an object together with what its properties are; `json` is what is left of it
after `JSON.stringify` and `JSON.parse`, and `without` is what a rest pattern leaves
of it.

* `get_json`, `get_without` — the properties of either; `isJson_iff` — when the JSON form is a
  JSON value.
* `perm_without` — an object is the rest and the property taken out.
* `fromEntries_eq_self` — an object made from pairs with distinct keys has those pairs.
-/

namespace Js

/-- A plain object. -/
@[ext] structure PlainObject where
  /-- Its own properties. -/
  props : Props
  /-- No object in it has a key twice. -/
  wf : JsVal.WF (.obj props)

namespace PlainObject

/-- `{}`. -/
def empty : PlainObject := ⟨[], JsVal.wf_obj.mpr ⟨List.nodup_nil, List.forall_mem_nil _⟩⟩

variable (o : PlainObject) {key k : JsString}

/-- The object as a value. -/
def toJs : JsVal := .obj o.props

/-- `o[key]`, for an own property. -/
def get (key : JsString) : JsVal := getProp o.props key

/-- The empty object is its own JSON form. -/
theorem jsonForm_empty : empty.toJs.jsonForm = empty.toJs := JsVal.jsonForm_obj []

/-- What JSON text keeps of the object. -/
def json : PlainObject where
  props := (o.props.filter fun p => !p.2.isUndefined).map fun p => (p.1, p.2.jsonForm)
  wf := by
    rw [← JsVal.jsonForm_obj]
    exact JsVal.wf_jsonForm o.wf

/-- `const { [key]: _, ...rest } = o`. -/
def without (key : JsString) : PlainObject where
  props := o.props.filter fun p => decide (p.1 ≠ key)
  wf := by
    obtain ⟨hkeys, hvals⟩ := JsVal.wf_obj.mp o.wf
    refine JsVal.wf_obj.mpr ⟨?_, fun p hp => hvals p (List.mem_of_mem_filter hp)⟩
    exact List.Nodup.sublist (List.Sublist.map _ List.filter_sublist) hkeys

variable {o}

/-- No key occurs twice. -/
theorem distinctKeys : DistinctKeys o.props := (JsVal.wf_obj.mp o.wf).1

/-- The JSON form as a value. -/
@[simp] theorem toJs_json : o.json.toJs = o.toJs.jsonForm := (JsVal.jsonForm_obj _).symm

/-- A property of the JSON form. -/
@[simp] theorem get_json : o.json.get key = (o.get key).jsonForm :=
  JsVal.jsonForm_getProp o.distinctKeys key

/-- An object can be written exactly when each property that is not `undefined` can. -/
theorem isJson_iff : o.toJs.jsonForm.IsJson ↔
    ∀ p ∈ o.props, p.2.isUndefined = false → JsVal.IsJson p.2.jsonForm := by
  rw [toJs, JsVal.jsonForm_obj, JsVal.isJson_obj, JsVal.distinctKeys_map, List.forall_mem_map]
  constructor
  · intro h p hp hdef
    exact h.2 p (List.mem_filter.mpr ⟨hp, by simp [hdef]⟩)
  · intro h
    refine ⟨List.Nodup.sublist (List.Sublist.map _ List.filter_sublist) o.distinctKeys, ?_⟩
    intro p hp
    obtain ⟨hp, hdef⟩ := List.mem_filter.mp hp
    exact h p hp (by simpa using hdef)

/-- An object can be written when each of its properties can. -/
theorem isJson_of_forall (h : ∀ p ∈ o.props, JsVal.IsJson p.2.jsonForm) :
    o.toJs.jsonForm.IsJson :=
  isJson_iff.mpr fun p hp _ => h p hp

/-- A property that a rest pattern keeps. -/
theorem get_without (h : k ≠ key) : (o.without key).get k = o.get k :=
  @getProp_filter _ _ (fun k => decide (k ≠ key)) (decide_eq_true h)

/-- The rest of the JSON form is the JSON form of the rest. -/
theorem without_json : o.json.without key = (o.without key).json := by
  refine PlainObject.ext ?_
  change ((o.props.filter _).map _).filter _ = ((o.props.filter _).filter _).map _
  rw [List.filter_map, List.filter_filter, List.filter_filter]
  congr 1
  exact List.filter_congr fun p _ => Bool.and_comm ..

/-- An object is what a rest pattern leaves and the property taken out. -/
theorem perm_without {v : JsVal} (h : o.get key = v) (hv : v ≠ .undefined) :
    o.props.Perm ((o.without key).props ++ [(key, v)]) := by
  have hmem : (key, v) ∈ o.props := by
    rw [← h]
    exact mem_of_getProp_ne (by rwa [← h] at hv)
  classical
  have hnodup : o.props.Nodup := List.Nodup.of_map _ o.distinctKeys
  have hrest : (o.without key).props = o.props.erase (key, v) := by
    rw [hnodup.erase_eq_filter]
    refine List.filter_congr fun p hp => ?_
    by_cases hk : p.1 = key
    · have hval : p.2 = v := by
        rw [← h, ← hk]
        exact (getProp_eq_of_mem o.distinctKeys hp).symm
      have heq : p = (key, v) := Prod.ext hk hval
      simp [heq]
    · have hne : p ≠ (key, v) := fun heq => hk (congrArg Prod.fst heq)
      simp [hk, hne]
  rw [hrest]
  exact (List.perm_cons_erase hmem).trans (List.perm_append_singleton _ _).symm

end PlainObject

/-! ## Records of strings -/

/-- An object whose values are strings. -/
structure StringRecord where
  /-- The entries. -/
  entries : List (JsString × JsString)
  distinct : DistinctKeys entries

namespace StringRecord

variable (r : StringRecord)

/-- The record as a value. -/
def toJs : JsVal := .obj (r.entries.map fun p => (p.1, .str p.2))

/-- The object of a record has its keys once. -/
theorem wf_toJs : r.toJs.WF :=
  JsVal.wf_obj.mpr ⟨(JsVal.distinctKeys_map JsVal.str).mpr r.distinct,
    List.forall_mem_map.mpr fun _ _ => trivial⟩

/-- The record as an object. -/
def toObject : PlainObject := ⟨_, r.wf_toJs⟩

/-- A record can be written. -/
theorem isJson_toJs : r.toJs.jsonForm.IsJson :=
  @PlainObject.isJson_of_forall r.toObject (List.forall_mem_map.mpr fun _ _ => trivial)

end StringRecord

/-! ## `Object.fromEntries` -/

section fromEntries

variable {β : Type*}

/-- `Object.fromEntries`. -/
def fromEntries (entries : List (JsString × β)) : List (JsString × β) := entries.foldl setProp []

/-- Setting a property keeps the keys distinct. -/
theorem DistinctKeys.setProp {ps : List (JsString × β)} (h : DistinctKeys ps) (p : JsString × β) :
    DistinctKeys (setProp ps p) := by
  rw [Js.setProp]
  split_ifs with hmem
  · have hkeys : (ps.map fun q => if q.1 = p.1 then p else q).map Prod.fst = ps.map Prod.fst := by
      rw [List.map_map]
      refine List.map_congr_left fun q _ => ?_
      by_cases hq : q.1 = p.1 <;> simp [hq]
    rw [DistinctKeys, hkeys]
    exact h
  · rw [DistinctKeys, List.map_append, List.nodup_append']
    refine ⟨h, List.nodup_singleton _, fun k hk hk' => ?_⟩
    rw [List.mem_singleton.mp hk'] at hk
    exact hmem hk

/-- A property that occurs once is the one found. -/
theorem lookup_eq_some_of_mem {ps : List (JsString × β)} (h : DistinctKeys ps)
    {p : JsString × β} (hp : p ∈ ps) : ps.lookup p.1 = some p.2 := by
  induction ps with
  | nil => exact absurd hp List.not_mem_nil
  | cons q ps ih =>
    rw [List.lookup_cons]
    rcases List.mem_cons.mp hp with rfl | hmem
    · rw [beq_self_eq_true]
    · have hne : p.1 ≠ q.1 := fun hk =>
        (List.nodup_cons.mp h).1 (hk ▸ List.mem_map_of_mem hmem)
      rw [beq_eq_false_iff_ne.mpr hne]
      exact ih (List.Nodup.of_cons h) hmem

/-- A property that is found is there. -/
theorem mem_of_lookup {ps : List (JsString × β)} {key : JsString} {b : β}
    (h : ps.lookup key = some b) : (key, b) ∈ ps := by
  obtain ⟨before, after, rfl, -⟩ := List.lookup_eq_some_iff.mp h
  exact List.mem_append_right _ (List.mem_cons_self ..)

/-- A property that is not found is not there. -/
theorem lookup_eq_none_iff {ps : List (JsString × β)} {key : JsString} :
    ps.lookup key = none ↔ key ∉ ps.map Prod.fst := by
  rw [List.lookup_eq_none_iff, List.mem_map, not_exists]
  constructor
  · rintro h p ⟨hp, rfl⟩
    exact bne_iff_ne.mp (h p hp) rfl
  · intro h p hp
    exact bne_iff_ne.mpr fun hkey => h p ⟨hp, hkey.symm⟩

/-- A lookup after a property was set. -/
theorem lookup_setProp (ps : List (JsString × β)) (p : JsString × β) (key : JsString) :
    (setProp ps p).lookup key = if key = p.1 then some p.2 else ps.lookup key := by
  rw [Js.setProp]
  split_ifs with hmem hkey hkey
  · subst hkey
    induction ps with
    | nil => exact absurd hmem List.not_mem_nil
    | cons q ps ih =>
      rw [List.map_cons]
      by_cases hq : q.1 = p.1
      · rw [if_pos hq, List.lookup_cons, beq_self_eq_true]
      · rw [if_neg hq, List.lookup_cons, beq_eq_false_iff_ne.mpr (Ne.symm hq)]
        exact ih ((List.mem_cons.mp hmem).resolve_left (Ne.symm hq))
  · clear hmem
    induction ps with
    | nil => rfl
    | cons q ps ih =>
      rw [List.map_cons, List.lookup_cons, List.lookup_cons, ih]
      by_cases hq : q.1 = p.1
      · rw [if_pos hq, hq, beq_eq_false_iff_ne.mpr hkey]
      · rw [if_neg hq]
  · rw [List.lookup_append, hkey, List.lookup_eq_none_iff.mpr fun q hq => ?_]
    · rw [Option.none_or, List.lookup_cons, beq_self_eq_true]
    · exact bne_iff_ne.mpr fun heq => hmem (heq ▸ List.mem_map_of_mem hq)
  · rw [List.lookup_append, List.lookup_cons, beq_eq_false_iff_ne.mpr hkey]
    exact Option.or_none

/-- A lookup where the values are mapped. -/
theorem lookup_map {γ : Type*} (f : β → γ) (ps : List (JsString × β)) (key : JsString) :
    (ps.map (Prod.map id f)).lookup key = (ps.lookup key).map f := by
  induction ps with
  | nil => rfl
  | cons p ps ih =>
    rw [List.map_cons, Prod.map, List.lookup_cons, List.lookup_cons, id_eq, ih]
    cases key == p.1 <;> rfl

/-- A property is set where the values are mapped. -/
theorem map_setProp {γ : Type*} (f : β → γ) (ps : List (JsString × β)) (p : JsString × β) :
    (setProp ps p).map (Prod.map id f) = setProp (ps.map (Prod.map id f)) (Prod.map id f p) := by
  have hkeys : (ps.map (Prod.map id f)).map Prod.fst = ps.map Prod.fst := by
    rw [List.map_map]
    rfl
  rw [Js.setProp, Js.setProp, hkeys]
  change (if p.1 ∈ _ then _ else _ : List _).map _ = if p.1 ∈ _ then _ else _
  by_cases hmem : p.1 ∈ ps.map Prod.fst
  · rw [if_pos hmem, if_pos hmem, List.map_map, List.map_map]
    refine List.map_congr_left fun q _ => ?_
    by_cases hq : q.1 = p.1 <;> simp [hq]
  · rw [if_neg hmem, if_neg hmem, List.map_append, List.map_singleton]

/-- A property with a new key is put at the end. -/
theorem setProp_of_not_mem {ps : List (JsString × β)} {p : JsString × β}
    (h : p.1 ∉ ps.map Prod.fst) : setProp ps p = ps ++ [p] := by
  rw [Js.setProp, if_neg h]

/-- A property that is there is replaced where it stands. -/
theorem setProp_append_cons {before after : List (JsString × β)} {key : JsString} {b b' : β}
    (h : DistinctKeys (before ++ (key, b) :: after)) :
    setProp (before ++ (key, b) :: after) (key, b') = before ++ (key, b') :: after := by
  have hother : ∀ ps : List (JsString × β), key ∉ ps.map Prod.fst →
      (ps.map fun q => if q.1 = key then (key, b') else q) = ps := by
    intro ps hps
    conv_rhs => rw [← List.map_id ps]
    apply List.map_congr_left
    intro q hq
    have hkey : q.1 ≠ key := by
      rintro rfl
      exact hps (List.mem_map_of_mem hq)
    exact if_neg hkey
  unfold DistinctKeys at h
  rw [List.map_append, List.map_cons, List.nodup_middle, List.nodup_cons, List.mem_append,
    not_or] at h
  rw [Js.setProp, if_pos (by simp), List.map_append, List.map_cons, if_pos rfl, hother _ h.1.1,
    hother _ h.1.2]

/-- What does not tell a property from the one that is set does not see it set. -/
theorem map_setProp_of_lookup {γ : Type*} {ps : List (JsString × β)} (hdistinct : DistinctKeys ps)
    {key : JsString} {b b' : β} (h : ps.lookup key = some b) {g : JsString × β → γ}
    (hg : g (key, b') = g (key, b)) : (setProp ps (key, b')).map g = ps.map g := by
  have hmem : key ∈ ps.map Prod.fst := List.mem_map_of_mem (mem_of_lookup h)
  rw [Js.setProp, if_pos hmem, List.map_map]
  refine List.map_congr_left fun q hq => ?_
  by_cases hkey : q.1 = key
  · have hlookup := lookup_eq_some_of_mem hdistinct hq
    rw [hkey, h] at hlookup
    have heq : q = (key, b) := Prod.ext hkey (Option.some.inj hlookup).symm
    rw [Function.comp_apply, if_pos hkey, heq, hg]
  · rw [Function.comp_apply, if_neg hkey]

/-- A property after one was set: that one, or one with another key. -/
theorem mem_setProp_cases {ps : List (JsString × β)} {p q : JsString × β} (h : q ∈ setProp ps p) :
    q = p ∨ q ∈ ps ∧ q.1 ≠ p.1 := by
  rw [Js.setProp] at h
  split_ifs at h with hmem
  · obtain ⟨r, hr, heq⟩ := List.mem_map.mp h
    split_ifs at heq with hkey
    · exact .inl heq.symm
    · exact .inr ⟨heq ▸ hr, heq ▸ hkey⟩
  · rcases List.mem_append.mp h with hq | hq
    · exact .inr ⟨hq, fun hkey => hmem (hkey ▸ List.mem_map_of_mem hq)⟩
    · exact .inl (List.mem_singleton.mp hq)

/-- A property after one was set. -/
theorem mem_of_mem_setProp {ps : List (JsString × β)} {p q : JsString × β} (h : q ∈ setProp ps p) :
    q = p ∨ q ∈ ps := (mem_setProp_cases h).imp_right And.left

/-- The property that was set. -/
theorem mem_setProp_self (ps : List (JsString × β)) (p : JsString × β) : p ∈ setProp ps p := by
  rw [Js.setProp]
  split_ifs with hmem
  · obtain ⟨q, hq, hkey⟩ := List.mem_map.mp hmem
    exact List.mem_map.mpr ⟨q, hq, if_pos hkey⟩
  · exact List.mem_append_right _ (List.mem_singleton_self p)

/-- The keys after a property was set. -/
theorem mem_keys_setProp {ps : List (JsString × β)} {p : JsString × β} {key : JsString} :
    key ∈ (setProp ps p).map Prod.fst ↔ key = p.1 ∨ key ∈ ps.map Prod.fst := by
  rw [← not_iff_not, ← lookup_eq_none_iff, lookup_setProp, not_or, ← lookup_eq_none_iff]
  split_ifs with hkey <;> simp [hkey]

/-- A lookup among the properties with some keys. -/
theorem lookup_filter {ps : List (JsString × β)} {q : JsString → Bool} {key : JsString}
    (h : q key = true) : (ps.filter fun p => q p.1).lookup key = ps.lookup key := by
  induction ps with
  | nil => rfl
  | cons p ps ih =>
    by_cases hkey : key = p.1
    · rw [List.filter_cons_of_pos (hkey ▸ h), List.lookup_cons, List.lookup_cons, hkey,
        beq_self_eq_true]
    · rw [List.lookup_cons, beq_eq_false_iff_ne.mpr hkey, ← ih, List.filter_cons]
      split_ifs
      · rw [List.lookup_cons, beq_eq_false_iff_ne.mpr hkey]
      · rfl

/-- The properties with some keys, after one with another key was set. -/
theorem filter_setProp {ps : List (JsString × β)} {q : JsString → Bool} {p : JsString × β}
    (h : q p.1 = false) : (setProp ps p).filter (fun p => q p.1) = ps.filter fun p => q p.1 := by
  rw [Js.setProp]
  split_ifs with hmem
  · clear hmem
    induction ps with
    | nil => rfl
    | cons r ps ih =>
      rw [List.map_cons, List.filter_cons, List.filter_cons, ih]
      by_cases hkey : r.1 = p.1
      · rw [if_pos hkey, hkey, if_neg (by simp [h]), if_neg (by simp [h])]
      · rw [if_neg hkey]
  · rw [List.filter_append, List.filter_cons_of_neg (by simp [h])]
    exact List.append_nil _

/-- An object has distinct keys, whatever it was made from. -/
theorem distinctKeys_fromEntries (entries : List (JsString × β)) :
    DistinctKeys (fromEntries entries) := by
  induction entries using List.reverseRecOn with
  | nil => exact List.nodup_nil
  | append_singleton es e ih =>
    rw [fromEntries, List.foldl_append]
    exact ih.setProp e

/-- Distinct keys are kept as they are. -/
theorem fromEntries_eq_self {entries : List (JsString × β)} (h : DistinctKeys entries) :
    fromEntries entries = entries := foldl_setProp h

end fromEntries

end Js
