import AgentEval.Crypto.Sha256
import AgentEval.Js.Object

/-!
# `canonical.ts`: canonical JSON

`canonicalize` writes a value with the keys of every object sorted by code unit and rejects what
JSON cannot hold, naming the place. `write` is the source's recursion; an enclosing object met
again is `JsVal.ancestor`, which is what its `seen` set detects.

* **`canonicalize_eq_ok_iff`**: the text is that of the JSON form with its keys sorted, when the JSON
  form is a JSON value, and there is none otherwise.
* **`sameUpToKeyOrder_of_canonicalText_eq`**: values with one canonical text have JSON forms that
  differ by the order of keys only.
* **`canonicalDigest_json`**: a digest survives the way through JSON text.
* **`canonical_faithful`**: on JSON values the text determines the value up to the order of keys,
  and `JSON.parse` gives it back.
-/

namespace AgentEval.Evidence

open Js Sha256

/-- Source: `canonical.ts`, `CanonicalizationError` -/
structure CanonicalizationError where
  /-- The text, with the place at its end. -/
  message : JsString
  /-- The place. -/
  path : JsString
  deriving DecidableEq

/-- The constructor's text.
Source: `canonical.ts`, `CanonicalizationError` -/
def canonicalizationError (message path : JsString) : CanonicalizationError :=
  ⟨message ++ js " at " ++ path, path⟩

/-- A canonicalization error as an `Error`. -/
def CanonicalizationError.toJsError (e : CanonicalizationError) : JsError :=
  ⟨js "CanonicalizationError", e.message⟩

mutual

/-- The canonical text of a value at a place. The properties of an object are written in the order
of their keys, so the first error in that order is the one thrown.
Source: `canonical.ts`, `write` -/
def write : JsVal → JsString → Except CanonicalizationError JsString
  | .null, _ => .ok (js "null")
  | .bool true, _ => .ok (js "true")
  | .bool false, _ => .ok (js "false")
  | .num .negZero, path =>
    .error (canonicalizationError (js "-0 does not round-trip through JSON") path)
  | .num (.finite x), _ => .ok (Number.finite x).toString
  | .num x, path =>
    .error (canonicalizationError (x.toString ++ js " cannot be represented in JSON") path)
  | .str s, _ => .ok (quote s)
  | .bigint _, path => .error
    (canonicalizationError (js "bigint is not valid JSON; format it as a string") path)
  | .undefined, path => .error (canonicalizationError (js "undefined is not valid JSON") path)
  | .function, path => .error (canonicalizationError (js "function cannot be serialized") path)
  | .symbol, path => .error (canonicalizationError (js "symbol cannot be serialized") path)
  | .ancestor _, path => .error (canonicalizationError (js "circular reference") path)
  | .date none, path => .error (canonicalizationError (js "invalid Date") path)
  | .date (some t), _ => .ok (quote t.toISOString)
  | .arr xs, path => do
    let items ← writeItems xs path 0
    return 91 :: (joinComma items ++ [93])
  | .obj ps, path => do
    let parts ← (sortProps (writeProps ps path)).mapM Prod.snd
    return 123 :: (joinComma parts ++ [125])

/-- The texts of the items of an array, from an index on.
Source: `canonical.ts`, `write` -/
def writeItems : List JsVal → JsString → ℕ → Except CanonicalizationError (List JsString)
  | [], _, _ => .ok []
  | x :: xs, path, i => do
    let item ← write x (path ++ js "[" ++ natDigits i ++ js "]")
    let items ← writeItems xs path (i + 1)
    return item :: items

/-- The texts of the properties of an object, each under its key; those that are `undefined` are
skipped.
Source: `canonical.ts`, `write` -/
def writeProps : Props → JsString → List (JsString × Except CanonicalizationError JsString)
  | [], _ => []
  | (k, v) :: ps, path =>
    if v.isUndefined then writeProps ps path
    else (k, (write v (path ++ js "." ++ k)).map (member k)) :: writeProps ps path

end

/-- Serialize a value to canonical JSON.
Source: `canonical.ts`, `canonicalize` -/
def canonicalize (value : JsVal) : Except CanonicalizationError JsString := write value (js "$")

/-! ## Computations that succeed exactly when a condition holds -/

section yields

variable {α β ε : Type} {x : Except ε α} {P Q : Prop} {a : α} {b : β}

/-- `x` succeeds exactly when `P` holds, and then with `a`. -/
def Yields (x : Except ε α) (P : Prop) (a : α) : Prop := ∀ c, x = .ok c ↔ P ∧ c = a

/-- A success. -/
theorem Yields.ok (h : P) : Yields (.ok a : Except ε α) P a := by
  intro c
  constructor
  · intro hc
    cases hc
    exact ⟨h, rfl⟩
  · rintro ⟨-, rfl⟩
    rfl

/-- A failure. -/
theorem Yields.error {e : ε} (h : ¬ P) : Yields (.error e) P a := by
  intro c
  constructor
  · intro hc
    cases hc
  · exact fun hc => absurd hc.1 h

/-- One computation after another. -/
theorem Yields.bind {f : α → Except ε β} (hx : Yields x P a) (hf : Yields (f a) Q b) :
    Yields (x >>= f) (P ∧ Q) b := by
  intro c
  cases h : x with
  | error e =>
    constructor
    · intro hc
      cases hc
    · rintro ⟨⟨hp, -⟩, -⟩
      rw [(hx a).mpr ⟨hp, rfl⟩] at h
      cases h
  | ok d =>
    obtain ⟨hp, rfl⟩ := (hx d).mp h
    rw [and_assoc]
    exact (hf c).trans (and_iff_right hp).symm

/-- A function applied to the result. -/
theorem Yields.map (f : α → β) (hx : Yields x P a) : Yields (x.map f) P (f a) := by
  have h := hx.bind (f := fun c => .ok (f c)) (Yields.ok (P := True) trivial)
  rw [and_true] at h
  cases x <;> exact h

/-- A list of computations. -/
theorem Yields.mapM {f : α → Except ε β} {p : α → Prop} {g : α → β} {xs : List α}
    (h : ∀ x ∈ xs, Yields (f x) (p x) (g x)) : Yields (xs.mapM f) (∀ x ∈ xs, p x) (xs.map g) := by
  induction xs with
  | nil =>
    rw [List.mapM_nil]
    exact Yields.ok (by simp)
  | cons x xs ih =>
    rw [List.forall_mem_cons] at h
    rw [List.mapM_cons, List.map_cons]
    simp only [List.forall_mem_cons]
    have hrest := (ih h.2).bind (f := fun ys => .ok (g x :: ys)) (Yields.ok (P := True) trivial)
    rw [and_true] at hrest
    exact h.1.bind hrest

end yields

/-! ## The text -/

/-- The properties that are written. -/
theorem writeProps_eq (ps : Props) (path : JsString) :
    writeProps ps path = (ps.filter fun p => !p.2.isUndefined).map fun p =>
      (p.1, (write p.2 (path ++ js "." ++ p.1)).map (member p.1)) := by
  induction ps with
  | nil => rfl
  | cons p ps ih =>
    rw [writeProps, ih]
    cases hu : p.2.isUndefined <;> simp [hu]

/-- The text of a value that is written. -/
def canonicalText (v : JsVal) : JsString := render v.jsonForm.sortKeys

/-- The items of an array are written exactly when each is. -/
theorem writeItems_yields {xs : List JsVal}
    (h : ∀ x ∈ xs, ∀ path, Yields (write x path) x.jsonForm.IsJson (canonicalText x))
    (path : JsString) (i : ℕ) :
    Yields (writeItems xs path i) (∀ x ∈ xs, x.jsonForm.IsJson) (xs.map canonicalText) := by
  induction xs generalizing i with
  | nil => exact Yields.ok (by simp)
  | cons x xs ih =>
    rw [List.forall_mem_cons] at h
    rw [writeItems, List.map_cons]
    simp only [List.forall_mem_cons]
    have hrest := (ih h.2 (i + 1)).bind (f := fun items => .ok (canonicalText x :: items))
      (Yields.ok (P := True) trivial)
    rw [and_true] at hrest
    exact (h.1 _).bind hrest

/-- The canonical text of an array. -/
theorem canonicalText_arr (xs : List JsVal) :
    canonicalText (.arr xs) = 91 :: (joinComma (xs.map canonicalText) ++ [93]) := by
  rw [canonicalText, JsVal.jsonForm_arr, JsVal.sortKeys_arr, render_arr, List.map_map, List.map_map]
  rfl

/-- The canonical text of an object. -/
theorem canonicalText_obj (ps : Props) :
    canonicalText (.obj ps) =
      123 :: (joinComma ((sortProps (ps.filter fun p => !p.2.isUndefined)).map fun p =>
        member p.1 (canonicalText p.2)) ++ [125]) := by
  rw [canonicalText, JsVal.jsonForm_obj, JsVal.sortKeys_obj, List.map_map, render_obj]
  have hsort := map_sortProps (fun _ v => JsVal.sortKeys (JsVal.jsonForm v))
    (ps.filter fun p => !p.2.isUndefined)
  have hcomp : ((fun p : JsString × JsVal => (p.1, p.2.sortKeys)) ∘
      fun p : JsString × JsVal => (p.1, p.2.jsonForm)) = fun p => (p.1, p.2.jsonForm.sortKeys) := rfl
  rw [hcomp, ← hsort, List.map_map]
  rfl

/-- **A value is written exactly when its JSON form is a JSON value**, as the text of that with its
keys sorted. -/
theorem write_yields {v : JsVal} (hv : v.WF) (path : JsString) :
    Yields (write v path) v.jsonForm.IsJson (canonicalText v) := by
  induction v using JsVal.induct generalizing path with
  | undefined => exact Yields.error id
  | null => exact Yields.ok trivial
  | bool b => cases b <;> exact Yields.ok trivial
  | num x =>
    cases x with
    | finite x => exact Yields.ok trivial
    | _ => exact Yields.error id
  | str s => exact Yields.ok trivial
  | bigint n => exact Yields.error id
  | function => exact Yields.error id
  | symbol => exact Yields.error id
  | date t =>
    cases t with
    | none => exact Yields.error id
    | some t => exact Yields.ok trivial
  | ancestor k => exact Yields.error id
  | arr xs ih =>
    have hxs := JsVal.wf_arr.mp hv
    rw [write, JsVal.jsonForm_arr, JsVal.isJson_arr, List.forall_mem_map, canonicalText_arr]
    have h := (writeItems_yields (fun x hx => ih x hx (hxs x hx)) path 0).bind
      (f := fun items => .ok (91 :: (joinComma items ++ [93]))) (Yields.ok (P := True) trivial)
    rwa [and_true] at h
  | obj ps ih =>
    obtain ⟨hk, hps⟩ := JsVal.wf_obj.mp hv
    have hkeys : DistinctKeys (ps.filter fun p => !p.2.isUndefined) :=
      List.Nodup.sublist (List.Sublist.map _ List.filter_sublist) hk
    have hparts : Yields ((sortProps (ps.filter fun p => !p.2.isUndefined)).mapM fun p =>
        (write p.2 (path ++ js "." ++ p.1)).map (member p.1))
        (∀ p ∈ sortProps (ps.filter fun p => !p.2.isUndefined), JsVal.IsJson p.2.jsonForm)
        ((sortProps (ps.filter fun p => !p.2.isUndefined)).map fun p =>
          member p.1 (canonicalText p.2)) :=
      Yields.mapM fun p hp => by
        have hmem := List.mem_of_mem_filter (mem_sortProps.mp hp)
        exact (ih p hmem (hps p hmem) _).map _
    have h := hparts.bind (f := fun parts => .ok (123 :: (joinComma parts ++ [125])))
      (Yields.ok (P := True) trivial)
    rw [write, JsVal.jsonForm_obj, JsVal.isJson_obj, List.forall_mem_map, canonicalText_obj,
      JsVal.distinctKeys_map, writeProps_eq,
      ← map_sortProps fun k v => (write v (path ++ js "." ++ k)).map (member k), List.mapM_map]
    simp only [and_true, mem_sortProps] at h
    rw [and_iff_right hkeys]
    exact h

/-! ## Faithfulness -/

/-- **Canonicalizing succeeds exactly when the JSON form is a JSON value**, with the text of that
with its keys sorted. -/
theorem canonicalize_eq_ok_iff {v : JsVal} (hv : v.WF) {s : JsString} :
    canonicalize v = .ok s ↔ v.jsonForm.IsJson ∧ s = canonicalText v :=
  write_yields hv _ s

/-- **Values with one canonical text have JSON forms that differ by the order of keys only.** -/
theorem sameUpToKeyOrder_of_canonicalText_eq {v w : JsVal} (hv : v.jsonForm.IsJson)
    (hw : w.jsonForm.IsJson) (h : canonicalText v = canonicalText w) :
    v.jsonForm.SameUpToKeyOrder w.jsonForm :=
  (JsVal.sortKeys_eq_iff hv.wf).mp (render_injective hv.sortKeys hw.sortKeys h)

/-- JSON forms that differ by the order of keys only have one canonical text. -/
theorem canonicalText_eq_of_sameUpToKeyOrder {v w : JsVal} (hv : v.jsonForm.WF)
    (h : v.jsonForm.SameUpToKeyOrder w.jsonForm) : canonicalText v = canonicalText w := by
  rw [canonicalText, canonicalText, (JsVal.sortKeys_eq_iff hv).mpr h]

/-- The canonical text is that of the JSON form. -/
theorem canonicalText_jsonForm {v : JsVal} (h : v.jsonForm.IsJson) :
    canonicalText v.jsonForm = canonicalText v := by
  rw [canonicalText, canonicalText, h.jsonForm_eq]

/-- The octets hashed and signed determine the canonical text. -/
theorem canonicalText_eq_of_utf8_eq {v w : JsVal}
    (h : utf8 (canonicalText v) = utf8 (canonicalText w)) : canonicalText v = canonicalText w :=
  utf8_injective (wellFormed_render _) (wellFormed_render _) h

/-! ## Digests -/

/-- The octets a digest of an object covers. -/
def canonicalBytes (o : PlainObject) : Bytes := utf8 (canonicalText o.toJs)

/-- SHA-256 over the canonical form of an object, in hexadecimal: what `entryDigest`,
`manifestDigest` and `bundleDigest` are. -/
def canonicalDigest (o : PlainObject) : Except CanonicalizationError JsString :=
  (canonicalize o.toJs).map fun s => toHex (sha256 (utf8 s)).bytes

/-- The digest exists exactly when the JSON form is a JSON value. -/
theorem canonicalDigest_eq_ok_iff {o : PlainObject} {digest : JsString} :
    canonicalDigest o = .ok digest ↔
      o.toJs.jsonForm.IsJson ∧ digest = toHex (sha256 (canonicalBytes o)).bytes := by
  rw [canonicalDigest, canonicalBytes]
  constructor
  · intro h
    cases hc : canonicalize o.toJs with
    | error e =>
      rw [hc] at h
      cases h
    | ok s =>
      obtain ⟨hjson, rfl⟩ := (canonicalize_eq_ok_iff o.wf).mp hc
      rw [hc] at h
      exact ⟨hjson, (Except.ok.inj h).symm⟩
  · rintro ⟨hjson, rfl⟩
    have hc : canonicalize o.toJs = .ok (canonicalText o.toJs) :=
      (canonicalize_eq_ok_iff o.wf).mpr ⟨hjson, rfl⟩
    rw [hc]
    rfl

/-- The octets survive the way through JSON text. -/
theorem canonicalBytes_json {o : PlainObject} (h : o.toJs.jsonForm.IsJson) :
    canonicalBytes o.json = canonicalBytes o := by
  rw [canonicalBytes, canonicalBytes, PlainObject.toJs_json, canonicalText_jsonForm h]

/-- **A digest survives the way through JSON text.** -/
theorem canonicalDigest_json {o : PlainObject} {digest : JsString}
    (h : canonicalDigest o = .ok digest) : canonicalDigest o.json = .ok digest := by
  obtain ⟨hjson, rfl⟩ := canonicalDigest_eq_ok_iff.mp h
  refine canonicalDigest_eq_ok_iff.mpr ⟨?_, ?_⟩
  · rwa [PlainObject.toJs_json, hjson.jsonForm_eq]
  · rw [canonicalBytes_json hjson]

/-! ## JSON values -/

/-- The JSON values: strings of any code units, finite numbers other than `-0`, booleans, null,
arrays and objects, nested to any depth. -/
abbrev JsonValue := {v : JsVal // v.IsJson}

/-- **Canonical JSON is faithful and injective.** -/
theorem canonical_faithful (a b : JsonValue) :
    (canonicalize a = canonicalize b ↔ a.val.SameUpToKeyOrder b) ∧
      ∃ s v, canonicalize a = .ok s ∧ jsonParse s = some v ∧ v.SameUpToKeyOrder a := by
  obtain ⟨a, ha⟩ := a
  obtain ⟨b, hb⟩ := b
  have ha' : a.jsonForm.IsJson := ha.jsonForm_eq.symm ▸ ha
  have hb' : b.jsonForm.IsJson := hb.jsonForm_eq.symm ▸ hb
  have hca := (canonicalize_eq_ok_iff ha.wf).mpr ⟨ha', rfl⟩
  have hcb := (canonicalize_eq_ok_iff hb.wf).mpr ⟨hb', rfl⟩
  refine ⟨?_, canonicalText a, a.sortKeys, hca, ?_, (JsVal.sameUpToKeyOrder_sortKeys a).symm⟩
  · rw [hca, hcb, Except.ok.injEq]
    refine ⟨fun h => ?_, fun h => ?_⟩
    · have := sameUpToKeyOrder_of_canonicalText_eq ha' hb' h
      rwa [ha.jsonForm_eq, hb.jsonForm_eq] at this
    · refine canonicalText_eq_of_sameUpToKeyOrder ha'.wf ?_
      rwa [ha.jsonForm_eq, hb.jsonForm_eq]
  · rw [canonicalText, ha.jsonForm_eq]
    exact jsonParse_render ha.sortKeys

end AgentEval.Evidence
