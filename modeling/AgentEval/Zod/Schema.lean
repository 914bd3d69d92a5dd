import AgentEval.Js.Object

/-!
# Schemas

The schemas that are built with `z.object`, `z.string` and the other builders of the package `zod`,
as syntax, and what the package documents of them: which values a schema accepts, and what
`safeParse` returns for those. What it says about the values it refuses is left open.

* **`Schema.parse_idem`**: what a schema has returned it accepts again, unchanged.
* **`isDatetime_toISOString`**: the dates whose text `datetime` accepts.
-/

namespace Zod

open Js

/-! ## Dates -/

/-- What is left after the seconds, which may be left out, and their fraction. -/
def dropSeconds (s : JsString) : JsString :=
  match scanPart 58 2 s with
  | none => s
  | some (sec, rest) =>
    if 59 < sec then s
    else match rest with
      | 46 :: u :: fraction => if isDigit u then fraction.dropWhile isDigit else rest
      | _ => rest

/-- `Z`, or an offset with or without a colon. -/
def isZone : JsString → Bool
  | [90] => true
  | u :: s =>
    (u == 43 || u == 45) &&
      match scanFixed 2 s with
      | some (_, 58 :: rest) => rest.length == 2 && rest.all isDigit
      | some (_, rest) => rest.length == 2 && rest.all isDigit
      | none => false
  | [] => false

/-- A date of the calendar. -/
def isDay (y m d : ℕ) : Bool :=
  decide (1 ≤ m ∧ m ≤ 12 ∧ 1 ≤ d ∧ (d : ℤ) ≤ daysInMonth (isLeap y) m)

/-- The check of `z.string().datetime({ offset: true })`: the year has four digits. -/
def isDatetime (s : JsString) : Bool :=
  ((scanFixed 4 s).bind fun (y, s) => (scanPart 45 2 s).bind fun (m, s) =>
    (scanPart 45 2 s).bind fun (d, s) => (scanPart 84 2 s).bind fun (h, s) =>
      (scanPart 58 2 s).map fun (min, s) =>
        isDay y m d && decide (h ≤ 23 ∧ min ≤ 59) && isZone (dropSeconds s)).getD false

section isDatetime

variable (t : TimeValue)

/-- The fraction of a second is dropped with the second. -/
theorem dropSeconds_fixedDigits {sec ms : ℕ} (hsec : sec ≤ 59) :
    dropSeconds (58 :: (fixedDigits 2 sec ++ 46 :: (fixedDigits 3 ms ++ [90]))) = [90] := by
  obtain ⟨a, b, c, habc⟩ : ∃ a b c, fixedDigits 3 ms = [a, b, c] :=
    List.length_eq_three.mp (length_fixedDigits 3 ms)
  have hdigits := all_isDigit_fixedDigits 3 ms
  rw [habc] at hdigits
  simp only [List.all_cons, List.all_nil, Bool.and_true, Bool.and_eq_true] at hdigits
  obtain ⟨ha, hb, hc⟩ := hdigits
  have hzone : isDigit 90 = false := rfl
  rw [dropSeconds, scanPart_fixedDigits (by norm_num; omega), habc]
  simp [ha, hb, hc, hzone, hsec]

/-- The text of a date whose year has four digits is accepted. -/
theorem isDatetime_of_year (h₁ : 0 ≤ t.year) (h₂ : t.year ≤ 9999) :
    isDatetime t.toISOString = true := by
  obtain ⟨hm₁, hm₂, hd₁, hd₂, -⟩ := t.date_spec
  have htime : t.timeInDay < 86400000 := by
    unfold TimeValue.timeInDay
    omega
  have hd31 : t.date ≤ 31 := by
    have : daysInMonth (isLeap t.year) t.month ≤ 31 := by
      unfold daysInMonth leapDay
      split_ifs <;> omega
    omega
  have hyear : ((t.year.toNat : ℕ) : ℤ) = t.year := Int.toNat_of_nonneg h₁
  have hscan := fun s => @scanFixed_fixedDigits 4 t.year.toNat (by norm_num; omega) s
  have hmonth := fun s => @scanPart_fixedDigits 2 t.month (by norm_num; omega) 45 s
  have hdate := fun s => @scanPart_fixedDigits 2 t.date (by norm_num; omega) 45 s
  have hhour := fun s => @scanPart_fixedDigits 2 (t.timeInDay / 3600000) (by norm_num; omega) 84 s
  have hminute := fun s =>
    @scanPart_fixedDigits 2 (t.timeInDay / 60000 % 60) (by norm_num; omega) 58 s
  have hday : isDay t.year.toNat t.month t.date = true := by
    rw [isDay, hyear]
    exact decide_eq_true ⟨hm₁, hm₂, hd₁, hd₂⟩
  have hclock : decide (t.timeInDay / 3600000 ≤ 23 ∧ t.timeInDay / 60000 % 60 ≤ 59) = true := by
    apply decide_eq_true
    omega
  rw [isDatetime, TimeValue.toISOString, yearText, if_pos ⟨h₁, h₂⟩, hscan]
  simp only [Option.bind_some, Option.map_some, Option.getD_some, hmonth, hdate, hhour, hminute]
  rw [dropSeconds_fixedDigits (by omega), hday, hclock]
  rfl

/-- **The dates whose text is accepted** are those whose year has four digits. -/
theorem isDatetime_toISOString :
    isDatetime t.toISOString = true ↔ 0 ≤ t.year ∧ t.year ≤ 9999 := by
  refine ⟨fun h => ?_, fun h => isDatetime_of_year t h.1 h.2⟩
  by_contra hyear
  obtain ⟨u, s, htext, hu⟩ : ∃ u s, t.toISOString = u :: s ∧ isDigit u = false := by
    rw [TimeValue.toISOString, yearText, if_neg hyear]
    refine ⟨_, _, rfl, ?_⟩
    split_ifs <;> rfl
  have hscan : scanFixed 4 (u :: s) = none := by
    rw [scanFixed, if_neg]
    simp [hu]
  rw [htext, isDatetime, hscan] at h
  cases h

end isDatetime

/-! ## Schemas -/

/-- A check of a string. -/
inductive StringCheck where
  /-- `.min` -/
  | min (length : ℕ) (message : Option JsString)
  /-- `.regex` -/
  | regex (test : JsString → Bool) (message : Option JsString)
  /-- `.datetime({ offset: true })` -/
  | datetime

/-- Whether a string passes. -/
def StringCheck.passes : StringCheck → JsString → Bool
  | min length _, s => decide (length ≤ s.length)
  | regex test _, s => test s
  | datetime, s => isDatetime s

/-- A check of a Number. -/
inductive NumberCheck where
  /-- `.int` -/
  | int
  /-- `.min`, and `.nonnegative` for zero. -/
  | min (bound : ℕ) (message : Option JsString)
  /-- `.max` -/
  | max (bound : ℕ)
  /-- `.positive` -/
  | positive

/-- Whether a Number passes. -/
def NumberCheck.passes : NumberCheck → Number → Bool
  | int, x => x.isInteger
  | min bound _, x => (Number.ofNat bound).le x
  | max bound, x => x.le (.ofNat bound)
  | positive, x => (Number.ofNat 0).lt x

/-- What an issue of `superRefine` says, and where. -/
structure Issue where
  /-- The way to the value: keys and indices. -/
  path : List JsVal
  /-- What is wrong with it. -/
  message : JsString

/-- A schema. -/
inductive Schema where
  /-- `z.unknown()` -/
  | unknown
  /-- `z.boolean()` -/
  | boolean
  /-- `z.string()` -/
  | string (checks : List StringCheck)
  /-- `z.number()` -/
  | number (checks : List NumberCheck)
  /-- `z.enum`, and `z.literal` of a string. -/
  | enum (options : List JsString)
  /-- `.nullable()` -/
  | nullable (s : Schema)
  /-- `.optional()` -/
  | optional (s : Schema)
  /-- `.default` -/
  | default (s : Schema) (value : JsVal)
  /-- `z.array` -/
  | array (s : Schema)
  /-- `z.record` -/
  | record (s : Schema)
  /-- `z.object`, with `.strict()`. -/
  | strict (shape : List (JsString × Schema))
  /-- `.refine` -/
  | refine (s : Schema) (check : JsVal → Bool) (message : JsString)
  /-- `.superRefine` -/
  | superRefine (s : Schema) (issues : JsVal → List Issue)

namespace Schema

mutual

/-- What `safeParse` returns for a value that a schema accepts. -/
def parse : Schema → JsVal → Option JsVal
  | unknown, v => some v
  | boolean, .bool b => some (.bool b)
  | boolean, _ => none
  | string checks, .str s => if checks.all (·.passes s) then some (.str s) else none
  | string _, _ => none
  | number checks, .num x =>
    if x ≠ .nan ∧ checks.all (·.passes x) then some (.num x) else none
  | number _, _ => none
  | enum options, .str s => if s ∈ options then some (.str s) else none
  | enum _, _ => none
  | nullable _, .null => some .null
  | nullable s, v => s.parse v
  | optional _, .undefined => some .undefined
  | optional s, v => s.parse v
  | default s value, .undefined => s.parse value
  | default s _, v => s.parse v
  | array s, .arr xs => (xs.mapM fun x => s.parse x).map .arr
  | array _, _ => none
  | record s, .obj ps =>
    (ps.mapM fun p => (s.parse p.2).map fun w => (p.1, w)).map fun qs =>
      .obj (qs.filter fun q => decide (q.1 ≠ js "__proto__"))
  | record _, _ => none
  | strict shape, .obj ps =>
    if ps.all fun p => decide (p.1 ∈ shape.map Prod.fst) then (parseShape shape ps).map .obj
    else none
  | strict _, _ => none
  | refine s check _, v => (s.parse v).filter check
  | superRefine s issues, v => (s.parse v).filter fun w => (issues w).isEmpty

/-- The properties in the order of the shape; a property that is missing stays so unless it has a
default. -/
def parseShape : List (JsString × Schema) → Props → Option Props
  | [], _ => some []
  | (key, s) :: shape, ps =>
    match s.parse (getProp ps key), parseShape shape ps with
    | some w, some qs =>
      if w.isUndefined = true ∧ key ∉ ps.map Prod.fst then some qs else some ((key, w) :: qs)
    | _, _ => none

end

section

-- the equations are derived here, once, and not by each proof that unfolds
attribute [local simp] parse parseShape

end

/-! ## What is accepted is accepted again -/

mutual

/-- Objects have each key once, and nothing that has a default is parsed to `undefined`. -/
def Settled : Schema → Prop
  | nullable s => s.Settled
  | optional s => s.Settled
  | default s _ => s.Settled ∧ ∀ v, s.parse v ≠ some .undefined
  | array s => s.Settled
  | record s => s.Settled
  | strict shape => DistinctKeys shape ∧ SettledShape shape
  | refine s _ _ => s.Settled
  | superRefine s _ => s.Settled
  | _ => True

/-- Every property of a shape is settled. -/
def SettledShape : List (JsString × Schema) → Prop
  | [] => True
  | (_, s) :: shape => s.Settled ∧ SettledShape shape

end

section idem

variable {s : Schema} {shape : List (JsString × Schema)} {ps qs : Props} {v w : JsVal}

/-- A nullable schema on anything but `null`. -/
theorem parse_nullable_of_ne (h : v ≠ .null) : (nullable s).parse v = s.parse v := by
  cases v with
  | null => exact absurd rfl h
  | _ => rfl

/-- An optional schema on anything but `undefined`. -/
theorem parse_optional_of_ne (h : v ≠ .undefined) : (optional s).parse v = s.parse v := by
  cases v with
  | undefined => exact absurd rfl h
  | _ => rfl

/-- A schema with a default on anything but `undefined`. -/
theorem parse_default_of_ne {value : JsVal} (h : v ≠ .undefined) :
    (default s value).parse v = s.parse v := by
  cases v with
  | undefined => exact absurd rfl h
  | _ => rfl

/-- A shape is parsed by its own keys only. -/
theorem parseShape_congr
    (h : ∀ key ∈ shape.map Prod.fst, getProp ps key = getProp qs key ∧
      (key ∈ ps.map Prod.fst ↔ key ∈ qs.map Prod.fst)) :
    parseShape shape ps = parseShape shape qs := by
  induction shape with
  | nil => rw [parseShape, parseShape]
  | cons p shape ih =>
    obtain ⟨key, s⟩ := p
    obtain ⟨hprop, hmem⟩ := h key (List.mem_cons_self ..)
    rw [parseShape, parseShape, ih fun k hk => h k (List.mem_cons_of_mem _ hk), hprop]
    simp only [hmem]

/-- The keys of what is returned are those of the shape. -/
theorem keys_of_parseShape (h : parseShape shape ps = some qs) :
    ∀ key ∈ qs.map Prod.fst, key ∈ shape.map Prod.fst := by
  induction shape generalizing qs with
  | nil =>
    rw [parseShape, Option.some.injEq] at h
    simp [← h]
  | cons p shape ih =>
    obtain ⟨key, s⟩ := p
    rw [parseShape] at h
    split at h
    · rename_i w rest hw hrest
      split_ifs at h with hskip
      · cases h
        exact fun k hk => List.mem_cons_of_mem _ (ih hrest k hk)
      · cases h
        intro k hk
        rcases List.mem_cons.mp hk with rfl | hk
        · exact List.mem_cons_self ..
        · exact List.mem_cons_of_mem _ (ih hrest k hk)
    · cases h

/-- A shape whose schemas accept again what they return does so too. -/
theorem parseShape_idem (hkeys : DistinctKeys shape)
    (hshape : ∀ p ∈ shape, ∀ v w, p.2.parse v = some w → p.2.parse w = some w)
    (h : parseShape shape ps = some qs) : parseShape shape qs = some qs := by
  induction shape generalizing qs with
  | nil =>
    rw [parseShape, Option.some.injEq] at h
    rw [← h, parseShape]
  | cons p shape ih =>
    obtain ⟨key, s⟩ := p
    obtain ⟨hnotMem, hkeys⟩ := List.nodup_cons.mp hkeys
    obtain ⟨hs, hshape⟩ := List.forall_mem_cons.mp hshape
    rw [parseShape] at h
    split at h
    · rename_i w rest hw hrest
      have hrest' := ih hkeys hshape hrest
      have hkey : key ∉ rest.map Prod.fst := fun hmem => hnotMem (keys_of_parseShape hrest key hmem)
      split_ifs at h with hskip
      · obtain ⟨hundefined, hps⟩ := hskip
        obtain rfl : w = .undefined := by
          cases w <;> first | rfl | cases hundefined
        obtain rfl := Option.some.inj h
        rw [getProp_of_notMem hps] at hw
        rw [parseShape, getProp_of_notMem hkey, hw, hrest']
        simp [JsVal.isUndefined, hkey]
      · obtain rfl := Option.some.inj h
        have hsame : parseShape shape ((key, w) :: rest) = parseShape shape rest := by
          refine parseShape_congr fun k hk => ?_
          have hne : k ≠ key := fun heq => hnotMem (heq ▸ hk)
          exact ⟨if_neg hne.symm, by simp [hne]⟩
        have hget : getProp ((key, w) :: rest) key = w := if_pos rfl
        rw [parseShape, hget, hs _ _ hw, hsame, hrest']
        simp
    · cases h

/-- A property that its schema refuses. -/
theorem parseShape_eq_none {key : JsString} (hmem : (key, s) ∈ shape)
    (hrefuse : s.parse (getProp ps key) = none) : parseShape shape ps = none := by
  induction shape with
  | nil => exact absurd hmem List.not_mem_nil
  | cons p shape ih =>
    obtain ⟨key', s'⟩ := p
    rw [parseShape]
    rcases List.mem_cons.mp hmem with heq | hmem
    · obtain ⟨rfl, rfl⟩ := Prod.mk.inj heq
      rw [hrefuse]
    · rw [ih hmem]
      cases s'.parse (getProp ps key') <;> rfl

/-- A property that its schema returns as it is. -/
theorem parseShape_cons_same {key : JsString} (hv : s.parse v = some v)
    (hkey : key ∉ shape.map Prod.fst) (hrest : parseShape shape ps = some ps) :
    parseShape ((key, s) :: shape) ((key, v) :: ps) = some ((key, v) :: ps) := by
  have hget : getProp ((key, v) :: ps) key = v := if_pos rfl
  have hsame : parseShape shape ((key, v) :: ps) = parseShape shape ps := by
    refine parseShape_congr fun k hk => ?_
    have hne : k ≠ key := fun heq => hkey (heq ▸ hk)
    exact ⟨if_neg hne.symm, by simp [hne]⟩
  rw [parseShape, hget, hv, hsame, hrest]
  simp

/-- A property that may be missing, and is. -/
theorem parseShape_cons_missing {key : JsString} (hkey : key ∉ shape.map Prod.fst)
    (hrest : parseShape shape ps = some ps) :
    parseShape ((key, optional s) :: shape) ps = some ps := by
  have hkey' : key ∉ ps.map Prod.fst := fun hmem => hkey (keys_of_parseShape hrest key hmem)
  rw [parseShape, getProp_of_notMem hkey', hrest, parse]
  simp [JsVal.isUndefined, hkey']

/-- A property that may be missing, and is returned as it is where it is there. -/
theorem parseShape_cons_optional {key : JsString} {value : Option JsVal}
    (hvalue : ∀ v ∈ value, s.parse v = some v) (hkey : key ∉ shape.map Prod.fst)
    (hrest : parseShape shape ps = some ps) :
    parseShape ((key, optional s) :: shape) ((value.map fun v => (key, v)).toList ++ ps) =
      some ((value.map fun v => (key, v)).toList ++ ps) := by
  cases value with
  | none => exact parseShape_cons_missing hkey hrest
  | some v =>
    have hv : (optional s).parse v = some v := by
      by_cases hundefined : v = .undefined
      · rw [hundefined, parse]
      · rw [parse_optional_of_ne hundefined]
        exact hvalue v rfl
    exact parseShape_cons_same hv hkey hrest

/-- An object whose properties are returned as they are. -/
theorem parse_strict_self (h : parseShape shape ps = some ps) :
    (strict shape).parse (.obj ps) = some (.obj ps) := by
  rw [parse, if_pos, h]
  · rfl
  · rw [List.all_eq_true]
    exact fun q hq => decide_eq_true (keys_of_parseShape h q.1 (List.mem_map_of_mem hq))

/-- An object with a property that its schema refuses. -/
theorem parse_strict_eq_none {key : JsString} (hmem : (key, s) ∈ shape)
    (hrefuse : s.parse (getProp ps key) = none) : (strict shape).parse (.obj ps) = none := by
  rw [parse, parseShape_eq_none hmem hrefuse]
  exact ite_self _

/-- Induction over a schema. -/
@[elab_as_elim]
theorem induct {motive : Schema → Prop} (unknown : motive .unknown) (boolean : motive .boolean)
    (string : ∀ checks, motive (.string checks)) (number : ∀ checks, motive (.number checks))
    (enum : ∀ options, motive (.enum options)) (nullable : ∀ s, motive s → motive (.nullable s))
    (optional : ∀ s, motive s → motive (.optional s))
    (default : ∀ s value, motive s → motive (.default s value))
    (array : ∀ s, motive s → motive (.array s)) (record : ∀ s, motive s → motive (.record s))
    (strict : ∀ shape, (∀ p ∈ shape, motive (Prod.snd p)) → motive (.strict shape))
    (refine : ∀ s check message, motive s → motive (.refine s check message))
    (superRefine : ∀ s issues, motive s → motive (.superRefine s issues)) (s : Schema) :
    motive s :=
  @Schema.rec motive (fun shape => ∀ p ∈ shape, motive p.2) (fun p => motive p.2) unknown boolean
    string number enum nullable optional default array record strict refine superRefine
    (fun _ h => absurd h List.not_mem_nil) (fun _ _ hp hps => List.forall_mem_cons.mpr ⟨hp, hps⟩)
    (fun _ _ h => h) s

/-- Every property of a settled shape is settled. -/
theorem SettledShape.of_mem (h : SettledShape shape) : ∀ p ∈ shape, p.2.Settled := by
  induction shape with
  | nil => exact fun _ hp => absurd hp List.not_mem_nil
  | cons p shape ih =>
    obtain ⟨key, s⟩ := p
    exact List.forall_mem_cons.mpr ⟨h.1, ih h.2⟩

section mapM

variable {β : Type} {f : β → Option β} {xs ys : List β}

/-- What is returned for the items of a list. -/
theorem exists_of_mapM (h : xs.mapM f = some ys) : ∀ y ∈ ys, ∃ x, f x = some y := by
  induction xs generalizing ys with
  | nil =>
    rw [List.mapM_nil] at h
    obtain rfl := Option.some.inj h
    exact fun _ hy => absurd hy List.not_mem_nil
  | cons x xs ih =>
    rw [List.mapM_cons] at h
    obtain ⟨y, hy, h⟩ := Option.bind_eq_some_iff.mp h
    obtain ⟨rest, hrest, h⟩ := Option.bind_eq_some_iff.mp h
    obtain rfl := Option.some.inj h
    exact List.forall_mem_cons.mpr ⟨⟨x, hy⟩, ih hrest⟩

/-- Items that are returned as they are. -/
theorem mapM_self (h : ∀ x ∈ xs, f x = some x) : xs.mapM f = some xs := by
  induction xs with
  | nil => rfl
  | cons x xs ih =>
    obtain ⟨hx, hxs⟩ := List.forall_mem_cons.mp h
    rw [List.mapM_cons, hx, ih hxs]
    rfl

end mapM

/-- **What a schema has returned it accepts again**, unchanged. -/
theorem parse_idem (hs : s.Settled) (h : s.parse v = some w) : s.parse w = some w := by
  induction s using induct generalizing v w with
  | unknown => rw [parse]
  | boolean =>
    cases v <;> cases h
    rfl
  | string checks =>
    cases v with
    | str t =>
      have hw := h
      rw [parse] at hw
      split_ifs at hw with hpasses
      obtain rfl := Option.some.inj hw
      exact h
    | _ => cases h
  | number checks =>
    cases v with
    | num x =>
      have hw := h
      rw [parse] at hw
      split_ifs at hw with hpasses
      obtain rfl := Option.some.inj hw
      exact h
    | _ => cases h
  | enum options =>
    cases v with
    | str t =>
      have hw := h
      rw [parse] at hw
      split_ifs at hw with hmem
      obtain rfl := Option.some.inj hw
      exact h
    | _ => cases h
  | nullable s ih =>
    by_cases hw : w = .null
    · rw [hw]
      rfl
    · have hv : v ≠ .null := by
        rintro rfl
        exact hw (Option.some.inj h).symm
      rw [parse_nullable_of_ne hv] at h
      rw [parse_nullable_of_ne hw]
      exact ih hs h
  | optional s ih =>
    by_cases hw : w = .undefined
    · rw [hw]
      rfl
    · have hv : v ≠ .undefined := by
        rintro rfl
        exact hw (Option.some.inj h).symm
      rw [parse_optional_of_ne hv] at h
      rw [parse_optional_of_ne hw]
      exact ih hs h
  | default s value ih =>
    obtain ⟨hs, hdefined⟩ := hs
    obtain ⟨u, hu⟩ : ∃ u, s.parse u = some w := by
      by_cases hv : v = .undefined
      · rw [hv] at h
        exact ⟨value, h⟩
      · exact ⟨v, (parse_default_of_ne hv).symm.trans h⟩
    have hw : w ≠ .undefined := by
      rintro rfl
      exact hdefined u hu
    rw [parse_default_of_ne hw]
    exact ih hs hu
  | array s ih =>
    cases v with
    | arr xs =>
      rw [parse, Option.map_eq_some_iff] at h
      obtain ⟨ys, hys, rfl⟩ := h
      rw [parse, mapM_self]
      · rfl
      · intro y hy
        obtain ⟨x, hx⟩ := exists_of_mapM hys y hy
        exact ih hs hx
    | _ => cases h
  | record s ih =>
    cases v with
    | obj ps =>
      rw [parse, Option.map_eq_some_iff] at h
      obtain ⟨qs, hqs, rfl⟩ := h
      rw [parse, mapM_self]
      · rw [Option.map_some, List.filter_filter]
        simp only [Bool.and_self]
      · intro q hq
        obtain ⟨p, hp⟩ := exists_of_mapM hqs q (List.mem_of_mem_filter hq)
        obtain ⟨u, hu, rfl⟩ := Option.map_eq_some_iff.mp hp
        rw [ih hs hu]
        rfl
    | _ => cases h
  | strict shape ih =>
    obtain ⟨hkeys, hsettled⟩ := hs
    cases v with
    | obj ps =>
      rw [parse] at h
      split_ifs at h with hknown
      rw [Option.map_eq_some_iff] at h
      obtain ⟨qs, hqs, rfl⟩ := h
      have hidem := parseShape_idem hkeys
        (fun p hp v w hvw => ih p hp (hsettled.of_mem p hp) hvw) hqs
      rw [parse, if_pos, hidem]
      · rfl
      · rw [List.all_eq_true]
        exact fun q hq => decide_eq_true (keys_of_parseShape hqs q.1 (List.mem_map_of_mem hq))
    | _ => cases h
  | refine s check message ih =>
    rw [parse, Option.filter_eq_some_iff] at h ⊢
    exact ⟨ih hs h.1, h.2⟩
  | superRefine s issues ih =>
    rw [parse, Option.filter_eq_some_iff] at h ⊢
    exact ⟨ih hs h.1, h.2⟩

end idem

/-! ## `safeParse` -/

/-- A `safeParse` that says nothing about the values it refuses. -/
def safeParse (s : Schema) (v : JsVal) : Except (List Issue) JsVal :=
  match s.parse v with
  | some w => .ok w
  | none => .error []

/-- It returns what the schema accepts. -/
theorem safeParse_eq_ok (s : Schema) (v w : JsVal) :
    s.safeParse v = .ok w ↔ s.parse v = some w := by
  unfold safeParse
  cases s.parse v <;> simp

end Schema

end Zod
