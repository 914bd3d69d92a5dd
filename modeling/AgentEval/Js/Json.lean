import AgentEval.Js.Buffer
import AgentEval.Js.Value

/-!
# JSON text

Strings are quoted as `QuoteJSONString` does it: short escapes, `\u` escapes for the other control
characters and for surrogates without a partner, everything else as it is. `render` is the text of
a JSON value without white space, `jsonStringify` is `JSON.stringify` and `jsonParse` is
`JSON.parse`.

The parser is a recursive descent with a bound on the number of calls; twice the length of the text
is enough, since a value and the list it starts share their first unit.

* **`scanChars_quoteUnits`**: reading a quoted string gives its code units back.
* **`jsonParse_render`**: reading the text of a JSON value gives the value back.
* `wellFormed_render` — the text has no unpaired surrogate, whatever the strings in it.
-/

namespace Js

/-! ## Strings -/

/-- The four hexadecimal digits of a code unit. -/
def hex4 (u : UInt16) : JsString :=
  [hexDigit (u.toNat / 4096), hexDigit (u.toNat / 256 % 16), hexDigit (u.toNat / 16 % 16),
    hexDigit (u.toNat % 16)]

/-- A code unit on its own inside quotes. -/
def quoteUnit (u : UInt16) : JsString :=
  if u = 8 then [92, 98]
  else if u = 9 then [92, 116]
  else if u = 10 then [92, 110]
  else if u = 12 then [92, 102]
  else if u = 13 then [92, 114]
  else if u = 34 then [92, 34]
  else if u = 92 then [92, 92]
  else if u.toNat < 32 ∨ isHigh u = true ∨ isLow u = true then 92 :: 117 :: hex4 u
  else [u]

/-- The code units of a string inside quotes; a surrogate pair stays as it is. -/
def quoteUnits : JsString → JsString
  | [] => []
  | [u] => quoteUnit u
  | u :: v :: s =>
    if isHigh u = true ∧ isLow v = true then u :: v :: quoteUnits s
    else quoteUnit u ++ quoteUnits (v :: s)

/-- `JSON.stringify` of a string. -/
def quote (s : JsString) : JsString := 34 :: (quoteUnits s ++ [34])

/-- The code unit of a short escape. -/
def unescape (u : UInt16) : Option UInt16 :=
  if u = 34 ∨ u = 92 ∨ u = 47 then some u
  else if u = 98 then some 8
  else if u = 102 then some 12
  else if u = 110 then some 10
  else if u = 114 then some 13
  else if u = 116 then some 9
  else none

/-- What the reader of a string is inside of. -/
inductive Pending where
  /-- Nothing. -/
  | plain
  /-- An escape, after the backslash. -/
  | escape
  /-- A `\u` escape: the digits to come after the next one, and the value so far. -/
  | hex (left value : ℕ)

/-- The code units up to the closing quote, and what follows it. -/
def scanChars : Pending → JsString → Option (JsString × JsString)
  | _, [] => none
  | .plain, u :: s =>
    if u = 34 then some ([], s)
    else if u = 92 then scanChars .escape s
    else if u.toNat < 32 then none
    else (scanChars .plain s).map fun p => (u :: p.1, p.2)
  | .escape, u :: s =>
    if u = 117 then scanChars (.hex 3 0) s
    else
      match unescape u with
      | none => none
      | some v => (scanChars .plain s).map fun p => (v :: p.1, p.2)
  | .hex left value, u :: s =>
    match hexVal? u, left with
    | none, _ => none
    | some d, 0 =>
      (scanChars .plain s).map fun p => (UInt16.ofNat (16 * value + d) :: p.1, p.2)
    | some d, left + 1 => scanChars (.hex left (16 * value + d)) s

/-- The end of a string. -/
theorem scanChars_quote (s : JsString) : scanChars .plain (34 :: s) = some ([], s) := rfl

/-- A unit that is neither a quote, nor a backslash, nor a control character reads as itself. -/
theorem scanChars_raw {u : UInt16} (h₁ : u ≠ 34) (h₂ : u ≠ 92) (h₃ : 32 ≤ u.toNat) (s : JsString) :
    scanChars .plain (u :: s) = (scanChars .plain s).map fun p => (u :: p.1, p.2) := by
  rw [scanChars, if_neg h₁, if_neg h₂, if_neg (not_lt.mpr h₃)]

/-- A short escape. -/
theorem scanChars_escape {e v : UInt16} (he : e ≠ 117) (hv : unescape e = some v) (s : JsString) :
    scanChars .plain (92 :: e :: s) = (scanChars .plain s).map fun p => (v :: p.1, p.2) := by
  rw [scanChars, if_neg (by decide), if_pos rfl, scanChars, if_neg he, hv]

/-- A `\u` escape. -/
theorem scanChars_hex4 (u : UInt16) (s : JsString) :
    scanChars .plain (92 :: 117 :: (hex4 u ++ s)) =
      (scanChars .plain s).map fun p => (u :: p.1, p.2) := by
  have hu := u.toNat_lt
  have hval : UInt16.ofNat (16 * (16 * (16 * (16 * 0 + u.toNat / 4096) + u.toNat / 256 % 16) +
      u.toNat / 16 % 16) + u.toNat % 16) = u := by
    apply UInt16.toNat_inj.mp
    rw [UInt16.toNat_ofNat']
    omega
  rw [scanChars, if_neg (by decide), if_pos rfl, scanChars, if_pos rfl]
  simp only [hex4, List.cons_append, List.nil_append, scanChars]
  rw [hexVal?_hexDigit _ (by omega), hexVal?_hexDigit _ (by omega), hexVal?_hexDigit _ (by omega),
    hexVal?_hexDigit _ (by omega)]
  simp only [hval]

/-- **A quoted unit reads as that unit.** -/
theorem scanChars_quoteUnit (u : UInt16) (s : JsString) :
    scanChars .plain (quoteUnit u ++ s) = (scanChars .plain s).map fun p => (u :: p.1, p.2) := by
  unfold quoteUnit
  split_ifs with h₁ h₂ h₃ h₄ h₅ h₆ h₇ h₈
  · rw [h₁]; exact scanChars_escape (by decide) rfl s
  · rw [h₂]; exact scanChars_escape (by decide) rfl s
  · rw [h₃]; exact scanChars_escape (by decide) rfl s
  · rw [h₄]; exact scanChars_escape (by decide) rfl s
  · rw [h₅]; exact scanChars_escape (by decide) rfl s
  · rw [h₆]; exact scanChars_escape (by decide) rfl s
  · rw [h₇]; exact scanChars_escape (by decide) rfl s
  · exact scanChars_hex4 u s
  · exact scanChars_raw h₆ h₇ (by omega) s

/-- A surrogate reads as itself. -/
theorem scanChars_surrogate {u : UInt16} (h : 0xD800 ≤ u.toNat) (s : JsString) :
    scanChars .plain (u :: s) = (scanChars .plain s).map fun p => (u :: p.1, p.2) := by
  refine scanChars_raw ?_ ?_ (by omega) s <;> (rintro rfl; revert h; decide)

/-- **Reading a quoted string gives its code units back**, whatever they are. -/
theorem scanChars_quoteUnits (s t : JsString) :
    scanChars .plain (quoteUnits s ++ 34 :: t) = some (s, t) := by
  induction s using quoteUnits.induct with
  | case1 => exact scanChars_quote t
  | case2 u =>
    rw [quoteUnits, scanChars_quoteUnit, scanChars_quote]
    rfl
  | case3 u v s h ih =>
    have hu : 0xD800 ≤ u.toNat := by
      have := h.1
      simp only [isHigh, Bool.and_eq_true, decide_eq_true_eq] at this
      exact this.1
    have hv : 0xD800 ≤ v.toNat := by
      have := h.2
      simp only [isLow, Bool.and_eq_true, decide_eq_true_eq] at this
      omega
    rw [quoteUnits, if_pos h, List.cons_append, List.cons_append, scanChars_surrogate hu,
      scanChars_surrogate hv, ih]
    rfl
  | case4 u v s h ih =>
    rw [quoteUnits, if_neg h, List.append_assoc, scanChars_quoteUnit, ih]
    rfl

/-! ## Writing values -/

/-- `parts.join(',')`. -/
def joinComma : List JsString → JsString
  | [] => []
  | [s] => s
  | s :: t :: ss => s ++ 44 :: joinComma (t :: ss)

/-- A property in an object's text. -/
def member (k : JsString) (text : JsString) : JsString := quote k ++ 58 :: text

mutual

/-- The text of a JSON value. -/
def render : JsVal → JsString
  | .null => js "null"
  | .bool true => js "true"
  | .bool false => js "false"
  | .num x => x.toString
  | .str s => quote s
  | .arr xs => 91 :: (joinComma (renderItems xs) ++ [93])
  | .obj ps => 123 :: (joinComma (renderProps ps) ++ [125])
  | _ => []

/-- The texts of the items of an array. -/
def renderItems : List JsVal → List JsString
  | [] => []
  | x :: xs => render x :: renderItems xs

/-- The texts of the properties of an object. -/
def renderProps : Props → List JsString
  | [] => []
  | (k, v) :: ps => member k (render v) :: renderProps ps

end

/-- The text of an array. -/
theorem render_arr (xs : List JsVal) :
    render (.arr xs) = 91 :: (joinComma (xs.map render) ++ [93]) := by
  have h : renderItems xs = xs.map render := by
    induction xs with
    | nil => rfl
    | cons x xs ih => rw [renderItems, ih, List.map_cons]
  rw [render, h]

/-- The text of an object. -/
theorem render_obj (ps : Props) :
    render (.obj ps) = 123 :: (joinComma (ps.map fun p => member p.1 (render p.2)) ++ [125]) := by
  have h : renderProps ps = ps.map fun p => member p.1 (render p.2) := by
    induction ps with
    | nil => rfl
    | cons p ps ih => rw [renderProps, ih, List.map_cons]
  rw [render, h]

/-! ## Reading values -/

/-- White space. -/
def isSpace (u : UInt16) : Bool := u = 9 ∨ u = 10 ∨ u = 13 ∨ u = 32

/-- The text after white space. -/
def skipSpace (s : JsString) : JsString := s.dropWhile isSpace

/-- The text after a word. -/
def scanWord (w s : JsString) : Option JsString :=
  if s.take w.length = w then some (s.drop w.length) else none

/-- A property set: the last value stays, at the place of the first. -/
def setProp {β : Type*} (ps : List (JsString × β)) (p : JsString × β) : List (JsString × β) :=
  if p.1 ∈ ps.map Prod.fst then ps.map fun q => if q.1 = p.1 then p else q else ps ++ [p]

mutual

/-- A value at the front of a text. -/
def parseValue : ℕ → JsString → Option (JsVal × JsString)
  | 0, _ => none
  | _ + 1, [] => none
  | n + 1, u :: s =>
    if u = 34 then (scanChars .plain s).map fun p => (.str p.1, p.2)
    else if u = 91 then
      match skipSpace s with
      | [] => none
      | v :: t =>
        if v = 93 then some (.arr [], t)
        else (parseItems n (v :: t)).map fun p => (.arr p.1, p.2)
    else if u = 123 then
      match skipSpace s with
      | [] => none
      | v :: t =>
        if v = 125 then some (.obj [], t)
        else (parseMembers n (v :: t)).map fun p => (.obj (p.1.foldl setProp []), p.2)
    else if u = 116 then (scanWord (js "rue") s).map fun t => (.bool true, t)
    else if u = 102 then (scanWord (js "alse") s).map fun t => (.bool false, t)
    else if u = 110 then (scanWord (js "ull") s).map fun t => (.null, t)
    else (parseNumber (u :: s)).map fun p => (.num p.1, p.2)

/-- The items of an array, up to its end. -/
def parseItems : ℕ → JsString → Option (List JsVal × JsString)
  | 0, _ => none
  | n + 1, s =>
    match parseValue n s with
    | none => none
    | some (v, s) =>
      match skipSpace s with
      | [] => none
      | u :: t =>
        if u = 44 then (parseItems n (skipSpace t)).map fun p => (v :: p.1, p.2)
        else if u = 93 then some ([v], t)
        else none

/-- The properties of an object, up to its end. -/
def parseMembers : ℕ → JsString → Option (Props × JsString)
  | 0, _ => none
  | _ + 1, [] => none
  | n + 1, q :: s =>
    if q = 34 then
      match scanChars .plain s with
      | none => none
      | some (k, s) =>
        match skipSpace s with
        | [] => none
        | c :: s =>
          if c = 58 then
            match parseValue n (skipSpace s) with
            | none => none
            | some (v, s) =>
              match skipSpace s with
              | [] => none
              | u :: t =>
                if u = 44 then (parseMembers n (skipSpace t)).map fun p => ((k, v) :: p.1, p.2)
                else if u = 125 then some ([(k, v)], t)
                else none
          else none
    else none

end

/-- `JSON.parse`; `none` is a `SyntaxError`. -/
def jsonParse (s : JsString) : Option JsVal :=
  match parseValue (2 * s.length + 2) (skipSpace s) with
  | none => none
  | some (v, t) => if skipSpace t = [] then some v else none

/-! ## Reading inverts writing -/

/-- A text that starts with something else than white space. -/
theorem skipSpace_cons {u : UInt16} (h : isSpace u = false) (s : JsString) :
    skipSpace (u :: s) = u :: s := by
  rw [skipSpace, List.dropWhile_cons, h, if_neg Bool.false_ne_true]

/-- A text that starts with a digit or a minus sign. -/
theorem exists_toString_eq_cons (x : Double) :
    ∃ u us, Number.toString (.finite x) = u :: us ∧ (isDigit u = true ∨ u = 45) := by
  simp only [Number.toString]
  split_ifs with hx hn
  · obtain ⟨u, us, h, hu⟩ := Number.exists_renderPos_eq_cons hx
    exact ⟨u, us, h, Or.inl hu⟩
  · exact ⟨45, _, rfl, Or.inr rfl⟩
  · exact ⟨48, [], rfl, Or.inl rfl⟩

/-- What starts a number starts nothing else. -/
theorem ne_of_isDigit {u : UInt16} (h : isDigit u = true ∨ u = 45) :
    isSpace u = false ∧ u ≠ 93 ∧ u ≠ 125 ∧ u ≠ 34 ∧ u ≠ 91 ∧ u ≠ 123 ∧ u ≠ 116 ∧ u ≠ 102 ∧
      u ≠ 110 := by
  have hlt : u.toNat < 58 ∧ 45 ≤ u.toNat := by
    rcases h with h | rfl
    · simp only [isDigit, Bool.and_eq_true, decide_eq_true_eq] at h
      omega
    · decide
  refine ⟨?_, ?_, ?_, ?_, ?_, ?_, ?_, ?_, ?_⟩
  · simp only [isSpace, decide_eq_false_iff_not]
    rintro (rfl | rfl | rfl | rfl) <;> revert hlt <;> decide
  all_goals
    rintro rfl
    revert h hlt
    decide

/-- The text of a JSON value starts with something that is neither white space nor the end of an
array. -/
theorem exists_render_eq_cons {v : JsVal} (hv : v.IsJson) :
    ∃ u us, render v = u :: us ∧ isSpace u = false ∧ u ≠ 93 := by
  cases v with
  | null => exact ⟨_, _, rfl, by decide, by decide⟩
  | bool b => cases b <;> exact ⟨_, _, rfl, by decide, by decide⟩
  | num x =>
    cases x with
    | finite x =>
      obtain ⟨u, us, h, hu⟩ := exists_toString_eq_cons x
      obtain ⟨h₁, h₂, -⟩ := ne_of_isDigit hu
      exact ⟨u, us, h, h₁, h₂⟩
    | _ => exact absurd hv (by simp [JsVal.IsJson, JsVal.All])
  | str s => exact ⟨_, _, rfl, by decide, by decide⟩
  | arr xs => exact ⟨_, _, render_arr xs, by decide, by decide⟩
  | obj ps => exact ⟨_, _, render_obj ps, by decide, by decide⟩
  | _ => exact absurd hv (by simp [JsVal.IsJson, JsVal.All])

/-- Distinct properties set one after the other. -/
theorem foldl_setProp {β : Type*} {ps : List (JsString × β)} (h : DistinctKeys ps) :
    ps.foldl setProp [] = ps := by
  have key : ∀ qs rs : List (JsString × β), DistinctKeys (rs ++ qs) → qs.foldl setProp rs = rs ++ qs := by
    intro qs
    induction qs with
    | nil => intro rs _; simp
    | cons q qs ih =>
      intro rs hrs
      have hnot : q.1 ∉ rs.map Prod.fst := by
        rw [DistinctKeys, List.map_append, List.map_cons, List.nodup_append'] at hrs
        exact fun hmem => hrs.2.2 hmem (List.mem_cons_self ..)
      rw [List.foldl_cons, setProp, if_neg hnot, ih _ (by rwa [List.append_assoc])]
      rw [List.append_assoc]
      rfl
  simpa using key ps [] h

/-- A value reads back from its text. -/
def ReadsBack (v : JsVal) : Prop :=
  ∀ (n : ℕ) (t : JsString), NumberEnd t → 2 * (render v).length < n →
    parseValue n (render v ++ t) = some (v, t)

/-- A mark ends a number. -/
theorem numberEnd_cons {u : UInt16} (h : isDigit u = false ∧ u ≠ 46 ∧ u ≠ 101 ∧ u ≠ 69)
    (s : JsString) : NumberEnd (u :: s) := by
  intro v vs hv
  injection hv with hv _
  rw [← hv]
  exact h

/-- The items of an array read back. -/
theorem parseItems_render {xs : List JsVal} (hne : xs ≠ []) (hxs : ∀ x ∈ xs, x.IsJson)
    (hread : ∀ x ∈ xs, ReadsBack x) {n : ℕ} (hn : 2 * (joinComma (xs.map render)).length + 1 < n)
    (t : JsString) : parseItems n (joinComma (xs.map render) ++ 93 :: t) = some (xs, t) := by
  induction xs generalizing n with
  | nil => exact absurd rfl hne
  | cons x xs ih =>
    obtain ⟨n, rfl⟩ : ∃ k, n = k + 1 := ⟨n - 1, by omega⟩
    cases xs with
    | nil =>
      have hx := hread x (List.mem_cons_self ..) n (93 :: t)
        (numberEnd_cons (by decide) t) (by simp only [List.map_cons, List.map_nil, joinComma] at hn; omega)
      rw [List.map_cons, List.map_nil, joinComma, parseItems, hx]
      simp only
      rw [skipSpace_cons (by decide)]
      rfl
    | cons y ys =>
      simp only [List.map_cons, joinComma, List.length_append, List.length_cons] at hn
      obtain ⟨u, us, hu, hspace, -⟩ := exists_render_eq_cons (hxs y (by simp))
      have hrest := ih (List.cons_ne_nil y ys) (fun z hz => hxs z (List.mem_cons_of_mem _ hz))
        (fun z hz => hread z (List.mem_cons_of_mem _ hz)) (n := n) (by
          simp only [List.map_cons]
          omega)
      have hhead : ∃ vs, joinComma ((y :: ys).map render) ++ 93 :: t = u :: vs := by
        cases ys <;> simp [joinComma, hu]
      obtain ⟨vs, hvs⟩ := hhead
      have hx := hread x (List.mem_cons_self ..) n (44 :: (joinComma ((y :: ys).map render) ++ 93 :: t))
        (numberEnd_cons (by decide) _) (by omega)
      rw [List.map_cons, List.map_cons, joinComma, List.append_assoc, List.cons_append, parseItems,
        ← List.map_cons, hx]
      simp only
      rw [skipSpace_cons (by decide)]
      simp only [if_true]
      rw [hvs, skipSpace_cons hspace, ← hvs, hrest]
      rfl

/-- The properties of an object read back. -/
theorem parseMembers_render {ps : Props} (hne : ps ≠ []) (hps : ∀ p ∈ ps, JsVal.IsJson p.2)
    (hread : ∀ p ∈ ps, ReadsBack p.2) {n : ℕ}
    (hn : 2 * (joinComma (ps.map fun p => member p.1 (render p.2))).length + 1 < n)
    (t : JsString) :
    parseMembers n (joinComma (ps.map fun p => member p.1 (render p.2)) ++ 125 :: t) =
      some (ps, t) := by
  induction ps generalizing n with
  | nil => exact absurd rfl hne
  | cons p ps ih =>
    obtain ⟨n, rfl⟩ : ∃ k, n = k + 1 := ⟨n - 1, by omega⟩
    obtain ⟨k, v⟩ := p
    obtain ⟨u, us, hu, hspace, -⟩ := exists_render_eq_cons (hps (k, v) (List.mem_cons_self ..))
    have hv := hread (k, v) (List.mem_cons_self ..) n
    -- the key and the colon, whatever follows the value
    have hkey : ∀ s : JsString, parseMembers (n + 1) (member k (render v) ++ s) =
        match parseValue n (render v ++ s) with
        | none => none
        | some (v, s) =>
          match skipSpace s with
          | [] => none
          | u :: t =>
            if u = 44 then (parseMembers n (skipSpace t)).map fun p => ((k, v) :: p.1, p.2)
            else if u = 125 then some ([(k, v)], t)
            else none := by
      intro s
      have htext : member k (render v) ++ s = 34 :: (quoteUnits k ++ 34 :: 58 :: (render v ++ s)) := by
        simp [member, quote]
      rw [htext, parseMembers, if_pos rfl, scanChars_quoteUnits]
      simp only
      rw [skipSpace_cons (by decide), hu, List.cons_append]
      simp only [if_true]
      rw [skipSpace_cons hspace]
    cases ps with
    | nil =>
      simp only [List.map_cons, List.map_nil, joinComma, member, List.length_append,
        List.length_cons] at hn
      rw [List.map_cons, List.map_nil, joinComma, hkey,
        hv (125 :: t) (numberEnd_cons (by decide) t) (by simp only; omega)]
      simp only
      rw [skipSpace_cons (by decide)]
      rfl
    | cons q qs =>
      simp only [List.map_cons, joinComma, member, List.length_append, List.length_cons] at hn
      have hrest := ih (List.cons_ne_nil q qs) (fun r hr => hps r (List.mem_cons_of_mem _ hr))
        (fun r hr => hread r (List.mem_cons_of_mem _ hr)) (n := n) (by
          simp only [List.map_cons, member]
          omega)
      have hhead : ∃ vs, joinComma ((q :: qs).map fun p => member p.1 (render p.2)) ++ 125 :: t =
          34 :: vs := by
        cases qs <;> simp [joinComma, member, quote]
      obtain ⟨vs, hvs⟩ := hhead
      have htext : joinComma (((k, v) :: q :: qs).map fun p => member p.1 (render p.2)) ++ 125 :: t =
          member k (render v) ++
            44 :: (joinComma ((q :: qs).map fun p => member p.1 (render p.2)) ++ 125 :: t) := by
        simp [joinComma]
      rw [htext, hkey, hv _ (numberEnd_cons (by decide) _) (by simp only; omega)]
      simp only
      rw [skipSpace_cons (by decide)]
      simp only [if_true]
      rw [hvs, skipSpace_cons (by decide), ← hvs, hrest]
      rfl

/-- **The text of a JSON value reads back as the value**, whatever follows that cannot continue a
number. The induction is on the value; the bound on calls shrinks with the text. -/
theorem readsBack_of_isJson {v : JsVal} (hv : v.IsJson) : ReadsBack v := by
  induction v using JsVal.induct with
  | null =>
    intro n t _ hn
    obtain ⟨n, rfl⟩ : ∃ k, n = k + 1 := ⟨n - 1, by omega⟩
    rfl
  | bool b =>
    intro n t _ hn
    obtain ⟨n, rfl⟩ : ∃ k, n = k + 1 := ⟨n - 1, by omega⟩
    cases b <;> rfl
  | num x =>
    cases x with
    | finite x =>
      intro n t ht hn
      obtain ⟨n, rfl⟩ : ∃ k, n = k + 1 := ⟨n - 1, by omega⟩
      have hnum := Number.parseNumber_toString x ht
      obtain ⟨u, us, hu, hdig⟩ := exists_toString_eq_cons x
      obtain ⟨-, -, -, h₁, h₂, h₃, h₄, h₅, h₆⟩ := ne_of_isDigit hdig
      rw [render, hu, List.cons_append, parseValue, if_neg h₁, if_neg h₂, if_neg h₃, if_neg h₄,
        if_neg h₅, if_neg h₆, ← List.cons_append, ← hu, hnum]
      rfl
    | _ => exact absurd hv (by simp [JsVal.IsJson, JsVal.All])
  | str s =>
    intro n t _ hn
    obtain ⟨n, rfl⟩ : ∃ k, n = k + 1 := ⟨n - 1, by omega⟩
    rw [render, quote, List.cons_append, List.append_assoc, List.singleton_append, parseValue,
      if_pos rfl, scanChars_quoteUnits]
    rfl
  | arr xs ih =>
    intro n t _ hn
    obtain ⟨n, rfl⟩ : ∃ k, n = k + 1 := ⟨n - 1, by omega⟩
    have hxs := JsVal.isJson_arr.mp hv
    rw [render_arr] at hn ⊢
    simp only [List.length_cons, List.length_append, List.length_nil] at hn
    rw [List.cons_append, List.append_assoc, List.singleton_append, parseValue,
      if_neg (by decide), if_pos rfl]
    cases xs with
    | nil => rfl
    | cons x xs =>
      obtain ⟨u, us, hu, hspace, hne⟩ := exists_render_eq_cons (hxs x (List.mem_cons_self ..))
      have hhead : ∃ vs, joinComma ((x :: xs).map render) ++ 93 :: t = u :: vs := by
        cases xs <;> simp [joinComma, hu]
      obtain ⟨vs, hvs⟩ := hhead
      have hitems := parseItems_render (List.cons_ne_nil x xs) hxs (fun y hy => ih y hy (hxs y hy))
        (n := n) (by omega) t
      rw [hvs, skipSpace_cons hspace]
      simp only [if_neg hne]
      rw [← hvs, hitems]
      rfl
  | obj ps ih =>
    intro n t _ hn
    obtain ⟨n, rfl⟩ : ∃ k, n = k + 1 := ⟨n - 1, by omega⟩
    obtain ⟨hkeys, hps⟩ := JsVal.isJson_obj.mp hv
    rw [render_obj] at hn ⊢
    simp only [List.length_cons, List.length_append, List.length_nil] at hn
    rw [List.cons_append, List.append_assoc, List.singleton_append, parseValue,
      if_neg (by decide), if_neg (by decide), if_pos rfl]
    cases ps with
    | nil => rfl
    | cons p ps =>
      have hhead : ∃ vs, joinComma ((p :: ps).map fun p => member p.1 (render p.2)) ++ 125 :: t =
          34 :: vs := by
        cases ps <;> simp [joinComma, member, quote]
      obtain ⟨vs, hvs⟩ := hhead
      have hmembers := parseMembers_render (List.cons_ne_nil p ps) hps
        (fun q hq => ih q hq (hps q hq)) (n := n) (by omega) t
      rw [hvs, skipSpace_cons (by decide)]
      simp only [if_neg (show ¬ (34 : UInt16) = 125 by decide)]
      rw [← hvs, hmembers]
      simp only [Option.map_some, foldl_setProp hkeys]
  | _ => exact absurd hv (by simp [JsVal.IsJson, JsVal.All])

/-- **`JSON.parse` of the text of a JSON value is the value.** -/
theorem jsonParse_render {v : JsVal} (hv : v.IsJson) : jsonParse (render v) = some v := by
  obtain ⟨u, us, hu, hspace, -⟩ := exists_render_eq_cons hv
  have hread := readsBack_of_isJson hv (2 * (render v).length + 2) []
    (fun _ _ h => absurd h (by simp)) (by omega)
  rw [List.append_nil] at hread
  have hskip : skipSpace (render v) = render v := by rw [hu, skipSpace_cons hspace]
  rw [jsonParse, hskip, hread]
  rfl

/-- The text of a JSON value determines it. -/
theorem render_injective {v w : JsVal} (hv : v.IsJson) (hw : w.IsJson)
    (h : render v = render w) : v = w := by
  have hparse := jsonParse_render hv
  rw [h, jsonParse_render hw] at hparse
  exact (Option.some.inj hparse).symm

/-! ## Well-formed text -/

/-- Units below the surrogates are well formed. -/
theorem wellFormed_of_lt {s : JsString} (h : ∀ u ∈ s, u.toNat < 0xD800) : WellFormed s := by
  induction s with
  | nil => exact .nil
  | cons u s ih =>
    rw [List.forall_mem_cons] at h
    refine .append (s := [u]) (wellFormed_singleton ?_ ?_) (ih h.2)
    · simp only [isHigh, Bool.and_eq_false_iff, decide_eq_false_iff_not]
      omega
    · simp only [isLow, Bool.and_eq_false_iff, decide_eq_false_iff_not]
      omega

/-- A closed text below the surrogates. -/
theorem lt_of_all {s : JsString} (h : (s.all fun u => decide (u.toNat < 0xD800)) = true) :
    ∀ u ∈ s, u.toNat < 0xD800 :=
  fun u hu => of_decide_eq_true (List.all_eq_true.mp h u hu)

/-- A digit is below the surrogates. -/
theorem lt_of_isDigit {u : UInt16} (h : isDigit u = true) : u.toNat < 0xD800 := by
  simp only [isDigit, Bool.and_eq_true, decide_eq_true_eq] at h
  omega

/-- The text of a literal is below the surrogates. -/
theorem Literal.lt_of_mem_render {l : Literal} (hl : l.Ok) : ∀ u ∈ l.render, u.toNat < 0xD800 := by
  have hint := fun u hu => lt_of_isDigit (hl.int_digits u hu)
  have hfrac := fun u hu => lt_of_isDigit (hl.frac_digits u hu)
  rw [Literal.render, List.forall_mem_append, List.forall_mem_append]
  refine ⟨⟨hint, ?_⟩, ?_⟩
  · split_ifs
    · exact fun _ h => absurd h List.not_mem_nil
    · exact List.forall_mem_cons.mpr ⟨by decide, hfrac⟩
  · cases l.exp with
    | none => exact fun _ h => absurd h List.not_mem_nil
    | some e =>
      have hexp := fun u hu => lt_of_isDigit (@isDigit_of_mem_natDigits e.natAbs u hu)
      refine List.forall_mem_cons.mpr ⟨by decide, List.forall_mem_cons.mpr ⟨?_, hexp⟩⟩
      split_ifs <;> decide

/-- The text of a Number is below the surrogates. -/
theorem Number.lt_of_mem_toString (x : Number) : ∀ u ∈ x.toString, u.toNat < 0xD800 := by
  cases x with
  | nan => exact lt_of_all (by decide)
  | infinity s => cases s <;> exact lt_of_all (by decide)
  | negZero => exact lt_of_all (by decide)
  | finite x =>
    simp only [toString]
    split_ifs with hx hn
    · exact Literal.lt_of_mem_render (layout_ok (shortest_ne_zero x hx) _)
    · exact List.forall_mem_cons.mpr ⟨by decide,
        Literal.lt_of_mem_render (layout_ok (shortest_ne_zero _ hn) _)⟩
    · exact lt_of_all (by decide)

/-- The text of a Number is well formed. -/
theorem Number.wellFormed_toString (x : Number) : WellFormed x.toString :=
  wellFormed_of_lt x.lt_of_mem_toString

/-- The digits of an escape are below the surrogates. -/
theorem lt_of_mem_hex4 {u v : UInt16} (h : v ∈ hex4 u) : v.toNat < 0xD800 := by
  have hdigit : ∀ n, n < 16 → (hexDigit n).toNat < 0xD800 := by decide
  have hu := u.toNat_lt
  have hall : ∀ v ∈ hex4 u, v.toNat < 0xD800 := by
    simp only [hex4, List.forall_mem_cons]
    exact ⟨hdigit _ (by omega), hdigit _ (by omega), hdigit _ (by omega), hdigit _ (by omega),
      fun _ h => absurd h List.not_mem_nil⟩
  exact hall v h

/-- A quoted unit is well formed. -/
theorem wellFormed_quoteUnit (u : UInt16) : WellFormed (quoteUnit u) := by
  unfold quoteUnit
  split_ifs with h₁ h₂ h₃ h₄ h₅ h₆ h₇ h₈
  iterate 7 exact wellFormed_of_lt (lt_of_all (by decide))
  · refine wellFormed_of_lt (List.forall_mem_cons.mpr ⟨by decide, ?_⟩)
    exact List.forall_mem_cons.mpr ⟨by decide, fun v hv => lt_of_mem_hex4 hv⟩
  · rw [not_or, not_or, Bool.not_eq_true, Bool.not_eq_true] at h₈
    exact wellFormed_singleton h₈.2.1 h₈.2.2

/-- The units inside quotes are well formed. -/
theorem wellFormed_quoteUnits (s : JsString) : WellFormed (quoteUnits s) := by
  induction s using quoteUnits.induct with
  | case1 => exact .nil
  | case2 u => exact wellFormed_quoteUnit u
  | case3 u v s h ih =>
    rw [quoteUnits, if_pos h]
    exact (wellFormed_pair h.1 h.2).append ih
  | case4 u v s h ih =>
    rw [quoteUnits, if_neg h]
    exact (wellFormed_quoteUnit u).append ih

/-- A quoted string is well formed, whatever the string. -/
theorem wellFormed_quote (s : JsString) : WellFormed (quote s) := by
  have hmark : WellFormed [34] := wellFormed_of_lt (lt_of_all (by decide))
  exact hmark.append ((wellFormed_quoteUnits s).append hmark)

/-- Well-formed texts joined by commas. -/
theorem wellFormed_joinComma {ss : List JsString} (h : ∀ s ∈ ss, WellFormed s) :
    WellFormed (joinComma ss) := by
  induction ss with
  | nil => exact .nil
  | cons s ss ih =>
    rw [List.forall_mem_cons] at h
    cases ss with
    | nil => exact h.1
    | cons t ss => exact h.1.append (.append (s := [44]) (wellFormed_of_lt (lt_of_all (by decide))) (ih h.2))

/-- A well-formed text under its key. -/
theorem wellFormed_member (k : JsString) {text : JsString} (h : WellFormed text) :
    WellFormed (member k text) :=
  (wellFormed_quote k).append (.append (s := [58]) (wellFormed_of_lt (lt_of_all (by decide))) h)

/-- **The text of a value has no unpaired surrogate.** -/
theorem wellFormed_render (v : JsVal) : WellFormed (render v) := by
  have hunit : ∀ u : UInt16, u.toNat < 0xD800 → WellFormed [u] := fun u hu =>
    wellFormed_of_lt fun v hv => by rwa [List.mem_singleton.mp hv]
  induction v using JsVal.induct with
  | null => exact wellFormed_js _
  | bool b => cases b <;> exact wellFormed_js _
  | num x => exact x.wellFormed_toString
  | str s => exact wellFormed_quote s
  | arr xs ih =>
    rw [render_arr]
    refine .append (s := [91]) (hunit _ (by decide)) (.append ?_ (hunit _ (by decide)))
    exact wellFormed_joinComma (List.forall_mem_map.mpr ih)
  | obj ps ih =>
    rw [render_obj]
    refine .append (s := [123]) (hunit _ (by decide)) (.append ?_ (hunit _ (by decide)))
    refine wellFormed_joinComma (List.forall_mem_map.mpr fun p hp => ?_)
    exact wellFormed_member p.1 (ih p hp)
  | _ => exact .nil

/-! ## `JSON.stringify` -/

/-- What JSON text keeps of a value: properties that are `undefined` go, dates become text. -/
def JsVal.jsonForm : JsVal → JsVal :=
  JsVal.mapUp fun
    | .date (some t) => .str t.toISOString
    | .obj ps => .obj (ps.filter fun p => !p.2.isUndefined)
    | v => v

mutual

/-- `JSON.stringify`, nothing when the result is `undefined`. Calling a `toJSON` method of the
value's own is left out; the only one here is that of `Date`. -/
def jsonStringify : JsVal → Except JsError (Option JsString)
  | .undefined => .ok none
  | .function => .ok none
  | .symbol => .ok none
  | .null => .ok (some (js "null"))
  | .bool true => .ok (some (js "true"))
  | .bool false => .ok (some (js "false"))
  | .num x => .ok (some (if x.isFinite then x.toString else js "null"))
  | .str s => .ok (some (quote s))
  | .bigint _ => .error ⟨js "TypeError", js "Do not know how to serialize a BigInt"⟩
  | .ancestor _ => .error ⟨js "TypeError", js "Converting circular structure to JSON"⟩
  | .date none => .ok (some (js "null"))
  | .date (some t) => .ok (some (quote t.toISOString))
  | .arr xs => do
    let parts ← stringifyItems xs
    return some (91 :: (joinComma parts ++ [93]))
  | .obj ps => do
    let parts ← stringifyProps ps
    return some (123 :: (joinComma parts ++ [125]))

/-- The texts of the items; one without a text is written `null`. -/
def stringifyItems : List JsVal → Except JsError (List JsString)
  | [] => .ok []
  | x :: xs => do
    let text ← jsonStringify x
    let parts ← stringifyItems xs
    return text.getD (js "null") :: parts

/-- The texts of the properties; one without a text is left out. -/
def stringifyProps : Props → Except JsError (List JsString)
  | [] => .ok []
  | (k, v) :: ps => do
    let text ← jsonStringify v
    let parts ← stringifyProps ps
    return match text with
      | none => parts
      | some text => member k text :: parts

end

namespace JsVal

/-- The JSON form is `undefined` only for `undefined`. -/
theorem isUndefined_jsonForm (v : JsVal) : v.jsonForm.isUndefined = v.isUndefined := by
  cases v with
  | arr xs => rw [jsonForm, mapUp_arr]; rfl
  | obj ps => rw [jsonForm, mapUp_obj]; rfl
  | date t => cases t <;> rfl
  | _ => rfl

/-- The JSON form of an array. -/
theorem jsonForm_arr (xs : List JsVal) : jsonForm (.arr xs) = .arr (xs.map jsonForm) :=
  mapUp_arr ..

/-- The JSON form of an object. -/
theorem jsonForm_obj (ps : Props) :
    jsonForm (.obj ps) =
      .obj ((ps.filter fun p => !p.2.isUndefined).map fun p => (p.1, p.2.jsonForm)) := by
  have h : jsonForm (.obj ps) =
      .obj ((ps.map fun p => (p.1, p.2.jsonForm)).filter fun p => !p.2.isUndefined) :=
    mapUp_obj ..
  rw [h, List.filter_map]
  congr 2
  refine List.filter_congr fun p _ => ?_
  simp only [Function.comp_apply, isUndefined_jsonForm]

/-- A property of the JSON form is the JSON form of the property. -/
theorem jsonForm_getProp {ps : Props} (hps : DistinctKeys ps) (key : JsString) :
    getProp ((ps.filter fun p => !p.2.isUndefined).map fun p => (p.1, p.2.jsonForm)) key =
      (getProp ps key).jsonForm := by
  rw [getProp_map rfl]
  congr 1
  by_cases hne : getProp ps key = .undefined
  · by_contra h
    rw [hne] at h
    have hmem := mem_of_getProp_ne h
    have hval := getProp_eq_of_mem hps (List.mem_of_mem_filter hmem)
    exact h (hval.symm.trans hne)
  · have hmem := mem_of_getProp_ne hne
    have hdef : (getProp ps key).isUndefined = false := by
      revert hne
      cases getProp ps key <;> simp [isUndefined]
    refine getProp_eq_of_mem (List.Nodup.sublist (List.Sublist.map _ List.filter_sublist) hps) ?_
    exact List.mem_filter.mpr ⟨hmem, by simp [hdef]⟩

/-- The JSON form of a well-formed value is well formed. -/
theorem wf_jsonForm {v : JsVal} (hv : WF v) : WF v.jsonForm := by
  induction v using induct with
  | date t => cases t <;> trivial
  | arr xs ih =>
    rw [jsonForm_arr, wf_arr, List.forall_mem_map]
    exact fun x hx => ih x hx (wf_arr.mp hv x hx)
  | obj ps ih =>
    obtain ⟨hk, hps⟩ := wf_obj.mp hv
    rw [jsonForm_obj, wf_obj, List.forall_mem_map]
    refine ⟨(distinctKeys_map jsonForm).mpr ?_, fun p hp => ?_⟩
    · exact List.Nodup.sublist (List.Sublist.map _ List.filter_sublist) hk
    · have hp' := List.mem_of_mem_filter hp
      exact ih p hp' (hps p hp')
  | _ => trivial

/-- Data is its own JSON form. -/
theorem IsData.jsonForm_eq {v : JsVal} (h : IsData v) : v.jsonForm = v := by
  induction v using induct with
  | arr xs ih =>
    rw [jsonForm_arr, List.map_congr_left fun x hx => ih x hx (isData_arr.mp h x hx), List.map_id']
  | obj ps ih =>
    obtain ⟨-, hps⟩ := isData_obj.mp h
    have hmap : ∀ p ∈ ps, (p.1, p.2.jsonForm) = p := fun p hp => by rw [ih p hp (hps p hp)]
    rw [jsonForm_obj, h.filter_eq, List.map_congr_left hmap, List.map_id']
  | date t => exact absurd h id
  | _ => rfl

/-- A JSON value is its own JSON form. -/
theorem IsJson.jsonForm_eq {v : JsVal} (h : IsJson v) : v.jsonForm = v := h.isData.jsonForm_eq

/-- **`JSON.stringify` writes the JSON form**, when there is one. -/
theorem jsonStringify_eq {v : JsVal} (h : v.jsonForm.IsJson) :
    jsonStringify v = .ok (some (render v.jsonForm)) := by
  induction v using induct with
  | undefined => exact absurd h id
  | null => rfl
  | bool b => cases b <;> rfl
  | num x =>
    cases x with
    | finite x => rfl
    | _ => exact absurd h id
  | str s => rfl
  | bigint n => exact absurd h id
  | function => exact absurd h id
  | symbol => exact absurd h id
  | date t =>
    cases t with
    | none => exact absurd h id
    | some t => rfl
  | ancestor k => exact absurd h id
  | arr xs ih =>
    rw [jsonForm_arr, isJson_arr, List.forall_mem_map] at h
    have hitems : stringifyItems xs = .ok (xs.map fun x => render x.jsonForm) := by
      induction xs with
      | nil => rfl
      | cons x xs ihxs =>
        rw [List.forall_mem_cons] at h ih
        rw [stringifyItems, ih.1 h.1, ihxs ih.2 h.2]
        rfl
    rw [jsonStringify, hitems, jsonForm_arr, render_arr, List.map_map]
    rfl
  | obj ps ih =>
    rw [jsonForm_obj, isJson_obj, List.forall_mem_map] at h
    have hprops : stringifyProps ps = .ok ((ps.filter fun p => !p.2.isUndefined).map fun p =>
        member p.1 (render p.2.jsonForm)) := by
      replace h := h.2
      induction ps with
      | nil => rfl
      | cons p ps ihps =>
        rw [List.forall_mem_cons] at ih
        cases hu : p.2.isUndefined with
        | true =>
          have hp : p.2 = .undefined := by
            revert hu
            cases p.2 <;> simp [isUndefined]
          rw [List.filter_cons_of_neg (by simp [hu])] at h ⊢
          rw [stringifyProps, hp, ihps ih.2 h]
          rfl
        | false =>
          rw [List.filter_cons_of_pos (by simp [hu])] at h ⊢
          rw [List.forall_mem_cons] at h
          rw [stringifyProps, ih.1 h.1, ihps ih.2 h.2]
          rfl
    rw [jsonStringify, hprops, jsonForm_obj, render_obj, List.map_map]
    rfl

/-- **`JSON.parse` of `JSON.stringify` is the JSON form.** -/
theorem jsonParse_jsonStringify {v : JsVal} (h : v.jsonForm.IsJson) :
    ∃ s, jsonStringify v = .ok (some s) ∧ jsonParse s = some v.jsonForm :=
  ⟨_, jsonStringify_eq h, jsonParse_render h⟩

end JsVal

/-! ## Numbers as `JSON.stringify` writes them -/

/-- `JSON.stringify` of a Number, as a value. -/
def Number.lossy : Number → JsVal
  | .negZero => .num (.ofNat 0)
  | .finite x => .num (.finite x)
  | _ => .null

/-- A value with its Numbers as `JSON.stringify` writes them. -/
def JsVal.lossy : JsVal → JsVal :=
  JsVal.mapUp fun
    | .num x => x.lossy
    | v => v

namespace JsVal

/-- The lossy form of an array. -/
theorem lossy_arr (xs : List JsVal) : lossy (.arr xs) = .arr (xs.map lossy) := mapUp_arr ..

/-- The lossy form of an object. -/
theorem lossy_obj (ps : Props) : lossy (.obj ps) = .obj (ps.map fun p => (p.1, p.2.lossy)) :=
  mapUp_obj ..

/-- The lossy form of data is a JSON value. -/
theorem IsData.isJson_lossy {v : JsVal} (h : IsData v) : IsJson v.lossy := by
  induction v using induct with
  | num x =>
    cases x with
    | negZero =>
      change IsJson (.num (.ofNat 0))
      rw [Number.ofNat_eq (by norm_num)]
      trivial
    | _ => trivial
  | arr xs ih =>
    rw [lossy_arr, isJson_arr, List.forall_mem_map]
    exact fun x hx => ih x hx (isData_arr.mp h x hx)
  | obj ps ih =>
    obtain ⟨hk, hps⟩ := isData_obj.mp h
    rw [lossy_obj, isJson_obj, distinctKeys_map, List.forall_mem_map]
    exact ⟨hk, fun p hp => ih p hp (hps p hp)⟩
  | _ => exact h

/-- A JSON value loses nothing. -/
theorem IsJson.lossy_eq {v : JsVal} (h : IsJson v) : v.lossy = v := by
  induction v using induct with
  | num x =>
    cases x with
    | finite x => rfl
    | _ => exact absurd h id
  | arr xs ih =>
    rw [lossy_arr, List.map_congr_left fun x hx => ih x hx (isJson_arr.mp h x hx), List.map_id']
  | obj ps ih =>
    obtain ⟨-, hps⟩ := isJson_obj.mp h
    have hmap : ∀ p ∈ ps, (p.1, p.2.lossy) = p := fun p hp => by rw [ih p hp (hps p hp)]
    rw [lossy_obj, List.map_congr_left hmap, List.map_id']
  | _ => rfl

end JsVal

end Js
