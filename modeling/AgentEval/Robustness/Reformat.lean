import AgentEval.Js.Reprint
import AgentEval.Robustness.Perturbations

/-!
# Rewritings that keep a value

A number is written again with a digit more, and a JSON object with its keys in another order. The
number is kept where its text has no exponent: behind an exponent `.0` is no number, and `0` makes
the exponent ten times as large. The object is kept where it has no key `__proto__`, which assignment
takes for the prototype, and no number that was too large for a double, which is written `null`.

* **`values_kept_iff`**: the two conditions are exact.
-/

namespace AgentEval.Robustness

open Js

variable {submission : JsString}

/-! ## Numbers -/

/-- If the number is written again, the text reads as the same number. -/
def NumberKept (submission : JsString) : Prop :=
  ∀ task r, numericReformat task submission = some r →
    ∃ n m, asNumber submission = some n ∧ asNumber r.2 = some m ∧ m.eq n = true

/-- A text that reads as a number. -/
theorem asNumber_eq_some {n : Number} (h : asNumber submission = some n) :
    Number.coerce (trim submission) = n ∧ n.isFinite = true := by
  unfold asNumber at h
  dsimp only at h
  split_ifs at h with hempty hfinite
  have heq := Option.some.inj h
  exact ⟨heq, heq ▸ hfinite⟩

/-- What a finite Number is equal to is finite. -/
theorem isFinite_of_eq {m n : Number} (hn : n.isFinite = true) (h : m.eq n = true) :
    m.isFinite = true := by
  have hplace : ∃ q : ℚ, n.place = some ((q : WithTop ℚ) : WithBot (WithTop ℚ)) := by
    cases n with
    | nan => exact absurd hn Bool.false_ne_true
    | infinity neg => exact absurd hn Bool.false_ne_true
    | negZero => exact ⟨0, rfl⟩
    | finite x => exact ⟨x.val, rfl⟩
  obtain ⟨q, hq⟩ := hplace
  unfold Number.eq at h
  rw [hq] at h
  cases m with
  | nan => exact absurd h Bool.false_ne_true
  | infinity neg =>
    cases neg with
    | true => exact absurd (of_decide_eq_true h) WithBot.bot_ne_coe
    | false => exact absurd (WithBot.coe_injective (of_decide_eq_true h)) WithTop.top_ne_coe
  | negZero => rfl
  | finite x => rfl

/-- A finite Number is equal to itself. -/
theorem eq_self {n : Number} (hn : n.isFinite = true) : n.eq n = true := by
  cases n with
  | nan => exact absurd hn Bool.false_ne_true
  | infinity neg => exact absurd hn Bool.false_ne_true
  | negZero => rfl
  | finite x => exact decide_eq_true rfl

/-- How a respelled Number is read. -/
theorem asNumber_respell {n m : Number} (hn : n.isFinite = true) :
    asNumber n.respell = some m ∧ m.eq n = true ↔ Number.coerce n.respell = m ∧ n.plain = true := by
  have hne : n.respell ≠ [] := by
    unfold Number.respell
    split_ifs <;> exact List.append_ne_nil_of_right_ne_nil _ (by decide)
  unfold asNumber
  dsimp only
  rw [Number.trim_respell hn, if_neg hne, ← Number.coerce_respell_iff hn]
  constructor
  · rintro ⟨h, heq⟩
    split_ifs at h
    have hm := Option.some.inj h
    exact ⟨hm, hm ▸ heq⟩
  · rintro ⟨rfl, heq⟩
    exact ⟨if_pos (isFinite_of_eq hn heq), heq⟩

/-- **A number is kept exactly when its text has no exponent.** -/
theorem numberKept_iff :
    NumberKept submission ↔ ∀ n, asNumber submission = some n → n.plain = true := by
  constructor
  · intro h n hn
    obtain ⟨hread, hfinite⟩ := asNumber_eq_some hn
    by_cases hsame : n.respell = trim submission
    · -- the text is written like this already
      rw [← Number.coerce_respell_iff hfinite, hsame, hread]
      exact eq_self hfinite
    · have happlies : numericReformat ⟨[], [], none, none, none, none⟩ submission =
          some (⟨[], [], none, none, none, none⟩, n.respell) := by
        unfold numericReformat
        rw [hn]
        exact if_neg hsame
      obtain ⟨n', m, hn', hm⟩ := h _ _ happlies
      rw [hn] at hn'
      obtain rfl := Option.some.inj hn'
      exact ((asNumber_respell hfinite).mp hm).2
  · intro h task r hr
    obtain ⟨n, hn, hrest⟩ := Option.bind_eq_some_iff.mp hr
    obtain ⟨-, hfinite⟩ := asNumber_eq_some hn
    refine ⟨n, Number.coerce n.respell, hn, ?_⟩
    have htext : r.2 = n.respell := by
      dsimp only at hrest
      split_ifs at hrest with hint hsame hsame
      · rw [← Option.some.inj hrest]
        exact (if_pos hint).symm
      · rw [← Option.some.inj hrest]
        exact (if_neg hint).symm
    rw [htext]
    exact (asNumber_respell hfinite).mpr ⟨rfl, h n hn⟩

/-! ## Objects -/

/-- If the object is written again, the text is one of the same value. -/
def ObjectKept (submission : JsString) : Prop :=
  ∀ task r, jsonKeyReorder task submission = some r →
    ∃ v w, jsonParse (trim submission) = some v ∧ jsonParse r.2 = some w ∧ v.SameValue w

/-- The object with its keys reversed, as it is written. -/
def reordered (obj : Props) : JsVal :=
  JsVal.lossy (.obj (ownOrder (obj.reverse.filter fun p => p.1 ≠ js "__proto__")))

/-- A text that stands for an object. -/
theorem asJsonObject_eq_some {obj : Props} (h : asJsonObject submission = some obj) :
    ∃ v, jsonParse (trim submission) = some v ∧ v.inOrder = .obj obj ∧ JsVal.IsData (.obj obj) := by
  unfold asJsonObject at h
  dsimp only at h
  split_ifs at h
  obtain ⟨v, hv, hobj⟩ := Option.bind_eq_some_iff.mp h
  have heq : v.inOrder = .obj obj := by
    revert hobj
    cases v.inOrder <;> intro hobj
    case obj ps => rw [Option.some.inj hobj]
    all_goals cases hobj
  exact ⟨v, hv, heq, heq ▸ (isData_of_jsonParse hv).inOrder⟩

/-- Data without some of its properties is data. -/
theorem isData_of_perm_filter {obj ps : Props} (h : JsVal.IsData (.obj obj)) {q : JsString × JsVal → Bool}
    (hperm : ps.Perm (obj.reverse.filter q)) : JsVal.IsData (.obj ps) := by
  obtain ⟨hk, hps⟩ := JsVal.isData_obj.mp h
  have hrev : DistinctKeys obj.reverse := hk.perm (List.reverse_perm obj).symm
  refine JsVal.isData_obj.mpr ⟨?_, fun p hp => ?_⟩
  · have hfilter : DistinctKeys (obj.reverse.filter q) :=
      List.Nodup.sublist (List.Sublist.map _ List.filter_sublist) hrev
    exact hfilter.perm hperm.symm
  · exact hps p (List.mem_reverse.mp (List.mem_of_mem_filter (hperm.mem_iff.mp hp)))

/-- How an object is written again. -/
theorem jsonKeyReorder_eq {obj : Props} (h : asJsonObject submission = some obj) (task : TextTask) :
    jsonKeyReorder task submission =
      if obj.length < 2 then none else some (task, render (reordered obj)) := by
  obtain ⟨v, -, -, hdata⟩ := asJsonObject_eq_some h
  have hrev : DistinctKeys obj.reverse :=
    (JsVal.isData_obj.mp hdata).1.perm (List.reverse_perm obj).symm
  unfold jsonKeyReorder
  rw [h, Option.bind_some, foldl_assign (by rwa [List.nil_append]), List.nil_append]
  dsimp only
  rw [jsonStringify_data (isData_of_perm_filter hdata (ownOrder_perm _))]
  rfl

/-- **The object with its keys reversed is the same value** exactly when it has no key `__proto__`
and its Numbers are finite. -/
theorem sameValue_reordered_iff {obj : Props} (h : JsVal.IsData (.obj obj)) :
    JsVal.SameValue (.obj obj) (reordered obj) ↔
      js "__proto__" ∉ obj.map Prod.fst ∧ JsVal.AllFinite (.obj obj) := by
  have hdata := isData_of_perm_filter h (ownOrder_perm (obj.reverse.filter fun p => p.1 ≠ js "__proto__"))
  have hjson : JsVal.IsJson (reordered obj) := hdata.isJson_lossy
  unfold JsVal.SameValue
  rw [hjson.unsigned_eq]
  constructor
  · intro hsame
    refine ⟨fun hproto => ?_, (JsVal.isJson_unsigned_iff h).mp (hsame.symm.isJson hjson)⟩
    unfold reordered at hsame
    rw [JsVal.unsigned_obj, JsVal.lossy_obj] at hsame
    have hkeys := hsame.keys_perm
    rw [List.map_map, List.map_map] at hkeys
    obtain ⟨p, hp, hkey⟩ := List.mem_map.mp (hkeys.mem_iff.mp hproto)
    have hfilter := List.mem_filter.mp ((ownOrder_perm _).mem_iff.mp hp)
    exact (of_decide_eq_true hfilter.2) hkey
  · rintro ⟨hproto, hfinite⟩
    have hfilter : (obj.reverse.filter fun p => p.1 ≠ js "__proto__") = obj.reverse := by
      apply List.filter_eq_self.mpr
      intro p hp
      apply decide_eq_true
      intro hkey
      exact hproto (List.mem_map.mpr ⟨p, List.mem_reverse.mp hp, hkey⟩)
    unfold reordered
    rw [hfilter]
    have hperm : obj.Perm (ownOrder obj.reverse) :=
      (List.reverse_perm obj).symm.trans (ownOrder_perm _).symm
    have hfinite' : JsVal.AllFinite (.obj (ownOrder obj.reverse)) := by
      rw [JsVal.allFinite_obj] at hfinite ⊢
      exact fun p hp => hfinite p (hperm.mem_iff.mpr hp)
    rw [hfinite'.lossy_eq]
    exact (JsVal.SameUpToKeyOrder.perm hperm).unsigned

/-- **An object is kept exactly when it has no key `__proto__` and its Numbers are finite.** -/
theorem objectKept_iff : ObjectKept submission ↔ ∀ obj, asJsonObject submission = some obj →
    2 ≤ obj.length → js "__proto__" ∉ obj.map Prod.fst ∧ JsVal.AllFinite (.obj obj) := by
  have hsame : ∀ (v : JsVal) (obj : Props), v.inOrder = .obj obj →
      ∀ w, v.SameValue w ↔ JsVal.SameValue (.obj obj) w := by
    intro v obj heq w
    have hunsigned := heq ▸ (JsVal.sameUpToKeyOrder_inOrder v).unsigned
    exact ⟨fun h => hunsigned.symm.trans h, fun h => hunsigned.trans h⟩
  have hparse : ∀ obj, JsVal.IsData (.obj obj) →
      jsonParse (render (reordered obj)) = some (reordered obj) := fun obj hdata =>
    jsonParse_render (isData_of_perm_filter hdata (ownOrder_perm _)).isJson_lossy
  constructor
  · intro h obj hobj hlength
    obtain ⟨v, hv, heq, hdata⟩ := asJsonObject_eq_some hobj
    have happlies := jsonKeyReorder_eq hobj ⟨[], [], none, none, none, none⟩
    rw [if_neg (not_lt.mpr hlength)] at happlies
    obtain ⟨v', w, hv', hw, hvw⟩ := h _ _ happlies
    rw [hv] at hv'
    rw [hparse obj hdata] at hw
    obtain rfl := Option.some.inj hv'
    obtain rfl := Option.some.inj hw
    exact (sameValue_reordered_iff hdata).mp ((hsame v obj heq _).mp hvw)
  · intro h task r hr
    obtain ⟨obj, hobj, -⟩ := Option.bind_eq_some_iff.mp hr
    obtain ⟨v, hv, heq, hdata⟩ := asJsonObject_eq_some hobj
    rw [jsonKeyReorder_eq hobj] at hr
    split_ifs at hr with hlength
    rw [← Option.some.inj hr]
    refine ⟨v, _, hv, hparse obj hdata, (hsame v obj heq _).mpr ?_⟩
    exact (sameValue_reordered_iff hdata).mpr (h obj hobj (not_lt.mp hlength))

/-! ## Both -/

/-- **The two rewritings keep the value of a text** exactly when a number that the text stands for is
written without an exponent, and an object of several keys that it stands for has no key `__proto__`
and no number that is too large. -/
theorem values_kept_iff (submission : JsString) :
    NumberKept submission ∧ ObjectKept submission ↔
      (∀ n, asNumber submission = some n → n.plain = true) ∧
        ∀ obj, asJsonObject submission = some obj → 2 ≤ obj.length →
          js "__proto__" ∉ obj.map Prod.fst ∧ JsVal.AllFinite (.obj obj) :=
  and_congr numberKept_iff objectKept_iff

/-- `1e21` is written again as `1e+21.0`, and an object with a key `__proto__` without it. -/
theorem values_not_kept : ¬ NumberKept (js "1e21") ∧
    ¬ ObjectKept (js "\x7b\"__proto__\":\"a\",\"b\":\"c\"\x7d") := by
  constructor
  · rw [numberKept_iff]
    intro h
    have hdouble : IsDouble ((10 : ℚ) ^ 21) :=
      ⟨5 ^ 21, 21, by norm_num, by norm_num, by norm_num, by norm_num⟩
    have hread : Number.coerce (trim (js "1e21")) = .finite ⟨10 ^ 21, hdouble⟩ := by
      have htext : trim (js "1e21") = 49 :: [101, 50, 49] := by decide
      have hliteral := (@ofUnsigned_render [49] [] [101, 50, 49] (some 21) false (List.cons_ne_nil 49 [])
        (List.forall_mem_singleton.mpr rfl) (List.forall_mem_nil _) fun u us h => by
          rw [← (List.cons.inj h).1]
          decide).1 rfl
      have hvalue : Literal.value ⟨[49], [], some 21⟩ = 10 ^ 21 := by
        have hone : digitsValue ([49] ++ []) = 1 := rfl
        unfold Literal.value
        dsimp only
        rw [hone]
        norm_num
      rw [htext]
      refine ((coerce_of_head rfl (by decide)).trans hliteral).trans ?_
      unfold Literal.toNumber
      rw [if_neg Bool.false_ne_true, hvalue]
      exact Number.ofRat_of_isDouble hdouble
    have hnumber : asNumber (js "1e21") = some (.finite ⟨10 ^ 21, hdouble⟩) := by
      unfold asNumber
      dsimp only
      rw [hread]
      rfl
    have hplain := (Number.plain_finite (by norm_num)).mp (h _ hnumber)
    rw [abs_of_pos (by norm_num)] at hplain
    exact lt_irrefl _ hplain.2
  · rw [objectKept_iff]
    intro h
    have htext : trim (js "\x7b\"__proto__\":\"a\",\"b\":\"c\"\x7d") =
        render (.obj [(js "__proto__", .str (js "a")), (js "b", .str (js "c"))]) := by
      rw [render_obj]
      decide
    have hkeys : DistinctKeys [(js "__proto__", JsVal.str (js "a")), (js "b", .str (js "c"))] := by
      unfold DistinctKeys
      decide
    have hjson : JsVal.IsJson (.obj [(js "__proto__", .str (js "a")), (js "b", .str (js "c"))]) :=
      JsVal.isJson_obj.mpr ⟨hkeys, List.forall_mem_cons.mpr ⟨trivial, List.forall_mem_singleton.mpr trivial⟩⟩
    have hobj : asJsonObject (js "\x7b\"__proto__\":\"a\",\"b\":\"c\"\x7d") =
        some [(js "__proto__", .str (js "a")), (js "b", .str (js "c"))] := by
      unfold asJsonObject
      dsimp only
      rw [htext, jsonParse_render hjson, render_obj, if_pos (by rfl), Option.bind_some,
        JsVal.inOrder_obj]
      rfl
    exact (h _ hobj (by decide)).1 (List.mem_cons_self ..)

end AgentEval.Robustness
