import AgentEval.Finance.Tokens

/-!
# Scale words

Where a text has one number, a scale word is looked for behind its last digit only. So what the loop over
the scale words does can be told from the text behind the number: `scalesBehind`.

* `last_digit` — a digit before a symbol of no number is the last digit.
* **`readScale_parts`**: the loop, and the text behind the number.
* **`chained_iff`**: the check for two scale words in a row.
-/

namespace AgentEval.Finance

open Js Regex Regex.Pattern

/-! ## A text with one number -/

/-- A number in a text, without its last digit, and what is before and behind it. -/
structure Placed (p init : JsString) (d : UInt16) (tail : JsString) : Prop where
  /-- No digit before. -/
  before : ∀ u ∈ p, isDigit u = false
  /-- Digits and separators. -/
  number : ∀ u ∈ init, isNumeric u = true
  /-- The last digit. -/
  last : isDigit d = true
  /-- No digit behind. -/
  behind : ∀ u ∈ tail, isDigit u = false

section

variable {p init tail x y : JsString} {d e : UInt16}

/-- **A digit before a symbol of no number is the last digit.** -/
theorem last_digit (h : Placed p init d tail) (heq : p ++ (init ++ d :: tail) = x ++ e :: y)
    (he : isDigit e = true) (hy : ∃ u t, y = u :: t ∧ plain u = true) :
    x = p ++ init ∧ e = d ∧ y = tail := by
  obtain ⟨u, t, rfl, hu⟩ := hy
  rw [← List.append_assoc] at heq
  rcases List.append_eq_append_iff.mp heq with ⟨a, rfl, ha⟩ | ⟨c, hc, ht⟩
  · cases a with
    | nil =>
      obtain ⟨rfl, rfl⟩ := List.cons.inj ha
      exact ⟨List.append_nil _, rfl, rfl⟩
    | cons z a =>
      -- the digit would be behind the number
      obtain ⟨rfl, rfl⟩ := List.cons.inj ha
      have hbehind := h.behind e (List.mem_append_right _ (List.mem_cons_self ..))
      exact Bool.noConfusion (hbehind.symm.trans he)
  · cases c with
    | nil =>
      obtain ⟨rfl, rfl⟩ := List.cons.inj ht
      exact ⟨(List.append_nil x).symm.trans hc.symm, rfl, rfl⟩
    | cons z c =>
      obtain ⟨rfl, hut⟩ := List.cons.inj ht
      exfalso
      cases c with
      | nil =>
        obtain ⟨rfl, -⟩ := List.cons.inj hut
        rw [plain_iff, h.last] at hu
        exact Bool.noConfusion hu.1
      | cons v c =>
        -- the symbol behind the digit would be one of the number
        obtain ⟨rfl, -⟩ := List.cons.inj hut
        have hmem : u ∈ init := by
          rcases List.append_eq_append_iff.mp hc with ⟨a, -, ha⟩ | ⟨a, hpa, ha⟩
          · rw [ha]
            simp
          · cases a with
            | nil =>
              rw [List.nil_append] at ha
              rw [← ha]
              simp
            | cons z a =>
              obtain ⟨rfl, -⟩ := List.cons.inj ha
              have hbefore := h.before e (hpa ▸ List.mem_append_right _ (List.mem_cons_self ..))
              exact Bool.noConfusion (hbefore.symm.trans he)
        have hnumeric := h.number u hmem
        unfold plain at hu
        rw [hnumeric] at hu
        exact Bool.noConfusion hu

end

/-! ## The word behind a number -/

/-- The word a text starts with, behind white space. -/
def headWord (tail : JsString) : JsString := (tail.dropWhile isWhiteSpace).takeWhile isLetter

/-- What follows the word. -/
def behindWord (tail : JsString) : JsString := (tail.dropWhile isWhiteSpace).dropWhile isLetter

instance (w v : JsString) : Decidable (Spells w v) := inferInstanceAs (Decidable (_ ∨ _))

/-- A scale word in some spelling. -/
def IsScale (v : JsString) : Prop := ∃ entry ∈ scaleWords, Spells entry.1 v

section

variable {w v g rest tail : JsString}

/-- A letter is no white space. -/
theorem not_isWhiteSpace_of_isLetter {u : UInt16} (h : isLetter u = true) :
    isWhiteSpace u = false := by
  rw [← Bool.not_eq_true]
  intro hspace
  have hneutral := (neutral_of_isWhiteSpace hspace).1
  unfold separator at hneutral
  rw [h] at hneutral
  exact Bool.noConfusion hneutral

/-- A word behind white space. -/
theorem headWord_append (hg : Blank g) (hne : v ≠ []) (hv : ∀ u ∈ v, isLetter u = true)
    (hrest : ∀ u t, rest = u :: t → isLetter u = false) :
    headWord (g ++ (v ++ rest)) = v ∧ behindWord (g ++ (v ++ rest)) = rest := by
  have hdrop : (g ++ (v ++ rest)).dropWhile isWhiteSpace = v ++ rest := by
    obtain ⟨x, v, rfl⟩ := List.exists_cons_of_ne_nil hne
    have hx := not_isWhiteSpace_of_isLetter (hv x (List.mem_cons_self ..))
    rw [List.dropWhile_append_of_pos hg, List.cons_append, List.dropWhile_cons_of_neg (by simp [hx])]
  unfold headWord behindWord
  rw [hdrop, List.takeWhile_append_of_pos hv, List.dropWhile_append_of_pos hv]
  cases rest with
  | nil => exact ⟨List.append_nil v, rfl⟩
  | cons u t =>
    have hu := hrest u t rfl
    rw [List.takeWhile_cons_of_neg (by simp [hu]), List.dropWhile_cons_of_neg (by simp [hu])]
    exact ⟨List.append_nil v, rfl⟩

/-- A text is white space, a word and the rest. -/
theorem exists_headWord (tail : JsString) : ∃ g, Blank g ∧
    tail = g ++ (headWord tail ++ behindWord tail) ∧ ∀ u t, behindWord tail = u :: t → isLetter u = false := by
  refine ⟨tail.takeWhile isWhiteSpace, fun u hu => List.mem_takeWhile_imp hu, ?_, ?_⟩
  · unfold headWord behindWord
    rw [List.takeWhile_append_dropWhile, List.takeWhile_append_dropWhile]
  · intro u t h
    unfold behindWord at h
    have hhead := List.head?_dropWhile_not isLetter (tail.dropWhile isWhiteSpace)
    rw [h] at hhead
    simpa using hhead

/-- Where there is no digit, the rest of a word's text has none. -/
theorem ended_behindWord (htail : ∀ u ∈ tail, isDigit u = false) : Ended (behindWord tail) := by
  intro u t h
  obtain ⟨g, -, htext, hletter⟩ := exists_headWord tail
  refine ⟨hletter u t h, htail u ?_⟩
  rw [htext, h]
  simp

/-- **A word that is spelled out behind white space is the first word.** -/
theorem spells_headWord_iff (htail : ∀ u ∈ tail, isDigit u = false)
    (hw : ∀ u ∈ w, 97 ≤ u.toNat ∧ u.toNat ≤ 122) (hne : w ≠ []) :
    (Blank g ∧ Spells w v ∧ Ended rest ∧ tail = g ++ (v ++ rest)) ↔
      (g = tail.takeWhile isWhiteSpace ∧ v = headWord tail ∧ rest = behindWord tail ∧
        Spells w (headWord tail)) := by
  constructor
  · rintro ⟨hg, hv, hrest, rfl⟩
    have hletters := hv.isLetter hw
    obtain ⟨hhead, hbehind⟩ := headWord_append hg (hv.ne_nil hne) hletters fun u t h => (hrest u t h).1
    refine ⟨?_, hhead.symm, hbehind.symm, hhead.symm ▸ hv⟩
    obtain ⟨x, v, rfl⟩ := List.exists_cons_of_ne_nil (hv.ne_nil hne)
    have hx := not_isWhiteSpace_of_isLetter (hletters x (List.mem_cons_self ..))
    rw [List.takeWhile_append_of_pos hg, List.cons_append, List.takeWhile_cons_of_neg (by simp [hx]),
      List.append_nil]
  · rintro ⟨rfl, rfl, rfl, hspells⟩
    refine ⟨fun u hu => List.mem_takeWhile_imp hu, hspells, ended_behindWord htail, ?_⟩
    unfold headWord behindWord
    rw [List.takeWhile_append_dropWhile, List.takeWhile_append_dropWhile]

end

/-! ## One scale word -/

section

variable {p init tail w : JsString} {d : UInt16}

/-- A scale word behind white space is not at a symbol of a number. -/
theorem exists_plain {g v rest : JsString} (hg : Blank g) (hne : v ≠ [])
    (hv : ∀ u ∈ v, isLetter u = true) : ∃ u t, g ++ (v ++ rest) = u :: t ∧ plain u = true := by
  cases g with
  | nil =>
    obtain ⟨x, v, rfl⟩ := List.exists_cons_of_ne_nil hne
    exact ⟨x, v ++ rest, rfl, plain_of_isLetter (hv x (List.mem_cons_self ..))⟩
  | cons x g => exact ⟨x, g ++ (v ++ rest), rfl, plain_of_isWhiteSpace (hg x (List.mem_cons_self ..))⟩

/-- **A scale word behind a digit is the first word behind the number.** -/
theorem test_scaleAfterDigit (h : Placed p init d tail)
    (hw : ∀ u ∈ w, 97 ≤ u.toNat ∧ u.toNat ≤ 122) (hne : w ≠ []) :
    (scaleAfterDigit w).test (p ++ (init ++ d :: tail)) = true ↔ Spells w (headWord tail) := by
  rw [test_iff]
  constructor
  · rintro ⟨x, y, o, hxy, ho⟩
    obtain ⟨e, g, v, rest, he, hg, hv, hended, rfl, -⟩ := (mem_run_scaleAfterDigit hw).mp ho
    obtain ⟨-, -, rfl⟩ := last_digit h hxy he
      (exists_plain hg (hv.ne_nil hne) (hv.isLetter hw))
    exact ((spells_headWord_iff h.behind hw hne).mp ⟨hg, hv, hended, rfl⟩).2.2.2
  · intro hspells
    obtain ⟨hg, hv, hended, htail⟩ :=
      (spells_headWord_iff h.behind hw hne).mpr ⟨rfl, rfl, rfl, hspells⟩
    exact ⟨p ++ init, d :: tail, _, (List.append_assoc p init _).symm,
      (mem_run_scaleAfterDigit hw).mpr ⟨d, _, _, _, h.last, hg, hv, hended, congrArg (d :: ·) htail,
        rfl⟩⟩

/-- The word is replaced by a space. -/
theorem replace_scaleAfterDigit (h : Placed p init d tail)
    (hw : ∀ u ∈ w, 97 ≤ u.toNat ∧ u.toNat ≤ 122) (hne : w ≠ [])
    (hspells : Spells w (headWord tail)) :
    (scaleAfterDigit w).replace (fun o => o.group 1 ++ js " ") (p ++ (init ++ d :: tail)) =
      p ++ (init ++ d :: 32 :: behindWord tail) := by
  have htest := (test_scaleAfterDigit h hw hne).mpr hspells
  obtain ⟨m, hm⟩ := Option.isSome_iff_exists.mp htest
  obtain ⟨y, hy, hhead, -⟩ := search_eq_some hm
  obtain ⟨e, g, v, rest, he, hg, hv, hended, rfl, ho⟩ :=
    (mem_run_scaleAfterDigit hw).mp (List.mem_of_mem_head? hhead)
  obtain ⟨hbefore, rfl, rfl⟩ := last_digit h hy he
    (exists_plain hg (hv.ne_nil hne) (hv.isLetter hw))
  obtain ⟨-, -, hrest, -⟩ := (spells_headWord_iff h.behind hw hne).mp ⟨hg, hv, hended, rfl⟩
  have hgroup : m.group 1 = [e] := by
    rw [ho]
    rfl
  have hmrest : m.rest = rest := congrArg Outcome.rest ho
  rw [replace_of_search hm, hgroup, hmrest, hbefore, ← hrest]
  simp [js, utf16]

end

/-! ## The loop -/

/-- What the loop has read of the text behind the number. -/
structure Behind where
  /-- The scale words found. -/
  found : List (JsString × Number)
  /-- The text. -/
  tail : JsString

/-- One scale word. -/
def Behind.read (b : Behind) (entry : JsString × Number) : Behind :=
  if Spells entry.1 (headWord b.tail) then ⟨b.found ++ [entry], 32 :: behindWord b.tail⟩ else b

/-- All scale words. -/
def scalesBehind (tail : JsString) : Behind := scaleWords.foldl Behind.read ⟨[], tail⟩

/-- The factor of the first. -/
def Behind.factor (b : Behind) : Number := (b.found.head?.map Prod.snd).getD (.ofNat 1)

/-- The state of the loop for what it has read. -/
def Behind.scaled (b : Behind) (p init : JsString) (d : UInt16) : Scaled :=
  ⟨b.found.map Prod.fst, b.factor, b.found.head?.map Prod.fst, p ++ (init ++ d :: b.tail)⟩

section

variable {p init tail : JsString} {d : UInt16}

/-- What is behind a word of a text without digits has none. -/
theorem behind_behindWord (htail : ∀ u ∈ tail, isDigit u = false) :
    ∀ u ∈ 32 :: behindWord tail, isDigit u = false := by
  rw [List.forall_mem_cons]
  refine ⟨by decide, fun u hu => htail u ?_⟩
  obtain ⟨g, -, htext, -⟩ := exists_headWord tail
  rw [htext]
  exact List.mem_append_right _ (List.mem_append_right _ hu)

/-- One scale word. -/
theorem scaled_read {b : Behind} (h : Placed p init d b.tail) {entry : JsString × Number}
    (hentry : entry ∈ scaleWords) : (b.scaled p init d).read entry = (b.read entry).scaled p init d := by
  obtain ⟨hne, hw⟩ := scaleWords_lower entry hentry
  have htest := test_scaleAfterDigit h hw hne
  have htext : (b.scaled p init d).text = p ++ (init ++ d :: b.tail) := rfl
  unfold Scaled.read Behind.read
  rw [htext]
  by_cases hspells : Spells entry.1 (headWord b.tail)
  · rw [if_pos (htest.mpr hspells), if_pos hspells, replace_scaleAfterDigit h hw hne hspells]
    unfold Behind.scaled Behind.factor
    cases b.found with
    | nil => rfl
    | cons first rest => simp
  · rw [if_neg fun h => hspells (htest.mp h), if_neg hspells]

/-- A scale word that was read leaves no digit behind the number. -/
theorem Placed.read {b : Behind} (h : Placed p init d b.tail) (entry : JsString × Number) :
    Placed p init d (b.read entry).tail := by
  unfold Behind.read
  split_ifs
  · exact ⟨h.before, h.number, h.last, behind_behindWord h.behind⟩
  · exact h

/-- The loop. -/
theorem scaled_foldl {words : List (JsString × Number)} (hwords : ∀ entry ∈ words, entry ∈ scaleWords)
    {b : Behind} (h : Placed p init d b.tail) :
    words.foldl Scaled.read (b.scaled p init d) = (words.foldl Behind.read b).scaled p init d := by
  induction words generalizing b with
  | nil => rfl
  | cons entry words ih =>
    rw [List.forall_mem_cons] at hwords
    rw [List.foldl_cons, List.foldl_cons, scaled_read h hwords.1, ih hwords.2 (h.read entry)]

/-- **The scale of a text with one number.** -/
theorem readScale_parts (h : Placed p init d tail) {scaled : Scaled} :
    readScale (p ++ (init ++ d :: tail)) = .ok scaled ↔
      (scalesBehind tail).scaled p init d = scaled ∧ (scalesBehind tail).found.length ≤ 1 := by
  have hfold : scaleWords.foldl Scaled.read ⟨[], .ofNat 1, none, p ++ (init ++ d :: tail)⟩ =
      (scalesBehind tail).scaled p init d := scaled_foldl (b := ⟨[], tail⟩) (fun _ h => h) h
  rw [readScale_eq_ok_iff, hfold]
  refine and_congr_right ?_
  rintro rfl
  unfold Behind.scaled
  rw [List.length_map]

end

/-! ## Two scale words in a row -/

section

variable {p init tail v s : JsString} {d : UInt16} {b : Bool} {o : Outcome UInt16}

/-- A scale word has letters only. -/
theorem IsScale.letters (h : IsScale v) : v ≠ [] ∧ ∀ u ∈ v, isLetter u = true := by
  obtain ⟨entry, hentry, hv⟩ := h
  obtain ⟨hne, hw⟩ := scaleWords_lower entry hentry
  exact ⟨hv.ne_nil hne, hv.isLetter hw⟩

/-- Any scale word. -/
theorem mem_run_scaleWord : o ∈ scaleWord.run b s ↔
    ∃ v rest, IsScale v ∧ s = v ++ rest ∧ o = ⟨v, rest, []⟩ := by
  have hseq : o ∈ scaleWord.run b s ↔ ∃ entry ∈ scaleWords,
      o ∈ (Pattern.seq (word entry.1) (Pattern.opt (word (js "s")))).run b s := by
    unfold scaleWord
    simp only [mem_run_seq, mem_run_oneOf, List.mem_map]
    constructor
    · rintro ⟨o₁, ⟨_, ⟨entry, hentry, rfl⟩, ho₁⟩, o₂, ho₂, rfl⟩
      exact ⟨entry, hentry, o₁, ho₁, o₂, ho₂, rfl⟩
    · rintro ⟨entry, hentry, o₁, ho₁, o₂, ho₂, rfl⟩
      exact ⟨o₁, ⟨_, ⟨entry, hentry, rfl⟩, ho₁⟩, o₂, ho₂, rfl⟩
  rw [hseq]
  constructor
  · rintro ⟨entry, hentry, ho⟩
    obtain ⟨v, rest, hv, rfl, rfl⟩ := (mem_run_plural (scaleWords_lower entry hentry).2).mp ho
    exact ⟨v, rest, ⟨entry, hentry, hv⟩, rfl, rfl⟩
  · rintro ⟨v, rest, ⟨entry, hentry, hv⟩, rfl, rfl⟩
    exact ⟨entry, hentry, (mem_run_plural (scaleWords_lower entry hentry).2).mpr ⟨v, rest, hv, rfl, rfl⟩⟩

/-- Two scale words behind a digit. -/
theorem mem_run_chainedScales : (∃ o, o ∈ chainedScales.run b s) ↔
    ∃ e g v g' v' rest, isDigit e = true ∧ Blank g ∧ IsScale v ∧ g' ≠ [] ∧ Blank g' ∧ IsScale v' ∧
      Ended rest ∧ s = e :: (g ++ (v ++ (g' ++ (v' ++ rest)))) := by
  unfold chainedScales digit gap
  constructor
  · rintro ⟨o, ho⟩
    obtain ⟨o₁, ho₁, o₂, ho₂, -⟩ := mem_run_seq.mp ho
    obtain ⟨e, t, rfl, he, rfl⟩ := mem_run_set.mp ho₁
    obtain ⟨o₃, ho₃, o₄, ho₄, -⟩ := mem_run_seq.mp ho₂
    obtain ⟨g, t₁, ht, hg, rfl⟩ := mem_run_star_set.mp ho₃
    obtain ⟨o₅, ho₅, o₆, ho₆, -⟩ := mem_run_seq.mp ho₄
    obtain ⟨v, t₂, hv, ht₁, rfl⟩ := mem_run_scaleWord.mp ho₅
    obtain ⟨o₇, ho₇, o₈, ho₈, -⟩ := mem_run_seq.mp ho₆
    obtain ⟨g', t₃, ht₂, hne, hg', rfl⟩ := mem_run_plus_set.mp ho₇
    obtain ⟨o₉, ho₉, o₁₀, ho₁₀, -⟩ := mem_run_seq.mp ho₈
    obtain ⟨v', rest, hv', ht₃, rfl⟩ := mem_run_scaleWord.mp ho₉
    obtain rfl : t = g ++ t₁ := ht
    obtain rfl : t₁ = v ++ t₂ := ht₁
    obtain rfl : t₂ = g' ++ t₃ := ht₂
    obtain rfl : t₃ = v' ++ rest := ht₃
    exact ⟨e, g, v, g', v', rest, he, hg, hv, hne, hg', hv', (mem_run_wordEnd.mp ho₁₀).1, rfl⟩
  · rintro ⟨e, g, v, g', v', rest, he, hg, hv, hne, hg', hv', hended, rfl⟩
    refine ⟨⟨[e] ++ (g ++ (v ++ (g' ++ (v' ++ [])))), rest, []⟩, mem_run_seq.mpr ⟨⟨[e], _, []⟩,
      mem_run_set.mpr ⟨e, _, rfl, he, rfl⟩, ⟨g ++ (v ++ (g' ++ (v' ++ []))), rest, []⟩, ?_, rfl⟩⟩
    refine mem_run_seq.mpr ⟨⟨g, _, []⟩, mem_run_star_set.mpr ⟨g, _, rfl, hg, rfl⟩,
      ⟨v ++ (g' ++ (v' ++ [])), rest, []⟩, ?_, rfl⟩
    refine mem_run_seq.mpr ⟨⟨v, _, []⟩, mem_run_scaleWord.mpr ⟨v, _, hv, rfl, rfl⟩,
      ⟨g' ++ (v' ++ []), rest, []⟩, ?_, rfl⟩
    refine mem_run_seq.mpr ⟨⟨g', _, []⟩, mem_run_plus_set.mpr ⟨g', _, rfl, hne, hg', rfl⟩,
      ⟨v' ++ [], rest, []⟩, ?_, rfl⟩
    exact mem_run_seq.mpr ⟨⟨v', rest, []⟩, mem_run_scaleWord.mpr ⟨v', rest, hv', rfl, rfl⟩,
      .stay rest, mem_run_wordEnd.mpr ⟨hended, rfl⟩, rfl⟩

/-- **Two scale words in a row, with white space between them.** -/
theorem chained_iff (h : Placed p init d tail) :
    chainedScales.test (p ++ (init ++ d :: tail)) = true ↔ IsScale (headWord tail) ∧
      (∃ u t, behindWord tail = u :: t ∧ isWhiteSpace u = true) ∧
      IsScale (headWord (behindWord tail)) := by
  have hrun : chainedScales.test (p ++ (init ++ d :: tail)) = true ↔
      ∃ x y, p ++ (init ++ d :: tail) = x ++ y ∧ ∃ o, o ∈ chainedScales.run x.isEmpty y := by
    rw [test_iff]
    exact exists_congr fun x => exists_congr fun y => exists_and_left
  rw [hrun]
  simp only [mem_run_chainedScales]
  constructor
  · rintro ⟨x, y, hxy, e, g, v, g', v', rest, he, hg, hv, hne, hg', hv', hended, rfl⟩
    obtain ⟨hvne, hvletters⟩ := hv.letters
    obtain ⟨hvne', hvletters'⟩ := hv'.letters
    obtain ⟨-, -, rfl⟩ := last_digit h hxy he (exists_plain hg hvne hvletters)
    obtain ⟨u, t, rfl⟩ := List.exists_cons_of_ne_nil hne
    have hspace := hg' u (List.mem_cons_self ..)
    have hletter : ∀ x y, u :: t ++ (v' ++ rest) = x :: y → isLetter x = false := by
      intro x y hxy
      obtain ⟨rfl, -⟩ := List.cons.inj hxy
      have hneutral := (neutral_of_isWhiteSpace hspace).1
      unfold separator at hneutral
      rwa [Bool.not_eq_true'] at hneutral
    obtain ⟨hhead, hbehind⟩ := headWord_append hg hvne hvletters hletter
    obtain ⟨hhead', -⟩ := headWord_append hg' hvne' hvletters' fun x y hxy => (hended x y hxy).1
    rw [hhead, hbehind, hhead']
    exact ⟨hv, ⟨u, t ++ (v' ++ rest), rfl, hspace⟩, hv'⟩
  · rintro ⟨hv, ⟨u, t, hbehind, hspace⟩, hv'⟩
    obtain ⟨g, hg, htext, -⟩ := exists_headWord tail
    obtain ⟨g', hg', htext', -⟩ := exists_headWord (behindWord tail)
    have hdigits : ∀ u ∈ behindWord tail, isDigit u = false := fun u hu =>
      behind_behindWord h.behind u (List.mem_cons_of_mem _ hu)
    refine ⟨p ++ init, d :: tail, (List.append_assoc p init _).symm, d, g, headWord tail, g',
      headWord (behindWord tail), behindWord (behindWord tail), h.last, hg, hv, ?_, hg', hv',
      ended_behindWord hdigits, ?_⟩
    · rintro rfl
      -- the space would be the first letter of the second word
      obtain ⟨hvne', hvletters'⟩ := hv'.letters
      obtain ⟨x, w, hw⟩ := List.exists_cons_of_ne_nil hvne'
      rw [hbehind] at htext' hvletters' hw
      rw [hw] at htext' hvletters'
      obtain ⟨rfl, -⟩ := List.cons.inj htext'
      have hletter := not_isWhiteSpace_of_isLetter (hvletters' u (List.mem_cons_self ..))
      exact Bool.noConfusion (hletter.symm.trans hspace)
    · rw [← htext', ← htext]

end

end AgentEval.Finance
