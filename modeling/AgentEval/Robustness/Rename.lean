import AgentEval.Robustness.Perturbations

/-!
# Renaming an identifier

The longest identifier that the prompt and the submission share gets the suffix `_r`, in both. Every
word that is the identifier is renamed and no other. Two identifiers become one exactly where a text
has the suffixed name already.

* **`captureFree_iff`**: the renaming can be undone exactly when the suffixed name is in neither text.
-/

namespace AgentEval.Robustness

open Js Regex
open AgentEval.Providers.Http (isWordUnit)

variable {target renamed text : JsString}

/-- The words of a text that start with a letter or an underscore. -/
def identifiers (text : JsString) : List JsString :=
  (tokens isWordUnit text).filter fun t => t.all isWordUnit && t.head?.elim false isFirstUnit

/-- A word that is renamed, and the others. -/
def renameWord (target renamed t : JsString) : JsString := if t = target then renamed else t

/-- The renaming is injective on the identifiers of both texts, renames the words that are the target
and nothing else, and the target can be put back. -/
structure CaptureFree (task : TextTask) (submission : JsString) (target renamed : JsString)
    (r : TextTask × JsString) : Prop where
  /-- Two different identifiers stay different. -/
  injective : ∀ a ∈ identifiers task.prompt ++ identifiers submission,
    ∀ b ∈ identifiers task.prompt ++ identifiers submission,
      renameWord target renamed a = renameWord target renamed b → a = b
  /-- Of the task the prompt changes only. -/
  task_eq : r.1 = { task with prompt := r.1.prompt }
  /-- What changes in the prompt. -/
  prompt_eq : tokens isWordUnit r.1.prompt =
    (tokens isWordUnit task.prompt).map (renameWord target renamed)
  /-- What changes in the submission. -/
  submission_eq : tokens isWordUnit r.2 = (tokens isWordUnit submission).map (renameWord target renamed)
  /-- The prompt comes back. -/
  prompt_back : swap renamed target r.1.prompt = task.prompt
  /-- The submission comes back. -/
  submission_back : swap renamed target r.2 = submission

/-! ## Whole words -/

/-- **What a swap does to the tokens of a text.** -/
theorem swap_eq (hne : target ≠ []) (hword : ∀ u ∈ target, isWordUnit u = true) (renamed text : JsString) :
    swap target renamed text = (tokens isWordUnit text).flatMap (renameWord target renamed) := by
  have hwhole := Pattern.whole_wholeWord hne hword
  unfold swap
  rw [hwhole.replaceWords_eq (fun _ => renamed) text]
  congr 1
  funext t
  unfold renameWord
  by_cases ht : t = target
  · rw [if_pos ht, ht, decide_eq_true rfl, List.all_eq_true.mpr hword, if_pos (Bool.and_self true)]
  · rw [if_neg ht, decide_eq_false ht, Bool.false_and, if_neg Bool.false_ne_true]

/-- The tokens of a text after a swap. -/
theorem tokens_swap (hne : target ≠ []) (hword : ∀ u ∈ target, isWordUnit u = true)
    (hne' : renamed ≠ []) (hword' : ∀ u ∈ renamed, isWordUnit u = true) (text : JsString) :
    tokens isWordUnit (swap target renamed text) =
      (tokens isWordUnit text).map (renameWord target renamed) := by
  rw [swap_eq hne hword]
  apply tokens_flatMap
  · intro t ht htword
    unfold renameWord
    split_ifs
    · exact ⟨hne', hword'⟩
    · exact ⟨ht, htword⟩
  · intro u hu
    apply if_neg
    rintro rfl
    rw [hword u (List.mem_singleton_self u)] at hu
    cases hu

/-- **A swap is undone** where the new name was no word of the text. -/
theorem swap_swap (hne : target ≠ []) (hword : ∀ u ∈ target, isWordUnit u = true)
    (hne' : renamed ≠ []) (hword' : ∀ u ∈ renamed, isWordUnit u = true)
    (hfresh : renamed ∉ tokens isWordUnit text) :
    swap renamed target (swap target renamed text) = text := by
  rw [swap_eq hne' hword', tokens_swap hne hword hne' hword', List.flatMap_map]
  have hback : ∀ t ∈ tokens isWordUnit text, renameWord renamed target (renameWord target renamed t) = t := by
    intro t ht
    have hnot : t ≠ renamed := fun heq => hfresh (heq ▸ ht)
    unfold renameWord
    by_cases heq : t = target
    · rw [if_pos heq, if_pos rfl, heq]
    · rw [if_neg heq, if_neg hnot]
  rw [List.flatMap_congr hback]
  exact List.flatMap_id'.trans (flatten_tokens text)

/-! ## The shared identifier -/

/-- What is matched in a text. -/
theorem ids_eq (text : JsString) : ids text = ((tokens isWordUnit text).filter fun t =>
    (t.head?.elim false isFirstUnit && decide (3 < t.length)) && t.all isWordUnit).eraseDups := by
  unfold ids
  rw [(Pattern.whole_identifier isWordUnit isFirstUnit 3).matchAll_eq]

/-- It is an identifier of the text. -/
theorem mem_ids {id : JsString} (h : id ∈ ids text) :
    id ∈ tokens isWordUnit text ∧ (∀ u ∈ id, isWordUnit u = true) ∧ id.head?.elim false isFirstUnit = true := by
  rw [ids_eq, List.mem_eraseDups, List.mem_filter, Bool.and_eq_true, Bool.and_eq_true] at h
  exact ⟨h.1, List.all_eq_true.mp h.2.2, h.2.1.1⟩

/-- The shared identifier is one of both texts. -/
theorem mem_of_sharedTarget {prompt submission : JsString} (h : sharedTarget prompt submission = some target) :
    target ∈ ids prompt ∧ target ∈ ids submission := by
  have hmem := List.mem_of_mem_head? h
  rw [(List.perm_insertionSort _ _).mem_iff, List.mem_filter] at hmem
  exact ⟨hmem.1, of_decide_eq_true hmem.2⟩

/-- An identifier among the words of a text. -/
theorem mem_identifiers (hmem : target ∈ tokens isWordUnit text) (hword : ∀ u ∈ target, isWordUnit u = true)
    (hfirst : target.head?.elim false isFirstUnit = true) : target ∈ identifiers text := by
  unfold identifiers
  rw [List.mem_filter, Bool.and_eq_true]
  exact ⟨hmem, List.all_eq_true.mpr hword, hfirst⟩

/-- **A renaming is free of captures exactly when the new name is in neither text.** -/
theorem captureFree_iff {task : TextTask} {submission : JsString} {r : TextTask × JsString}
    (h : identifierAlphaRename task submission = some r) :
    (∃ target, sharedTarget task.prompt submission = some target ∧
        CaptureFree task submission target (target ++ js "_r") r) ↔
      ∀ target, sharedTarget task.prompt submission = some target →
        target ++ js "_r" ∉ tokens isWordUnit task.prompt ∧
          target ++ js "_r" ∉ tokens isWordUnit submission := by
  obtain ⟨target, htarget, hr⟩ := Option.map_eq_some_iff.mp h
  obtain ⟨hprompt, hsubmission⟩ := mem_of_sharedTarget htarget
  obtain ⟨hmem, hword, hfirst⟩ := mem_ids hprompt
  have hne : target ≠ [] := ne_nil_of_mem_tokens hmem
  have hne' : target ++ js "_r" ≠ [] := List.append_ne_nil_of_left_ne_nil hne _
  have hword' : ∀ u ∈ target ++ js "_r", isWordUnit u = true :=
    List.forall_mem_append.mpr ⟨hword, by decide⟩
  have hlonger : target ++ js "_r" ≠ target := by
    intro heq
    have hlength := congrArg List.length heq
    rw [List.length_append] at hlength
    exact absurd (Nat.left_eq_add.mp hlength.symm) (by decide)
  rw [htarget]
  constructor
  · rintro ⟨target', htarget', hfree⟩ t ht
    obtain rfl := Option.some.inj htarget'
    obtain rfl := Option.some.inj ht
    -- the new name is not renamed, so it would be the image of two identifiers
    have hcapture : ∀ text, (∀ a ∈ identifiers text,
        a ∈ identifiers task.prompt ++ identifiers submission) →
          target ++ js "_r" ∉ tokens isWordUnit text := by
      intro text hsub hin
      have hfirst' : (target ++ js "_r").head?.elim false isFirstUnit = true := by
        obtain ⟨u, us, rfl⟩ := List.exists_cons_of_ne_nil hne
        exact hfirst
      refine hlonger (hfree.injective _ (hsub _ (mem_identifiers hin hword' hfirst')) target
        (List.mem_append_left _ (mem_identifiers hmem hword hfirst)) ?_)
      unfold renameWord
      rw [if_neg hlonger, if_pos rfl]
    exact ⟨hcapture _ fun a ha => List.mem_append_left _ ha,
      hcapture _ fun a ha => List.mem_append_right _ ha⟩
  · intro hfresh
    obtain ⟨hp, hs⟩ := hfresh target rfl
    refine ⟨target, rfl, ?_⟩
    rw [← hr]
    constructor
    · intro a ha b hb heq
      have hnot : ∀ a ∈ identifiers task.prompt ++ identifiers submission, a ≠ target ++ js "_r" := by
        rintro a ha rfl
        rcases List.mem_append.mp ha with ha | ha
        · exact hp (List.mem_of_mem_filter ha)
        · exact hs (List.mem_of_mem_filter ha)
      unfold renameWord at heq
      split_ifs at heq with h₁ h₂ h₂
      · rw [h₁, h₂]
      · exact absurd heq.symm (hnot b hb)
      · exact absurd heq (hnot a ha)
      · exact heq
    · rfl
    · exact tokens_swap hne hword hne' hword' _
    · exact tokens_swap hne hword hne' hword' _
    · exact swap_swap hne hword hne' hword' hp
    · exact swap_swap hne hword hne' hword' hs

/-- The shared identifier of two texts with one word each. -/
theorem sharedTarget_fold :
    sharedTarget (js "fold") (js "fold") = some (js "fold") := by
  unfold sharedTarget
  rw [ids_eq]
  decide

/-- Where both texts are one word, the word is renamed and comes back. -/
theorem captureFree_fold :
    ∃ target, sharedTarget (js "fold") (js "fold") = some target ∧
      CaptureFree ⟨js "t", js "fold", none, none, none, none⟩ (js "fold") target (target ++ js "_r")
        (⟨js "t", swap (js "fold") (js "fold" ++ js "_r") (js "fold"), none, none, none, none⟩,
          swap (js "fold") (js "fold" ++ js "_r") (js "fold")) := by
  have happlies : identifierAlphaRename ⟨js "t", js "fold", none, none, none, none⟩ (js "fold") =
      some (⟨js "t", swap (js "fold") (js "fold" ++ js "_r") (js "fold"), none, none, none, none⟩,
        swap (js "fold") (js "fold" ++ js "_r") (js "fold")) := by
    unfold identifierAlphaRename
    dsimp only
    rw [sharedTarget_fold]
    rfl
  refine (captureFree_iff happlies).mpr ?_
  intro target htarget
  rw [sharedTarget_fold] at htarget
  obtain rfl := Option.some.inj htarget
  decide

/-- Where the prompt has the suffixed name already, two identifiers become one. -/
theorem not_captureFree :
    ∃ r, identifierAlphaRename ⟨js "t", js "fold fold_r", none, none, none, none⟩ (js "fold") = some r ∧
      ¬ ∃ target, sharedTarget (js "fold fold_r") (js "fold") = some target ∧
        CaptureFree ⟨js "t", js "fold fold_r", none, none, none, none⟩ (js "fold") target
          (target ++ js "_r") r := by
  have hshared : sharedTarget (js "fold fold_r") (js "fold") = some (js "fold") := by
    unfold sharedTarget
    rw [ids_eq, ids_eq]
    decide
  refine ⟨_, Option.map_eq_some_iff.mpr ⟨_, hshared, rfl⟩, ?_⟩
  rintro ⟨target, htarget, hfree⟩
  rw [hshared] at htarget
  obtain rfl := Option.some.inj htarget
  have heq := hfree.injective (js "fold_r") (by decide) (js "fold") (by decide) (by decide)
  exact absurd heq (by decide)

end AgentEval.Robustness
