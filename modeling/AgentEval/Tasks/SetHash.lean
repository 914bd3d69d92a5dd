import AgentEval.Crypto.Collision
import AgentEval.Js.Scalars
import AgentEval.Tasks.Registry
import AgentEval.Words.Lines

/-!
# What the hash of a task set tells

The identifier, the version, the split, the number of tasks and the tasks are hashed with a line
break after each. A text may have line breaks of its own.

* `text_eq_iff`: two sets are hashed alike when they have the same lines.
* **`told_by_hash_iff`**: a set is told from every other one by what is hashed exactly when no text
  of it can be read in another place.
* **`reordering_collides`**: two orders of the same tasks are hashed alike.
-/

namespace AgentEval.Tasks

open Js Sha256 Crypto Lines Api

/-- What the hash of a task set covers.
Source: `registry.ts`, `computeTaskSetHash` -/
@[ext] structure HashedSet where
  /-- Its identifier. -/
  id : JsString
  /-- Its version. -/
  version : JsString
  /-- Its split. -/
  split : Split
  /-- The tasks in order. -/
  taskIds : List JsString
  /-- An array has no more entries. -/
  fits : taskIds.length < 2 ^ 32

namespace HashedSet

/-- What is hashed. -/
def text (x : HashedSet) : Bytes :=
  (hashedParts x.id x.version x.split x.taskIds).flatMap utf8

/-- The hash. -/
def contentHash (x : HashedSet) : JsString :=
  computeTaskSetHash x.id x.version x.split x.taskIds

end HashedSet

/-- The line that tells how many tasks there are. -/
def countLine (n : ℕ) : JsString := js "count:" ++ (Number.ofNat n).toString

namespace HashedSet

/-- The texts that are hashed with a line break after each. -/
def fields (x : HashedSet) : List JsString :=
  [js "taskset:v1", x.id, x.version, x.split.toJs, countLine x.taskIds.length] ++ x.taskIds

/-- The line break. -/
abbrev newline : UInt16 := 10

/-- Lines that could be the end of what is hashed: a split, a count, and the lines of that many
tasks, after some of other texts. -/
def Imitated (ls : List JsString) : Prop :=
  ∃ (front : List JsString) (split : Split) (n : ℕ) (rest : List JsString),
    ls = front ++ split.toJs :: countLine n :: rest ∧ n < 2 ^ 32 ∧ n ≤ rest.length ∧
      (n = 0 → rest = [])

/-- No text of the set can be read in another place. -/
structure Unmistakable (x : HashedSet) : Prop where
  /-- Every text is told by its octets. -/
  faithful : ∀ s ∈ x.id :: x.version :: x.taskIds, Faithful s
  /-- The identifier is one line. -/
  id : newline ∉ x.id
  /-- So is the version. -/
  version : newline ∉ x.version
  /-- So is every task of several. -/
  taskIds : x.taskIds.length ≤ 1 ∨ ∀ t ∈ x.taskIds, newline ∉ t
  /-- The tasks have no lines that could end what is hashed. -/
  unimitated : ¬ Imitated (linesOf newline x.taskIds)

/-! ## Lines -/

/-- What is hashed is the texts, each with a line break after it. -/
theorem flatten_hashedParts (x : HashedSet) :
    (hashedParts x.id x.version x.split x.taskIds).flatten =
      x.fields.flatMap (· ++ [newline]) := by
  have htasks : (x.taskIds.map fun taskId => taskId ++ js "\n").flatten =
      x.taskIds.flatMap (· ++ [newline]) := rfl
  have hmark : js "taskset:v1\n" = js "taskset:v1" ++ [newline] := by decide
  have hline : js "\n" = [newline] := by decide
  unfold hashedParts fields countLine
  rw [List.flatten_append, htasks, List.flatMap_append, hmark, hline]
  simp

/-- The octets of those. -/
theorem text_eq (x : HashedSet) : x.text = utf8 (x.fields.flatMap (· ++ [newline])) := by
  have hmark : js "taskset:v1\n" = js "taskset:v1" ++ [newline] := by decide
  have hline : js "\n" = [newline] := by decide
  have hended : ∀ s ∈ hashedParts x.id x.version x.split x.taskIds, ∃ t, s = t ++ [newline] := by
    intro s hs
    unfold hashedParts at hs
    rw [hline, hmark] at hs
    rcases List.mem_append.mp hs with hs | hs
    · simp only [List.mem_cons, List.not_mem_nil, or_false] at hs
      rcases hs with rfl | rfl | rfl
      · exact ⟨_, rfl⟩
      · exact ⟨_, rfl⟩
      · exact ⟨_, rfl⟩
    · obtain ⟨taskId, -, rfl⟩ := List.mem_map.mp hs
      exact ⟨_, rfl⟩
  unfold text
  rw [flatMap_utf8_ended (by decide) (by decide) hended, flatten_hashedParts]

/-- **Two sets are hashed alike** when they have the same lines, lone surrogates replaced. -/
theorem text_eq_iff {x y : HashedSet} : x.text = y.text ↔
    linesOf newline (x.fields.map toWellFormed) = linesOf newline (y.fields.map toWellFormed) := by
  rw [text_eq, text_eq, utf8_eq_iff, toWellFormed_ended (by decide) (by decide),
    toWellFormed_ended (by decide) (by decide), ended_eq_iff]

/-- With the same lines, they are. -/
theorem text_eq_of_linesOf {x y : HashedSet}
    (h : linesOf newline x.fields = linesOf newline y.fields) : x.text = y.text := by
  rw [text_eq, text_eq, ended_eq_iff.mpr h]

/-- The number of tasks is told by its line. -/
theorem countLine_inj {m n : ℕ} (hm : m < 2 ^ 32) (hn : n < 2 ^ 32)
    (h : countLine m = countLine n) : m = n := by
  unfold countLine at h
  exact Number.toString_ofNat_injOn (hm.trans (by decide)) (hn.trans (by decide))
    (List.append_cancel_left h)

/-- That line is one line. -/
theorem newline_notMem_countLine {n : ℕ} (hn : n < 2 ^ 32) : newline ∉ countLine n := by
  unfold countLine
  rw [List.mem_append, not_or]
  refine ⟨by decide, fun hmem => ?_⟩
  have hdigit := (exists_digits_toString (hn.trans (by decide))).2.1 newline hmem
  exact absurd hdigit (by decide)

/-- The name of a split is one line. -/
theorem newline_notMem_toJs (split : Split) : newline ∉ split.toJs := by
  cases split <;> decide

/-- No split is named like a number of tasks. -/
theorem toJs_ne_countLine (split : Split) (n : ℕ) : split.toJs ≠ countLine n := by
  intro h
  have hhead := congrArg List.head? h
  have hcount : (countLine n).head? = some 99 := by
    unfold countLine
    rw [List.head?_append_of_ne_nil _ (by decide)]
    decide
  rw [hcount] at hhead
  cases split <;> exact absurd hhead (by decide)

/-- Splits are told by their names. -/
theorem toJs_injective : Function.Injective Split.toJs := by
  intro s t h
  cases s <;> cases t <;> first | rfl | exact absurd h (by decide)

/-- The lines of what is hashed. -/
theorem linesOf_fields (x : HashedSet) : linesOf newline x.fields =
    js "taskset:v1" :: (x.id.splitOn newline ++ (x.version.splitOn newline ++
      x.split.toJs :: countLine x.taskIds.length :: linesOf newline x.taskIds)) := by
  have hcount := newline_notMem_countLine x.fits
  unfold fields
  rw [linesOf_append, linesOf_cons, linesOf_cons, linesOf_cons, linesOf_cons, linesOf_cons,
    linesOf_nil, List.splitOn_eq_singleton (by decide : newline ∉ js "taskset:v1"),
    List.splitOn_eq_singleton (newline_notMem_toJs x.split), List.splitOn_eq_singleton hcount]
  simp

/-! ## One reading -/

/-- **A set whose texts keep their places** has lines of its own. -/
theorem eq_of_linesOf_fields {x z : HashedSet} (hx : x.Unmistakable)
    (h : linesOf newline z.fields = linesOf newline x.fields) : z = x := by
  rw [linesOf_fields, linesOf_fields, List.cons.injEq, List.splitOn_eq_singleton hx.id,
    List.splitOn_eq_singleton hx.version] at h
  obtain ⟨-, h⟩ := h
  obtain ⟨a, as, hid⟩ := List.exists_cons_of_ne_nil (List.splitOn_ne_nil newline z.id)
  obtain ⟨b, bs, hversion⟩ := List.exists_cons_of_ne_nil (List.splitOn_ne_nil newline z.version)
  rw [hid, hversion, List.cons_append, List.singleton_append, List.singleton_append,
    List.cons.injEq] at h
  obtain ⟨ha, h⟩ := h
  -- more than one line before the header: the header is among the lines of the tasks
  have hnone : as = [] ∧ bs = [] := by
    by_contra hsome
    obtain ⟨f, fs, hfront⟩ : ∃ f fs, as ++ b :: bs = f :: fs :=
      List.exists_cons_of_ne_nil (List.append_ne_nil_of_right_ne_nil _ (List.cons_ne_nil _ _))
    have hfs : fs ≠ [] := by
      rintro rfl
      rw [List.append_eq_singleton_iff] at hfront
      rcases hfront with ⟨has, hbs⟩ | ⟨-, hbs⟩
      · exact hsome ⟨has, (List.cons.inj hbs).2⟩
      · exact List.cons_ne_nil _ _ hbs
    obtain ⟨c, cs, rfl⟩ := List.exists_cons_of_ne_nil hfs
    rw [← List.append_assoc, hfront, List.cons_append, List.cons_append, List.cons.injEq,
      List.cons.injEq] at h
    obtain ⟨-, -, h⟩ := h
    cases cs with
    | nil =>
      rw [List.nil_append, List.cons.injEq] at h
      exact toJs_ne_countLine _ _ h.1
    | cons d ds =>
      rw [List.cons_append, List.cons.injEq] at h
      apply hx.unimitated
      refine ⟨ds, z.split, z.taskIds.length, _, h.2.symm, z.fits, length_le_linesOf, fun hzero => ?_⟩
      rw [List.eq_nil_of_length_eq_zero hzero]
      rfl
  obtain ⟨rfl, rfl⟩ := hnone
  rw [List.nil_append, List.cons_append, List.nil_append, List.cons.injEq, List.cons.injEq,
    List.cons.injEq] at h
  obtain ⟨hb, hsplit, hcount, htasks⟩ := h
  have hlength : z.taskIds.length = x.taskIds.length := countLine_inj z.fits x.fits hcount
  have hids : z.taskIds = x.taskIds := by
    rcases hx.taskIds with hone | hfree
    · cases hx' : x.taskIds with
      | nil =>
        rw [hx'] at hlength
        exact List.eq_nil_of_length_eq_zero hlength
      | cons t ts =>
        have hts : ts = [] := by
          rw [hx', List.length_cons] at hone
          exact List.eq_nil_of_length_eq_zero (by omega)
        rw [hts] at hx'
        rw [hx', List.length_singleton, List.length_eq_one_iff] at hlength
        obtain ⟨t', ht'⟩ := hlength
        rw [hx', ht', linesOf_cons, linesOf_cons, List.append_cancel_right_eq] at htasks
        rw [ht', hts, splitOn_injective htasks]
    · rw [linesOf_of_free hfree] at htasks
      have hz := free_of_length_linesOf (by rw [htasks, hlength])
      rw [linesOf_of_free hz] at htasks
      exact htasks
  refine HashedSet.ext ?_ ?_ (toJs_injective hsplit) hids
  · apply splitOn_injective (x := newline)
    rw [hid, List.splitOn_eq_singleton hx.id, ha]
  · apply splitOn_injective (x := newline)
    rw [hversion, List.splitOn_eq_singleton hx.version, hb]

/-- The set with its lone surrogates replaced. -/
def repair (x : HashedSet) : HashedSet where
  id := toWellFormed x.id
  version := toWellFormed x.version
  split := x.split
  taskIds := x.taskIds.map toWellFormed
  fits := by
    rw [List.length_map]
    exact x.fits

/-- Its texts are the texts repaired. -/
theorem fields_repair (x : HashedSet) : x.repair.fields = x.fields.map toWellFormed := by
  have hcount : WellFormed (countLine x.taskIds.length) :=
    (wellFormed_js _).append (Number.wellFormed_toString _)
  have hsplit : WellFormed x.split.toJs := by
    cases x.split <;> exact wellFormed_js _
  unfold fields repair
  rw [List.map_append, List.map_cons, List.map_cons, List.map_cons, List.map_cons, List.map_cons,
    List.map_nil, toWellFormed_of_wellFormed (wellFormed_js _), toWellFormed_of_wellFormed hcount,
    toWellFormed_of_wellFormed hsplit, List.length_map]

/-- A set whose texts keep their places is the only one that is hashed so. -/
theorem Unmistakable.eq {x y : HashedSet} (hx : x.Unmistakable) (h : x.text = y.text) : x = y := by
  obtain ⟨hid, hversion, htasks⟩ : Faithful x.id ∧ Faithful x.version ∧
      ∀ s ∈ x.taskIds, Faithful s := by
    have := hx.faithful
    rwa [List.forall_mem_cons, List.forall_mem_cons] at this
  rw [text_eq_iff, ← fields_repair, ← fields_repair] at h
  have hself : x.repair = x := by
    refine HashedSet.ext (toWellFormed_of_wellFormed hid.wellFormed)
      (toWellFormed_of_wellFormed hversion.wellFormed) rfl ?_
    apply (List.map_congr_left (g := fun s => s) fun s hs => ?_).trans (List.map_id' _)
    exact toWellFormed_of_wellFormed (htasks s hs).wellFormed
  rw [hself] at h
  have hy := eq_of_linesOf_fields hx h.symm
  refine (HashedSet.ext ?_ ?_ ?_ ?_).symm
  · apply faithful_iff.mp hid
    rw [toWellFormed_of_wellFormed hid.wellFormed]
    exact congrArg HashedSet.id hy
  · apply faithful_iff.mp hversion
    rw [toWellFormed_of_wellFormed hversion.wellFormed]
    exact congrArg HashedSet.version hy
  · have hsplit : y.repair.split = x.split := congrArg HashedSet.split hy
    exact hsplit
  · apply eq_of_map_toWellFormed htasks
    exact (congrArg HashedSet.taskIds hy).trans (congrArg HashedSet.taskIds hself).symm

/-! ## Several readings -/

section

variable {x : HashedSet} (hx : ∀ y : HashedSet, x.text = y.text → x = y)

include hx

/-- A set that is told by what is hashed has no text that its octets do not tell. -/
theorem faithful_of_told : ∀ s ∈ x.id :: x.version :: x.taskIds, Faithful s := by
  rw [List.forall_mem_cons, List.forall_mem_cons]
  refine ⟨?_, ?_, ?_⟩
  · rw [faithful_iff]
    intro t ht
    have hsame := hx { x with id := t } (text_eq_iff.mpr (by simp [fields, ht]))
    exact (congrArg HashedSet.id hsame).symm
  · rw [faithful_iff]
    intro t ht
    have hsame := hx { x with version := t } (text_eq_iff.mpr (by simp [fields, ht]))
    exact (congrArg version hsame).symm
  · intro s hs
    rw [faithful_iff]
    intro t ht
    obtain ⟨front, back, hids⟩ := List.append_of_mem hs
    have hlength : (front ++ t :: back).length = x.taskIds.length := by
      rw [hids]
      simp
    have hsame := hx ⟨x.id, x.version, x.split, front ++ t :: back, hlength.trans_lt x.fits⟩
      (text_eq_iff.mpr (by simp [fields, hids, ht]))
    have htasks : x.taskIds = front ++ t :: back := congrArg taskIds hsame
    rw [hids, List.append_cancel_left_eq, List.cons.injEq] at htasks
    exact htasks.1.symm

/-- Its identifier is one line: the rest of it could begin the version. -/
theorem newline_notMem_id_of_told : newline ∉ x.id := by
  intro hmem
  obtain ⟨p, q, hid⟩ := List.append_of_mem hmem
  have hsame := hx { x with id := p, version := q ++ newline :: x.version } (by
    apply text_eq_of_linesOf
    rw [linesOf_fields, linesOf_fields, hid, List.splitOn_append_cons_self,
      List.splitOn_append_cons_self, List.append_assoc, List.append_assoc])
  have hlength := congrArg (fun z => z.id.length) hsame
  rw [hid] at hlength
  simp at hlength

/-- Its version is one line: the beginning of it could end the identifier. -/
theorem newline_notMem_version_of_told : newline ∉ x.version := by
  intro hmem
  obtain ⟨p, q, hversion⟩ := List.append_of_mem hmem
  have hsame := hx { x with id := x.id ++ newline :: p, version := q } (by
    apply text_eq_of_linesOf
    rw [linesOf_fields, linesOf_fields, hversion, List.splitOn_append_cons_self,
      List.splitOn_append_cons_self, List.append_assoc, List.append_assoc])
  have hlength := congrArg (fun z => z.version.length) hsame
  rw [hversion] at hlength
  simp only [List.length_append, List.length_cons] at hlength
  omega

/-- Its tasks are one line each, or there is one at most. -/
theorem newline_notMem_taskIds_of_told :
    x.taskIds.length ≤ 1 ∨ ∀ t ∈ x.taskIds, newline ∉ t := by
  rw [or_iff_not_imp_left, not_le]
  intro hlength t ht hmem
  obtain ⟨ids, hids, hlines, hne⟩ := exists_other_linesOf hlength ht hmem
  have hsame := hx ⟨x.id, x.version, x.split, ids, hids.trans_lt x.fits⟩ (by
    apply text_eq_of_linesOf
    rw [linesOf_fields, linesOf_fields]
    simp only [hids, hlines])
  exact hne (congrArg taskIds hsame).symm

/-- Its tasks imitate no header: the header before them could end the version. -/
theorem not_imitated_of_told : ¬ Imitated (linesOf newline x.taskIds) := by
  rintro ⟨front, split, n, rest, hlines, hn, hrest, hzero⟩
  have hfree : ∀ l ∈ front ++ split.toJs :: countLine n :: rest, newline ∉ l := by
    rw [← hlines]
    exact fun l hl => not_mem_of_mem_linesOf hl
  rw [List.forall_mem_append, List.forall_mem_cons, List.forall_mem_cons] at hfree
  obtain ⟨ids, hids, hrestlines⟩ := exists_linesOf hfree.2.2.2 hrest hzero
  have hversion : ∀ l ∈ x.version.splitOn newline ++
      x.split.toJs :: countLine x.taskIds.length :: front, newline ∉ l := by
    rw [List.forall_mem_append, List.forall_mem_cons, List.forall_mem_cons]
    exact ⟨fun l hl => not_mem_of_mem_splitOn hl, newline_notMem_toJs _,
      newline_notMem_countLine x.fits, hfree.1⟩
  have hsplit := List.splitOn_intercalate newline hversion
    (List.append_ne_nil_of_right_ne_nil _ (List.cons_ne_nil _ _))
  have hsame := hx ⟨x.id, [newline].intercalate (x.version.splitOn newline ++
      x.split.toJs :: countLine x.taskIds.length :: front), split, ids, hids.trans_lt hn⟩ (by
    apply text_eq_of_linesOf
    rw [linesOf_fields, linesOf_fields]
    simp only [hsplit, hids, hrestlines, hlines, List.append_assoc, List.cons_append])
  have hlength := congrArg (fun z => (z.version.splitOn newline).length) hsame
  change _ = (List.splitOn newline ([newline].intercalate _)).length at hlength
  rw [hsplit, List.length_append, List.length_cons] at hlength
  omega

end

/-- **A set is told from every other one** by what is hashed, and by its hash where that does not
collide, exactly when no text of it can be read in another place. -/
theorem told_by_hash_iff (x : HashedSet) :
    ((∀ y : HashedSet, x.text = y.text → x = y) ∧
      ∀ y : HashedSet, ¬ CollisionIn sha256 [x.text, y.text] →
        x.contentHash = y.contentHash → x = y) ↔ x.Unmistakable := by
  constructor
  · rintro ⟨hx, -⟩
    exact ⟨faithful_of_told hx, newline_notMem_id_of_told hx, newline_notMem_version_of_told hx,
      newline_notMem_taskIds_of_told hx, not_imitated_of_told hx⟩
  · intro hx
    refine ⟨fun y h => hx.eq h, fun y hS h => hx.eq ?_⟩
    apply eq_of_not_collisionIn hS (by simp) (by simp)
    exact Digest.ext (toHex_injective (List.append_cancel_left h))

/-- **Two orders of the same tasks** are hashed alike. -/
theorem reordering_collides :
    ¬ ∀ x y : HashedSet, x.text = y.text → x.id = y.id ∧ x.version = y.version ∧
      x.split = y.split ∧ x.taskIds = y.taskIds := by
  intro h
  have hsame := h ⟨js "s", js "1", .heldOut, [js "x\nx", js "x"], by decide⟩
    ⟨js "s", js "1", .heldOut, [js "x", js "x\nx"], by decide⟩ (by
      apply text_eq_of_linesOf
      rw [linesOf_fields, linesOf_fields]
      have hlines : linesOf newline [js "x\nx", js "x"] = linesOf newline [js "x", js "x\nx"] := by
        decide
      rw [hlines]
      rfl)
  exact absurd hsame.2.2.2 (by decide)

end HashedSet

end AgentEval.Tasks
