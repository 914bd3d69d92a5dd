import Mathlib.Data.List.Basic

/-!
# Dialogues

A dialogue is a program that asks questions and goes on with the answers. It is a well-founded tree,
so every run of it ends. Whoever answers may look at all that was said before, and may fail instead;
then the run ends there.

* `Dialogue.run` — a run, with what was said.
* **`Meets.run`**: what holds however a dialogue is answered; `Meets.bind` is its rule for sequence.
* **`Cut.run`**: a dialogue that stops when a number of questions of a kind were asked, against one
  that goes on; `Cut.bind` is the rule for sequence.
-/

/-- A program that asks questions of `Q`, is answered in `A`, and returns an `α`. -/
inductive Dialogue (Q A α : Type) where
  /-- It has returned. -/
  | done (a : α)
  /-- It asks, and goes on with the answer. -/
  | ask (q : Q) (next : A → Dialogue Q A α)

namespace Dialogue

variable {Q A α β ε : Type}

/-- One dialogue after the other. -/
def bind : Dialogue Q A α → (α → Dialogue Q A β) → Dialogue Q A β
  | done a, k => k a
  | ask q next, k => ask q fun r => (next r).bind k

instance : Monad (Dialogue Q A) where
  pure := done
  bind := bind

/-- One question. -/
def put (q : Q) : Dialogue Q A A := ask q done

/-- What was asked, and what came of it. -/
abbrev Past (Q A ε : Type) := List (Q × Except ε A)

/-- Whoever answers. -/
abbrev Other (Q A ε : Type) := Past Q A ε → Q → Except ε A

/-- A run: what it returns, unless an answer fails, and what was said by then. -/
def run (other : Other Q A ε) : Dialogue Q A α → Past Q A ε → Except ε α × Past Q A ε
  | done a, past => (.ok a, past)
  | ask q next, past =>
    match other past q with
    | .error e => (.error e, past ++ [(q, .error e)])
    | .ok r => (next r).run other (past ++ [(q, .ok r)])

variable {other : Other Q A ε} {past : Past Q A ε}

/-- A dialogue that is always answered returns. -/
theorem exists_run_eq_ok (hother : ∀ past q e, other past q ≠ .error e) (d : Dialogue Q A α)
    (past : Past Q A ε) : ∃ a, (d.run other past).1 = .ok a := by
  induction d generalizing past with
  | done a => exact ⟨a, rfl⟩
  | ask q next ih =>
    unfold run
    cases h : other past q with
    | error e => exact absurd h (hother past q e)
    | ok r => exact ih r _

/-! ## However it is answered -/

section Meets

variable {fails : Past Q A ε → Prop} {post mid : Past Q A ε → α → Prop} {post' : Past Q A ε → β → Prop}

/-- However it is answered, a dialogue returns with `post`, or an answer fails with `fails`. -/
def Meets (fails : Past Q A ε → Prop) (post : Past Q A ε → α → Prop) :
    Dialogue Q A α → Past Q A ε → Prop
  | done a, past => post past a
  | ask q next, past => (∀ e, fails (past ++ [(q, .error e)])) ∧
      ∀ r, (next r).Meets fails post (past ++ [(q, .ok r)])

/-- **What every run has.** -/
theorem Meets.run {d : Dialogue Q A α} (h : d.Meets fails post past) (other : Other Q A ε) :
    (∀ a, (d.run other past).1 = .ok a → post (d.run other past).2 a) ∧
      ∀ e, (d.run other past).1 = .error e → fails (d.run other past).2 := by
  induction d generalizing past with
  | done a =>
    refine ⟨fun b hb => ?_, fun e he => ?_⟩
    · cases hb
      exact h
    · cases he
  | ask q next ih =>
    unfold Dialogue.run
    cases hq : other past q with
    | error e =>
      refine ⟨fun b hb => ?_, fun e' he => ?_⟩
      · cases hb
      · exact h.1 e
    | ok r => exact ih r (h.2 r)

/-- The rule for a return. -/
theorem Meets.pure {a : α} (h : post past a) : (Pure.pure a : Dialogue Q A α).Meets fails post past := h

/-- The rule for a question and what follows. -/
theorem Meets.put {q : Q} {k : A → Dialogue Q A α} (hfails : ∀ e, fails (past ++ [(q, .error e)]))
    (hk : ∀ r, (k r).Meets fails post (past ++ [(q, .ok r)])) :
    (Dialogue.put q >>= k).Meets fails post past := ⟨hfails, hk⟩

/-- The rule for sequence. -/
theorem Meets.bind {d : Dialogue Q A α} {k : α → Dialogue Q A β} (h : d.Meets fails mid past)
    (hk : ∀ past a, mid past a → (k a).Meets fails post' past) :
    (d >>= k).Meets fails post' past := by
  induction d generalizing past with
  | done a => exact hk past a h
  | ask q next ih => exact ⟨h.1, fun r => ih r (h.2 r)⟩

/-- The rule of consequence. -/
theorem Meets.mono {d : Dialogue Q A α} (h : d.Meets fails mid past)
    (hpost : ∀ past a, mid past a → post past a) : d.Meets fails post past := by
  induction d generalizing past with
  | done a => exact hpost past a h
  | ask q next ih => exact ⟨h.1, fun r => ih r (h.2 r)⟩

end Meets

/-! ## Stopping at a number of questions -/

section asked

variable {counted : Q → Bool}

/-- The questions of a kind among those that were asked. -/
def asked (counted : Q → Bool) (past : Past Q A ε) : List Q := (past.map Prod.fst).filter counted

/-- One more question. -/
theorem asked_concat (past : Past Q A ε) (q : Q) (r : Except ε A) :
    asked counted (past ++ [(q, r)]) = asked counted past ++ if counted q then [q] else [] := by
  unfold asked
  rw [List.map_append, List.filter_append, List.map_singleton, List.filter_singleton]
  cases counted q <;> rfl

/-- A question of another kind. -/
theorem asked_concat_free {q : Q} (hq : counted q = false) (past : Past Q A ε) (r : Except ε A) :
    asked counted (past ++ [(q, r)]) = asked counted past := by
  rw [asked_concat, hq]
  exact List.append_nil _

/-- A question of the kind. -/
theorem asked_concat_counted {q : Q} (hq : counted q = true) (past : Past Q A ε) (r : Except ε A) :
    asked counted (past ++ [(q, r)]) = asked counted past ++ [q] := by
  rw [asked_concat, hq, if_pos rfl]

/-- What was said stays said. -/
theorem prefix_run (other : Other Q A ε) (d : Dialogue Q A α) (past : Past Q A ε) :
    past <+: (d.run other past).2 := by
  induction d generalizing past with
  | done a => exact List.prefix_rfl
  | ask q next ih =>
    unfold run
    cases other past q with
    | error e => exact List.prefix_append _ _
    | ok r => exact (List.prefix_append _ _).trans (ih r _)

/-- What was asked stays asked. -/
theorem prefix_asked {past past' : Past Q A ε} (h : past <+: past') :
    asked counted past <+: asked counted past' := (h.map Prod.fst).filter counted

/-- A run that begins with a question of the kind has asked one more. -/
theorem asked_run_ask {q : Q} (hq : counted q = true) (other : Other Q A ε) (past : Past Q A ε)
    (next : A → Dialogue Q A α) :
    (asked counted past).length < (asked counted ((ask q next).run other past).2).length := by
  have hone : ∀ r, (asked counted past).length < (asked counted (past ++ [(q, r)])).length := fun r => by
    rw [asked_concat_counted hq, List.length_append]
    exact Nat.lt_succ_self _
  unfold run
  cases other past q with
  | error e => exact hone _
  | ok r => exact Nat.lt_of_lt_of_le (hone _) (prefix_asked (prefix_run other (next r) _)).length_le

end asked

section Cut

variable {counted : Q → Bool} {same mid : ℕ → α → β → Prop} {out : α → Prop} {γ δ : Type}

/-- The first dialogue asks what the second asks and returns the `same`, until so many questions of a
kind were asked. Where the second asks one more, the first has returned and is `out`. -/
inductive Cut (counted : Q → Bool) (same : ℕ → α → β → Prop) (out : α → Prop) :
    ℕ → Dialogue Q A α → Dialogue Q A β → Prop where
  /-- Both return. -/
  | done {m : ℕ} {a : α} {b : β} : same m a b → Cut counted same out m (done a) (done b)
  /-- Both ask a question of another kind. -/
  | free {m : ℕ} {q : Q} {next : A → Dialogue Q A α} {next' : A → Dialogue Q A β} :
      counted q = false → (∀ r, Cut counted same out m (next r) (next' r)) →
      Cut counted same out m (ask q next) (ask q next')
  /-- Both ask a question of the kind. -/
  | counted {m : ℕ} {q : Q} {next : A → Dialogue Q A α} {next' : A → Dialogue Q A β} :
      counted q = true → (∀ r, Cut counted same out m (next r) (next' r)) →
      Cut counted same out (m + 1) (ask q next) (ask q next')
  /-- None is left. -/
  | out {a : α} {q : Q} {next' : A → Dialogue Q A β} :
      counted q = true → out a → Cut counted same out 0 (Dialogue.done a) (ask q next')

/-- How a run that stops ends, against one that goes on: both end alike with questions left, or the
first stopped where the second asked more. -/
inductive Stops (counted : Q → Bool) (same : ℕ → α → β → Prop) (out : α → Prop) (limit : ℕ) :
    Except ε α × Past Q A ε → Except ε β × Past Q A ε → Prop where
  /-- Both return. -/
  | done {m : ℕ} {a : α} {b : β} {past : Past Q A ε} : same m a b →
      (asked counted past).length ≤ limit → Stops counted same out limit (.ok a, past) (.ok b, past)
  /-- An answer failed. -/
  | failed {e : ε} {past : Past Q A ε} : (asked counted past).length ≤ limit →
      Stops counted same out limit (.error e, past) (.error e, past)
  /-- The first stopped. -/
  | out {a : α} {past : Past Q A ε} {more : Except ε β × Past Q A ε} : out a →
      (asked counted past).length = limit → past <+: more.2 → limit < (asked counted more.2).length →
      Stops counted same out limit (.ok a, past) more

/-- **What a dialogue that stops and one that goes on have in common.** -/
theorem Cut.run {m : ℕ} {d : Dialogue Q A α} {d' : Dialogue Q A β}
    (h : Cut counted same out m d d') (other : Other Q A ε) (past : Past Q A ε) :
    Stops counted same out ((asked counted past).length + m) (d.run other past)
      (d'.run other past) := by
  induction h generalizing past with
  | done h => exact .done h (Nat.le_add_right _ _)
  | @free m q next next' hq hnext ih =>
    unfold Dialogue.run
    cases other past q with
    | error e =>
      refine .failed ?_
      rw [asked_concat_free hq]
      exact Nat.le_add_right _ _
    | ok r =>
      have hrest := ih r (past ++ [(q, .ok r)])
      rwa [asked_concat_free hq] at hrest
  | @counted m q next next' hq hnext ih =>
    unfold Dialogue.run
    cases other past q with
    | error e =>
      refine .failed ?_
      rw [asked_concat_counted hq, List.length_append, List.length_singleton]
      exact Nat.add_le_add_left (Nat.le_add_left 1 m) _
    | ok r =>
      have hrest := ih r (past ++ [(q, .ok r)])
      rwa [asked_concat_counted hq, List.length_append, List.length_singleton, Nat.add_assoc,
        Nat.add_comm 1 m] at hrest
  | @out a q next' hq hout =>
    exact .out hout rfl (prefix_run other _ past) (asked_run_ask hq other past next')

/-- The rule for a return. -/
theorem Cut.pure {m : ℕ} {a : α} {b : β} (h : same m a b) :
    Cut counted same out m (Pure.pure a : Dialogue Q A α) (Pure.pure b) := .done h

/-- **The rule for sequence.** -/
theorem Cut.bind {same' : ℕ → γ → δ → Prop} {out' : γ → Prop} {m : ℕ} {d : Dialogue Q A α}
    {d' : Dialogue Q A β} {k : α → Dialogue Q A γ} {k' : β → Dialogue Q A δ}
    (h : Cut counted same out m d d')
    (hk : ∀ m a b, same m a b → Cut counted same' out' m (k a) (k' b))
    (hout : ∀ a, out a → ∃ c, k a = .done c ∧ out' c) :
    Cut counted same' out' m (d >>= k) (d' >>= k') := by
  induction h with
  | done h => exact hk _ _ _ h
  | free hq _ ih => exact .free hq ih
  | counted hq _ ih => exact .counted hq ih
  | out hq h =>
    obtain ⟨c, hc, hout'⟩ := hout _ h
    change Cut counted same' out' 0 (k _) _
    rw [hc]
    exact .out hq hout'

end Cut

end Dialogue
