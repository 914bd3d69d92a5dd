import AgentEval.Async.Calls

/-!
# What calls return while an invariant is kept

* `Task.Keeps` — in states with an invariant, every operation of a task keeps it, and what the task
  then returns has a property.
* **`Pool.keeps_runBy`**: what the calls of a run return, when everything that happens in it keeps
  the invariant.
-/

namespace Async

variable {σ L α β ε E : Type} {I : σ → Prop}

/-- In states with `I`, every operation of a task keeps `I`, and what it returns has `P`. -/
def Task.Keeps (I : σ → Prop) (P : α → Prop) : Task σ L α → Prop
  | .done a => P a
  | .call _ update next => ∀ s, I s → I (update s) ∧ (next s).Keeps I P

namespace Task

/-- The rule for an operation alone. -/
theorem Keeps.await {P : β → Prop} {point : L} {op : σ → β × σ}
    (h : ∀ s, I s → I (op s).2 ∧ P (op s).1) : (Task.await point op).Keeps I P := h

/-- The rule for sequence. -/
theorem Keeps.bind {P : α → Prop} {Q : β → Prop} {t : Task σ L α} {k : α → Task σ L β}
    (h : t.Keeps I P) (hk : ∀ a, P a → (k a).Keeps I Q) : (t >>= k).Keeps I Q := by
  induction t with
  | done a => exact hk a h
  | call point update next ih => exact fun s hs => ⟨(h s hs).1, ih s (h s hs).2⟩

/-- The rule for sequence, where the first task never throws. -/
theorem Keeps.bindOk {P : α → Prop} {Q : Except ε β → Prop} {t : ExceptT ε (Task σ L) α}
    {k : α → ExceptT ε (Task σ L) β} (h : t.run.Keeps I fun r => ∃ a, r = .ok a ∧ P a)
    (hk : ∀ a, P a → (k a).run.Keeps I Q) : (t >>= k).run.Keeps I Q := by
  refine Keeps.bind h fun r hr => ?_
  obtain ⟨a, rfl, ha⟩ := hr
  exact hk a ha

/-- A weaker property. -/
theorem Keeps.mono {P Q : α → Prop} {t : Task σ L α} (h : t.Keeps I P) (hPQ : ∀ a, P a → Q a) :
    t.Keeps I Q := by
  induction t with
  | done a => exact hPQ a h
  | call point update next ih => exact fun s hs => ⟨(h s hs).1, ih s (h s hs).2⟩

/-- The rule for a condition that has nothing to do with the task, where the invariant is kept anyway. -/
theorem Keeps.of_imp {A : Prop} {P : α → Prop} {t : Task σ L α} (heach : t.Each I fun _ _ s' => I s')
    (h : A → t.Keeps I P) : t.Keeps I fun a => A → P a := by
  induction t with
  | done a => exact h
  | call point update next ih =>
    exact fun s hs => ⟨(heach s hs).1, ih s (heach s hs).2 fun hA => (h hA s hs).2⟩

/-- A resumed task keeps the invariant, and returns what it would have returned. -/
theorem Keeps.resume {P : α → Prop} {t : Task σ L α} (h : t.Keeps I P) {s : σ} (hs : I s) :
    I (t.resume s).2 ∧ (t.resume s).1.Keeps I P := by
  cases t with
  | done a => exact ⟨hs, h⟩
  | call point update next => exact h s hs

end Task

/-- What is related in two lists at one place. -/
theorem rel_getElem? {γ δ : Type} {R : γ → δ → Prop} {as : List γ} {bs : List δ}
    (h : List.Forall₂ R as bs) {i : ℕ} {a : γ} {b : δ} (ha : as[i]? = some a)
    (hb : bs[i]? = some b) : R a b := by
  obtain ⟨hi, rfl⟩ := List.getElem?_eq_some_iff.mp ha
  obtain ⟨hi', rfl⟩ := List.getElem?_eq_some_iff.mp hb
  exact h.get hi hi'

/-- What every task of a pool keeps and returns, task by task of its call. -/
def Pool.Keeps (I : σ → Prop) (P : E → α → Prop) (p : Pool σ L α) (called : List E) : Prop :=
  I p.shared ∧ List.Forall₂ (fun t e => t.Keeps I (P e)) p.tasks called

section

variable {toAsync : E → Event σ L α} {P : E → α → Prop} {p : Pool σ L α} {past : List E} {e : E}

/-- **What one step keeps.** -/
theorem Pool.Keeps.step (h : p.Keeps I P (calls toAsync past))
    (hspawn : ∀ t, toAsync e = .spawn t → t.Keeps I (P e))
    (hother : ∀ update s, toAsync e = .other update → I s → I (update s)) :
    (p.step (toAsync e)).Keeps I P (calls toAsync (past ++ [e])) := by
  obtain ⟨hI, htasks⟩ := h
  cases he : toAsync e with
  | spawn t =>
    rw [calls_concat, he]
    exact ⟨hI, List.rel_append htasks (.cons (hspawn t he) .nil)⟩
  | other update =>
    rw [calls_concat_of_not past (by rw [he]; rfl)]
    exact ⟨hother update _ he hI, htasks⟩
  | resume i =>
    rw [calls_concat_of_not past (by rw [he]; rfl), Pool.step]
    cases ht : p.tasks[i]? with
    | none => exact ⟨hI, htasks⟩
    | some t =>
      have hi : i < (calls toAsync past).length :=
        htasks.length_eq ▸ (List.getElem?_eq_some_iff.mp ht).1
      obtain ⟨call, hcall⟩ : ∃ call, (calls toAsync past)[i]? = some call :=
        ⟨_, List.getElem?_eq_getElem hi⟩
      obtain ⟨hI', hkeeps'⟩ := (rel_getElem? htasks ht hcall).resume hI
      refine ⟨hI', ?_⟩
      have hset := forall₂_set htasks i hkeeps'
      rwa [set_self hcall] at hset

/-- **What the calls of a run return**, when all its events keep the invariant. -/
theorem Pool.keeps_runBy {s : σ} (hs : I s) {events : List E}
    (hspawn : ∀ e ∈ events, ∀ t, toAsync e = .spawn t → t.Keeps I (P e))
    (hother : ∀ e ∈ events, ∀ update s, toAsync e = .other update → I s → I (update s)) :
    (runBy toAsync ⟨s, []⟩ events).Keeps I P (calls toAsync events) := by
  induction events using List.reverseRecOn with
  | nil => exact ⟨hs, .nil⟩
  | append_singleton past e ih =>
    obtain ⟨hpast, hlast⟩ := List.forall_mem_append.mp hspawn
    obtain ⟨hpast', hlast'⟩ := List.forall_mem_append.mp hother
    rw [runBy_concat]
    exact (ih hpast hpast').step (hlast e (List.mem_singleton_self e))
      (hlast' e (List.mem_singleton_self e))

/-- What a call has returned. -/
theorem Pool.Keeps.result {called : List E} (h : p.Keeps I P called) {i : ℕ} {a : α}
    (hcall : called[i]? = some e) (hdone : p.tasks[i]? = some (.done a)) : P e a :=
  rel_getElem? h.2 hdone hcall

end

end Async
