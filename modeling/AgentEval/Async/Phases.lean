import Mathlib.Data.List.Forall2
import AgentEval.Async.Task

/-!
# Tasks that follow a script

A script says for each phase of a task what its next operation may do and to which phase that leads.
Phases are bookkeeping: they say what a task still owes, or what it has read, and the state of the
system need not show it. An invariant of the state and the phases of all tasks, kept by whatever the
script allows, holds in every pool whose tasks follow the script.

* **`Task.Follows.bind`**: the rule for sequence.
* **`Pool.Follows.resume_cases`**: what a task does that is resumed.
* **`Pool.Follows.step`**: what one step of a pool keeps.
-/

namespace Async

variable {σ L α β ε Φ : Type}

/-- Related lists stay related when one place is set in both. -/
theorem forall₂_set {γ δ : Type} {R : γ → δ → Prop} {as : List γ} {bs : List δ}
    (h : List.Forall₂ R as bs) (i : ℕ) {a : γ} {b : δ} (hab : R a b) :
    List.Forall₂ R (as.set i a) (bs.set i b) := by
  induction h generalizing i with
  | nil => exact .nil
  | cons hhead htail ih =>
    cases i with
    | zero => exact .cons hab htail
    | succ i => exact .cons hhead (ih i)

section phases

variable {phases : List Φ} {i : ℕ} {phase phase' ph : Φ}

/-- A phase that stays when another one is set. -/
theorem mem_set_of_ne (hi : phases[i]? = some phase) (hph : ph ∈ phases) (hne : ph ≠ phase) :
    ph ∈ phases.set i phase' := by
  obtain ⟨j, hj⟩ := List.getElem?_of_mem hph
  have hij : i ≠ j := by
    rintro rfl
    rw [hi, Option.some.injEq] at hj
    exact hne hj.symm
  refine List.mem_of_getElem? (i := j) ?_
  rw [List.getElem?_set_ne hij]
  exact hj

/-- The phase that is set. -/
theorem mem_set_self (hi : phases[i]? = some phase) : phase' ∈ phases.set i phase' := by
  refine List.mem_of_getElem? (i := i) ?_
  rw [List.getElem?_set_self (List.getElem?_eq_some_iff.mp hi).1]

/-- A phase that was there before another one was set. -/
theorem mem_of_mem_set (h : ph ∈ phases.set i phase') (hne : ph ≠ phase') : ph ∈ phases :=
  (List.mem_or_eq_of_mem_set h).resolve_right hne

/-- Setting the phase that is there. -/
theorem set_self (hi : phases[i]? = some phase) : phases.set i phase = phases := by
  obtain ⟨hlt, rfl⟩ := List.getElem?_eq_some_iff.mp hi
  exact List.set_getElem_self hlt

/-- A phase after one of them was set. -/
theorem getElem?_set_cases {j : ℕ} (hj : (phases.set i phase')[j]? = some ph) :
    i = j ∧ ph = phase' ∨ i ≠ j ∧ phases[j]? = some ph := by
  by_cases hij : i = j
  · subst hij
    obtain ⟨hlt, rfl⟩ := List.getElem?_eq_some_iff.mp hj
    exact .inl ⟨rfl, List.getElem_set_self hlt⟩
  · rw [List.getElem?_set_ne hij] at hj
    exact .inr ⟨hij, hj⟩

/-- A phase after one was added. -/
theorem getElem?_concat_cases {j : ℕ} (hj : (phases ++ [phase])[j]? = some ph) :
    phases[j]? = some ph ∨ ph = phase := by
  obtain ⟨hlt, rfl⟩ := List.getElem?_eq_some_iff.mp hj
  by_cases hlength : j < phases.length
  · rw [List.getElem_append_left hlength]
    exact .inl (List.getElem?_eq_getElem hlength)
  · right
    rw [List.getElem_append_right (Nat.le_of_not_lt hlength), List.getElem_singleton]

end phases

section Follows

variable {I : σ → Prop} {Q : Φ → L → (σ → σ) → σ → Φ → Prop} {fin : Φ → α → Prop}

/-- A task follows a script `Q` from a phase: its next operation does, in each state with `I`, what
the script allows, and goes on from the next phase. It returns what `fin` allows in its phase. -/
def Task.Follows (I : σ → Prop) (Q : Φ → L → (σ → σ) → σ → Φ → Prop) (fin : Φ → α → Prop) :
    Φ → Task σ L α → Prop
  | phase, .done a => fin phase a
  | phase, .call point update next =>
    ∀ s, I s → ∃ phase', Q phase point update s phase' ∧ (next s).Follows I Q fin phase'

namespace Task

variable {phase : Φ}

/-- The rule for a return. -/
theorem Follows.pure {a : α} (h : fin phase a) :
    (Pure.pure a : Task σ L α).Follows I Q fin phase := h

/-- **The rule for sequence.** -/
theorem Follows.bind {t : Task σ L α} {k : α → Task σ L β} {fin' : Φ → β → Prop}
    (h : t.Follows I Q fin phase)
    (hk : ∀ phase' a, fin phase' a → (k a).Follows I Q fin' phase') :
    (t >>= k).Follows I Q fin' phase := by
  induction t generalizing phase with
  | done a => exact hk phase a h
  | call point update next ih =>
    intro s hs
    obtain ⟨phase', hop, hnext⟩ := h s hs
    exact ⟨phase', hop, ih s hnext⟩

/-- The rule for an operation and what follows. -/
theorem Follows.await {point : L} {op : σ → β × σ} {k : β → Task σ L α}
    (h : ∀ s, I s → ∃ phase', Q phase point (fun s => (op s).2) s phase' ∧
      (k (op s).1).Follows I Q fin phase') :
    (Task.await point op >>= k).Follows I Q fin phase := h

/-- The rule for an operation alone. -/
theorem Follows.await_self {point : L} {op : σ → α × σ}
    (h : ∀ s, I s → ∃ phase', Q phase point (fun s => (op s).2) s phase' ∧ fin phase' (op s).1) :
    (Task.await point op).Follows I Q fin phase := h

/-- The rule for sequence, where the first task does not throw and ends in a known phase. -/
theorem Follows.bindExcept {t : ExceptT ε (Task σ L) α} {k : α → ExceptT ε (Task σ L) β}
    {fin' : Φ → Except ε β → Prop} {q : Φ}
    (h : t.run.Follows I Q (fun phase r => phase = q ∧ ∃ a, r = .ok a) phase)
    (hk : ∀ a, (k a).run.Follows I Q fin' q) : (t >>= k).run.Follows I Q fin' phase := by
  refine Follows.bind h ?_
  rintro _ _ ⟨rfl, a, rfl⟩
  exact hk a

/-- The rule for sequence, where the first task cannot throw. -/
theorem Follows.bindLift {t : Task σ L α} {k : α → ExceptT ε (Task σ L) β}
    {F : Φ → α → Prop} {fin' : Φ → Except ε β → Prop} (h : t.Follows I Q F phase)
    (hk : ∀ phase' a, F phase' a → (k a).run.Follows I Q fin' phase') :
    (ExceptT.lift t >>= k).run.Follows I Q fin' phase := by
  have hlift : (ExceptT.lift t : ExceptT ε (Task σ L) α).run = t >>= fun a => Pure.pure (.ok a) := rfl
  have hreturned : (ExceptT.lift t : ExceptT ε (Task σ L) α).run.Follows I Q
      (fun phase' r => ∃ a, r = .ok a ∧ F phase' a) phase := by
    rw [hlift]
    exact Follows.bind h fun phase' a ha => ⟨a, rfl, ha⟩
  refine Follows.bind hreturned ?_
  rintro phase' _ ⟨a, rfl, ha⟩
  exact hk phase' a ha

/-- A weaker statement about what is returned. -/
theorem Follows.mono {t : Task σ L α} {fin' : Φ → α → Prop} (h : t.Follows I Q fin phase)
    (hfin : ∀ phase a, fin phase a → fin' phase a) : t.Follows I Q fin' phase := by
  induction t generalizing phase with
  | done a => exact hfin phase a h
  | call point update next ih =>
    intro s hs
    obtain ⟨phase', hop, hnext⟩ := h s hs
    exact ⟨phase', hop, ih s hnext⟩

/-- A script for each tag, as one script of phases with their tags. -/
def Tagged {τ : Type} (Q : τ → Φ → L → (σ → σ) → σ → Φ → Prop) (p : τ × Φ) (point : L)
    (update : σ → σ) (s : σ) (p' : τ × Φ) : Prop :=
  p'.1 = p.1 ∧ Q p.1 p.2 point update s p'.2

/-- A task that follows the script of a tag. -/
theorem Follows.tag {τ : Type} {Q : τ → Φ → L → (σ → σ) → σ → Φ → Prop} {a : τ}
    {t : Task σ L α} (h : t.Follows I (Q a) fin phase) :
    t.Follows I (Tagged Q) (fun p => fin p.2) (a, phase) := by
  induction t generalizing phase with
  | done b => exact h
  | call point update next ih =>
    intro s hs
    obtain ⟨phase', hop, hnext⟩ := h s hs
    exact ⟨(a, phase'), ⟨rfl, hop⟩, ih s hnext⟩

end Task

namespace Pool

variable {p : Pool σ L α} {phases : List Φ}

/-- The tasks of a pool follow the script from these phases. -/
def Follows (I : σ → Prop) (Q : Φ → L → (σ → σ) → σ → Φ → Prop) (fin : Φ → α → Prop)
    (phases : List Φ) (p : Pool σ L α) : Prop :=
  List.Forall₂ (Task.Follows I Q fin) phases p.tasks

/-- The task at a place follows the script from the phase at that place. -/
theorem Follows.getElem? (h : p.Follows I Q fin phases) {i : ℕ} {t : Task σ L α}
    (ht : p.tasks[i]? = some t) :
    ∃ phase, phases[i]? = some phase ∧ t.Follows I Q fin phase := by
  obtain ⟨hi, rfl⟩ := List.getElem?_eq_some_iff.mp ht
  have hlength := List.Forall₂.length_eq h
  exact ⟨phases[i], List.getElem?_eq_getElem (by rw [hlength]; exact hi), h.get (by omega) hi⟩

/-- The phase at a place is that of the task there. -/
theorem Follows.exists_task (h : p.Follows I Q fin phases) {i : ℕ} {phase : Φ}
    (hi : phases[i]? = some phase) :
    ∃ t, p.tasks[i]? = some t ∧ t.Follows I Q fin phase := by
  obtain ⟨hlt, rfl⟩ := List.getElem?_eq_some_iff.mp hi
  have hlength := List.Forall₂.length_eq h
  exact ⟨p.tasks[i], List.getElem?_eq_getElem (by omega), h.get hlt (by omega)⟩

/-- A task that is resumed does what the script allows, or nothing is changed. -/
theorem Follows.resume_cases (h : p.Follows I Q fin phases) (hI : I p.shared) (i : ℕ) :
    (p.step (.resume i)).shared = p.shared ∨
      ∃ phase phase' point update next, p.tasks[i]? = some (.call point update next) ∧
        phases[i]? = some phase ∧ Q phase point update p.shared phase' ∧
        (p.step (.resume i)).shared = update p.shared := by
  cases ht : p.tasks[i]? with
  | none =>
    left
    rw [Pool.step, ht]
  | some t =>
    obtain ⟨phase, hphase, hfollows⟩ := h.getElem? ht
    cases t with
    | done a =>
      left
      rw [Pool.step, ht]
      rfl
    | call point update next =>
      obtain ⟨phase', hQ, -⟩ := hfollows p.shared hI
      refine .inr ⟨phase, phase', point, update, next, rfl, hphase, hQ, ?_⟩
      rw [Pool.step, ht]
      rfl

/-- **What one step does**: the tasks follow the script, and what every operation that the script
allows, every new task and every change of the rest of the system leads to. -/
theorem Follows.step_to {J : List Φ → σ → Prop} (h : p.Follows I Q fin phases)
    {e : Event σ L α} (hidle : ∀ i, e = .resume i → J phases p.shared)
    (hI : ∀ i, e = .resume i → I p.shared)
    (hop : ∀ i phase phase' point update next, e = .resume i →
      p.tasks[i]? = some (.call point update next) → phases[i]? = some phase →
      Q phase point update p.shared phase' → (next p.shared).Follows I Q fin phase' →
      J (phases.set i phase') (update p.shared))
    (hspawn : ∀ t, e = .spawn t → ∃ phase, t.Follows I Q fin phase ∧ J (phases ++ [phase]) p.shared)
    (hother : ∀ update, e = .other update → J phases (update p.shared)) :
    ∃ phases', (p.step e).Follows I Q fin phases' ∧ J phases' (p.step e).shared := by
  cases e with
  | spawn t =>
    obtain ⟨phase, hfollows, hJ'⟩ := hspawn t rfl
    exact ⟨phases ++ [phase], List.rel_append h (.cons hfollows .nil), hJ'⟩
  | other update => exact ⟨phases, h, hother update rfl⟩
  | resume i =>
    cases ht : p.tasks[i]? with
    | none =>
      refine ⟨phases, ?_⟩
      rw [Pool.step, ht]
      exact ⟨h, hidle i rfl⟩
    | some t =>
      obtain ⟨phase, hphase, hfollows⟩ := h.getElem? ht
      rw [Pool.step, ht]
      cases t with
      | done a =>
        refine ⟨phases, ?_, hidle i rfl⟩
        obtain ⟨hi, hget⟩ := List.getElem?_eq_some_iff.mp ht
        change List.Forall₂ _ phases (p.tasks.set i (.done a))
        rw [← hget, List.set_getElem_self hi]
        exact h
      | call point update next =>
        obtain ⟨phase', hQ, hnext⟩ := hfollows p.shared (hI i rfl)
        refine ⟨phases.set i phase', ?_, hop i phase phase' point update next rfl ht hphase hQ hnext⟩
        exact forall₂_set h i hnext

/-- **What one step keeps**: the tasks follow the script, and what every operation that the script
allows, every new task and every change of the rest of the system keeps. -/
theorem Follows.step {J : List Φ → σ → Prop} (h : p.Follows I Q fin phases)
    (hJ : J phases p.shared) {e : Event σ L α} (hI : ∀ i, e = .resume i → I p.shared)
    (hop : ∀ i phase phase' point update next, e = .resume i →
      p.tasks[i]? = some (.call point update next) → phases[i]? = some phase →
      Q phase point update p.shared phase' → (next p.shared).Follows I Q fin phase' →
      J (phases.set i phase') (update p.shared))
    (hspawn : ∀ t, e = .spawn t → ∃ phase, t.Follows I Q fin phase ∧ J (phases ++ [phase]) p.shared)
    (hother : ∀ update, e = .other update → J phases (update p.shared)) :
    ∃ phases', (p.step e).Follows I Q fin phases' ∧ J phases' (p.step e).shared :=
  h.step_to (fun _ _ => hJ) hI hop hspawn hother

end Pool

end Follows

end Async
