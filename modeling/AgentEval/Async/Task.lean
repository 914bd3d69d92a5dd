import Mathlib.Data.List.Basic

/-!
# Asynchronous tasks over a shared state

A task is a computation that gives up control at each `await`. Between two of them it runs alone, so
it is a chain of atomic operations on a shared state; everything else may happen while it waits. A
pool is a shared state with the tasks that work on it, and a run of a pool is any order of arrivals,
resumptions and steps of the rest of the system.

Tasks are verified one at a time, by rely and guarantee. A `Protocol` says what every step keeps
(`inv`), what a step of a task does to the others (`guar`), and what a task may rely on while it
waits at a point (`rely`). `Task.Meets` is the obligation of one task under that protocol.

* **`Task.Meets.bind`**: tasks are verified in sequence.
* **`Pool.Meets.run`**: if every task meets the protocol and no step disturbs a waiting task, every
  result of every run has its postcondition.
-/

namespace Async

variable {σ L α β : Type}

/-! ## Tasks -/

/-- A computation on a state `σ` that waits at points of `L` and returns an `α`. -/
inductive Task (σ L α : Type) where
  /-- It has returned. -/
  | done (a : α)
  /-- It waits at a point; once resumed it updates the state and goes on. -/
  | call (point : L) (update : σ → σ) (next : σ → Task σ L α)

namespace Task

/-- One task after the other. -/
def bind : Task σ L α → (α → Task σ L β) → Task σ L β
  | done a, k => k a
  | call point update next, k => call point update fun s => (next s).bind k

instance : Monad (Task σ L) where
  pure := done
  bind := bind

/-- Wait at a point, then run an operation on the state. -/
def await (point : L) (op : σ → β × σ) : Task σ L β :=
  call point (fun s => (op s).2) fun s => done (op s).1

/-- Where a task waits. -/
def point : Task σ L α → Option L
  | done _ => none
  | call point _ _ => some point

/-- What a task has returned. -/
def result? : Task σ L α → Option α
  | done a => some a
  | call .. => none

/-- Run a task up to its next point. -/
def resume : Task σ L α → σ → Task σ L α × σ
  | done a, s => (done a, s)
  | call _ update next, s => (next s, update s)

/-- Sequences of tasks associate. -/
theorem bind_assoc {γ : Type} (t : Task σ L α) (k : α → Task σ L β) (l : β → Task σ L γ) :
    t >>= k >>= l = t >>= fun a => k a >>= l := by
  induction t with
  | done a => rfl
  | call point update next ih => exact congrArg (Task.call point update) (funext ih)

/-- A task that waits first runs its operation. -/
theorem resume_await_bind (point : L) (op : σ → β × σ) (k : β → Task σ L α) (s : σ) :
    (Task.await point op >>= k).resume s = (k (op s).1, (op s).2) := rfl

end Task

/-! ## Pools -/

/-- A state and the tasks that work on it. -/
structure Pool (σ L α : Type) where
  /-- The state. -/
  shared : σ
  /-- The tasks. -/
  tasks : List (Task σ L α)

/-- What can happen next. -/
inductive Event (σ L α : Type) where
  /-- A task arrives. -/
  | spawn (t : Task σ L α)
  /-- A task is resumed. -/
  | resume (i : ℕ)
  /-- The rest of the system takes a step. -/
  | other (update : σ → σ)

namespace Pool

/-- One step. -/
def step (p : Pool σ L α) : Event σ L α → Pool σ L α
  | .spawn t => { p with tasks := p.tasks ++ [t] }
  | .resume i =>
    match p.tasks[i]? with
    | none => p
    | some t => ⟨(t.resume p.shared).2, p.tasks.set i (t.resume p.shared).1⟩
  | .other update => { p with shared := update p.shared }

/-- Several steps. -/
def run (p : Pool σ L α) (events : List (Event σ L α)) : Pool σ L α := events.foldl step p

/-- What the tasks have returned. -/
def results (p : Pool σ L α) : List α := p.tasks.filterMap Task.result?

end Pool

/-- The steps of a run are its first and those of the rest. -/
theorem forall_steps_cons {ι : Type} {Q : List ι → ι → Prop} {e : ι} {events : List ι}
    (hfirst : Q [] e) (hrest : ∀ past e' later, events = past ++ e' :: later → Q (e :: past) e') :
    ∀ past e' later, e :: events = past ++ e' :: later → Q past e' := by
  intro past e' later h
  cases past with
  | nil =>
    cases h
    exact hfirst
  | cons a past =>
    rw [List.cons_append, List.cons.injEq] at h
    obtain ⟨rfl, h⟩ := h
    exact hrest past e' later h

/-- The steps of a run are those before its last and the last. -/
theorem forall_steps_concat {ι : Type} {Q : List ι → ι → Prop} {e : ι} {events : List ι} :
    (∀ past e' later, events ++ [e] = past ++ e' :: later → Q past e') ↔
      (∀ past e' later, events = past ++ e' :: later → Q past e') ∧ Q events e := by
  constructor
  · intro h
    refine ⟨fun past e' later heq => h past e' (later ++ [e]) ?_, h events e [] rfl⟩
    rw [heq, List.append_assoc, List.cons_append]
  · rintro ⟨h, hlast⟩ past e' later heq
    rcases List.eq_nil_or_concat later with rfl | ⟨later, last, rfl⟩
    · obtain ⟨rfl, hlast'⟩ := List.append_inj' heq rfl
      rw [← (List.cons.inj hlast').1]
      exact hlast
    · rw [List.concat_eq_append, ← List.cons_append, ← List.append_assoc] at heq
      exact h past e' later (List.append_inj' heq rfl).1

/-- **What a whole run keeps** of which each step keeps it under a condition, in runs that meet the
condition at each step. -/
theorem run_keeps {ς ι : Type} {step : ς → ι → ς} {P : ς → Prop} {C : ς → ι → Prop}
    (hstep : ∀ s e, P s → C s e → P (step s e)) {s : ς} (h : P s) {events : List ι}
    (hevents : ∀ past e later, events = past ++ e :: later → C (past.foldl step s) e) :
    P (events.foldl step s) := by
  induction events generalizing s with
  | nil => exact h
  | cons e events ih =>
    apply ih (hstep s e h (hevents [] e events rfl))
    intro past e' later heq
    exact hevents (e :: past) e' later (congrArg (e :: ·) heq)

/-! ## Rely and guarantee -/

/-- How tasks and the rest of the system live together. -/
structure Protocol (σ L : Type) where
  /-- What holds of the state throughout. -/
  inv : σ → Prop
  /-- What a step of a task does to the state. -/
  guar : σ → σ → Prop
  /-- What a task relies on while it waits at a point, and after it has returned. -/
  rely : Option L → σ → σ → Prop
  guar_refl : ∀ s, guar s s
  rely_refl : ∀ point s, rely point s s
  rely_trans : ∀ point s t u, rely point s t → rely point t u → rely point s u

variable {P : Protocol σ L} {post : α → σ → Prop} {s s' : σ}

/-- A task meets a protocol: whatever the others do while it waits, its next operation keeps the
invariant and the guarantee, and what it returns has the postcondition from then on. -/
def Task.Meets (P : Protocol σ L) (post : α → σ → Prop) : Task σ L α → σ → Prop
  | .done a, s => ∀ t, P.inv t → P.rely none s t → post a t
  | .call point update next, s => ∀ t, P.inv t → P.rely (some point) s t →
      P.inv (update t) ∧ P.guar t (update t) ∧ (next t).Meets P post (update t)

namespace Task

/-- A waiting task stays as it is under what it relies on. -/
theorem Meets.stable {t : Task σ L α} (h : t.Meets P post s) (hrely : P.rely t.point s s') :
    t.Meets P post s' := by
  cases t with
  | done a => exact fun u hu hrely' => h u hu (P.rely_trans _ _ _ _ hrely hrely')
  | call point update next =>
    exact fun u hu hrely' => h u hu (P.rely_trans _ _ _ _ hrely hrely')

/-- A resumed task keeps the invariant and the guarantee, and still meets the protocol. -/
theorem Meets.resume {t : Task σ L α} (h : t.Meets P post s) (hs : P.inv s) :
    P.inv (t.resume s).2 ∧ P.guar s (t.resume s).2 ∧
      (t.resume s).1.Meets P post (t.resume s).2 := by
  cases t with
  | done a => exact ⟨hs, P.guar_refl s, h⟩
  | call point update next => exact h s hs (P.rely_refl _ s)

/-- **The rule for sequence.** What the first task returns has its postcondition for as long as the
second one is left alone. -/
theorem Meets.bind {t : Task σ L α} {k : α → Task σ L β} {mid : α → σ → Prop}
    {post : β → σ → Prop} (h : t.Meets P mid s) (hs : P.inv s)
    (hk : ∀ a s, P.inv s → (∀ u, P.inv u → P.rely none s u → mid a u) → (k a).Meets P post s) :
    (t >>= k).Meets P post s := by
  induction t generalizing s with
  | done a => exact hk a s hs h
  | call point update next ih =>
    intro u hu hrely
    obtain ⟨hinv, hguar, hnext⟩ := h u hu hrely
    exact ⟨hinv, hguar, ih u hnext hinv⟩

/-- The rule for an operation and what follows. -/
theorem Meets.await {point : L} {op : σ → β × σ} {k : β → Task σ L α}
    (h : ∀ t, P.inv t → P.rely (some point) s t →
      P.inv (op t).2 ∧ P.guar t (op t).2 ∧ (k (op t).1).Meets P post (op t).2) :
    (Task.await point op >>= k).Meets P post s := h

/-- The rule for an operation that only reads. -/
theorem Meets.read {point : L} {f : σ → β} {k : β → Task σ L α}
    (h : ∀ t, P.inv t → P.rely (some point) s t → (k (f t)).Meets P post t) :
    (Task.await point (fun s => (f s, s)) >>= k).Meets P post s :=
  Meets.await fun t ht hrely => ⟨ht, P.guar_refl t, h t ht hrely⟩

/-- The rule for a return. -/
theorem Meets.pure {a : α} (h : ∀ t, P.inv t → P.rely none s t → post a t) :
    (Pure.pure a : Task σ L α).Meets P post s := h

end Task

namespace Pool

/-- A pool meets a protocol when its tasks do. -/
def Meets (P : Protocol σ L) (post : α → σ → Prop) (p : Pool σ L α) : Prop :=
  P.inv p.shared ∧ ∀ t ∈ p.tasks, t.Meets P post p.shared

/-- A step keeps what every other waiting task relies on. -/
def Undisturbed (P : Protocol σ L) (p : Pool σ L α) (e : Event σ L α) : Prop :=
  ∀ i t, p.tasks[i]? = some t → e ≠ .resume i → P.rely t.point p.shared (p.step e).shared

/-- A step brings in only tasks that meet the protocol, and changes of the rest of the system that
keep the invariant. -/
def Admits (P : Protocol σ L) (post : α → σ → Prop) (p : Pool σ L α) : Event σ L α → Prop
  | .spawn t => t.Meets P post p.shared
  | .resume _ => True
  | .other update => P.inv (update p.shared)

/-- **What one step keeps.** -/
theorem Meets.step {p : Pool σ L α} (h : p.Meets P post) {e : Event σ L α}
    (hadmits : p.Admits P post e) (hquiet : p.Undisturbed P e) : (p.step e).Meets P post := by
  obtain ⟨hinv, htasks⟩ := h
  have hstable : ∀ i t, p.tasks[i]? = some t → e ≠ .resume i →
      t.Meets P post (p.step e).shared := fun i t ht hne =>
    (htasks t (List.mem_of_getElem? ht)).stable (hquiet i t ht hne)
  cases e with
  | spawn t =>
    refine ⟨hinv, fun u hu => ?_⟩
    rcases List.mem_append.mp hu with hu | hu
    · exact htasks u hu
    · rw [List.mem_singleton.mp hu]
      exact hadmits
  | resume i =>
    cases ht : p.tasks[i]? with
    | none =>
      rw [Pool.step, ht]
      exact ⟨hinv, htasks⟩
    | some t =>
      obtain ⟨hinv', -, hnext⟩ := (htasks t (List.mem_of_getElem? ht)).resume hinv
      rw [Pool.step, ht] at hstable ⊢
      refine ⟨hinv', fun u hu => ?_⟩
      obtain ⟨j, hj⟩ := List.getElem?_of_mem hu
      by_cases hij : i = j
      · subst hij
        rw [List.getElem?_set_self (List.getElem?_eq_some_iff.mp ht).1, Option.some.injEq] at hj
        exact hj ▸ hnext
      · rw [List.getElem?_set_ne hij] at hj
        exact hstable j u hj (by simpa using hij)
  | other update =>
    refine ⟨hadmits, fun u hu => ?_⟩
    obtain ⟨i, hi⟩ := List.getElem?_of_mem hu
    exact hstable i u hi nofun

/-- A resumed task changes the state as it guarantees. -/
theorem Meets.guar {p : Pool σ L α} (h : p.Meets P post) (i : ℕ) :
    P.guar p.shared (p.step (.resume i)).shared := by
  cases ht : p.tasks[i]? with
  | none =>
    rw [Pool.step, ht]
    exact P.guar_refl _
  | some t =>
    rw [Pool.step, ht]
    exact ((h.2 t (List.mem_of_getElem? ht)).resume h.1).2.1

/-- **What a whole run keeps**, when each of its steps is admitted and disturbs no waiting task. -/
theorem Meets.run {p : Pool σ L α} (h : p.Meets P post) {events : List (Event σ L α)}
    (hquiet : ∀ past e later, events = past ++ e :: later → (p.run past).Meets P post →
      (p.run past).Admits P post e ∧ (p.run past).Undisturbed P e) :
    (p.run events).Meets P post := by
  induction events generalizing p with
  | nil => exact h
  | cons e events ih =>
    obtain ⟨hadmits, hundisturbed⟩ := hquiet [] e events rfl h
    refine ih (h.step hadmits hundisturbed) fun past e' later hevents => ?_
    exact hquiet (e :: past) e' later (congrArg (e :: ·) hevents)

/-- Every result has its postcondition. -/
theorem Meets.post_of_mem {p : Pool σ L α} (h : p.Meets P post) {a : α} (ha : a ∈ p.results) :
    post a p.shared := by
  obtain ⟨t, ht, hta⟩ := List.mem_filterMap.mp ha
  cases t with
  | done b =>
    rw [← Option.some.inj hta]
    exact h.2 _ ht _ h.1 (P.rely_refl _ _)
  | call point update next => cases hta

end Pool

end Async
