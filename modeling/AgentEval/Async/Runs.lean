import AgentEval.Async.Task

/-!
# Following a task

Two views of a task that need no protocol.

`Task.Each` is about every operation a task will ever run: what it does at its point, in any state
that has an invariant. `Task.Ends` is one run of a task to its end, with the rest of the system at
work after each of its operations.

* **`Pool.Each.step`**: a step of a pool is an operation of one of its tasks, or not one at all.
* **`Task.ends_bind`**: a run of two tasks in sequence is a run of each.
* **`Task.exists_ends`**: every task ends.

`Task.Returns` is about whatever a task may return, and `Task.Within` bounds how often it is resumed.

* **`Pool.Within.step`**: a task that is resumed has one resumption less to go.
-/

namespace Async

variable {σ L α β ε : Type}

/-! ## Every operation of a task -/

section Each

variable {I : σ → Prop} {Q : L → σ → σ → Prop}

/-- Every operation of a task does `Q` at its point, in each state with `I`. -/
def Task.Each (I : σ → Prop) (Q : L → σ → σ → Prop) : Task σ L α → Prop
  | .done _ => True
  | .call point update next => ∀ s, I s → Q point s (update s) ∧ (next s).Each I Q

namespace Task

/-- The rule for a return. -/
theorem Each.pure (a : α) : (Pure.pure a : Task σ L α).Each I Q := trivial

/-- The rule for sequence. -/
theorem Each.bind {t : Task σ L α} {k : α → Task σ L β} (h : t.Each I Q)
    (hk : ∀ a, (k a).Each I Q) : (t >>= k).Each I Q := by
  induction t with
  | done a => exact hk a
  | call point update next ih => exact fun s hs => ⟨(h s hs).1, ih s (h s hs).2⟩

/-- The rule for an operation and what follows. -/
theorem Each.await {point : L} {op : σ → β × σ} {k : β → Task σ L α}
    (h : ∀ s, I s → Q point s (op s).2 ∧ (k (op s).1).Each I Q) :
    (Task.await point op >>= k).Each I Q := h

/-- The rule for an operation alone. -/
theorem Each.await_self {point : L} {op : σ → β × σ} (h : ∀ s, I s → Q point s (op s).2) :
    (Task.await point op).Each I Q := fun s hs => ⟨h s hs, trivial⟩

/-- The rule for sequence, where the first task may have thrown. -/
theorem Each.bindExcept {t : ExceptT ε (Task σ L) α} {k : α → ExceptT ε (Task σ L) β}
    (h : t.run.Each I Q) (hk : ∀ a, (k a).run.Each I Q) : (t >>= k).run.Each I Q := by
  refine Each.bind h fun r => ?_
  cases r with
  | error e => exact trivial
  | ok a => exact hk a

end Task

namespace Pool

variable {p : Pool σ L α}

/-- The invariant holds and every operation of every task does `Q`. -/
def Each (I : σ → Prop) (Q : L → σ → σ → Prop) (p : Pool σ L α) : Prop :=
  I p.shared ∧ ∀ t ∈ p.tasks, t.Each I Q

/-- The task that is resumed next waits at a point. -/
def Waits (p : Pool σ L α) (i : ℕ) (point : L) : Prop :=
  ∃ t, p.tasks[i]? = some t ∧ t.point = some point

/-- **A step that resumes a task** runs the operation the task waits for, or changes nothing. -/
theorem Each.resume (h : p.Each I Q) (i : ℕ) :
    (p.step (.resume i)).shared = p.shared ∨
      ∃ point, p.Waits i point ∧ Q point p.shared (p.step (.resume i)).shared := by
  cases ht : p.tasks[i]? with
  | none =>
    left
    rw [Pool.step, ht]
  | some t =>
    have heach := h.2 t (List.mem_of_getElem? ht)
    rw [Pool.step, ht]
    cases t with
    | done a => exact Or.inl rfl
    | call point update next => exact Or.inr ⟨point, ⟨_, ht, rfl⟩, (heach _ h.1).1⟩

/-- **What one step keeps.** -/
theorem Each.step (h : p.Each I Q) {e : Event σ L α} (hQ : ∀ point s s', I s → Q point s s' → I s')
    (hspawn : ∀ t, e = .spawn t → t.Each I Q)
    (hother : ∀ update, e = .other update → I (update p.shared)) : (p.step e).Each I Q := by
  obtain ⟨hI, htasks⟩ := h
  cases e with
  | spawn t =>
    refine ⟨hI, fun u hu => ?_⟩
    rcases List.mem_append.mp hu with hu | hu
    · exact htasks u hu
    · rw [List.mem_singleton.mp hu]
      exact hspawn t rfl
  | other update => exact ⟨hother update rfl, htasks⟩
  | resume i =>
    constructor
    · rcases Each.resume ⟨hI, htasks⟩ i with heq | ⟨point, -, hdo⟩
      · rw [heq]
        exact hI
      · exact hQ _ _ _ hI hdo
    · cases ht : p.tasks[i]? with
      | none =>
        rw [Pool.step, ht]
        exact htasks
      | some t =>
        have heach := htasks t (List.mem_of_getElem? ht)
        rw [Pool.step, ht]
        intro u hu
        rcases List.mem_or_eq_of_mem_set hu with hu | rfl
        · exact htasks u hu
        · cases t with
          | done a => exact trivial
          | call point update next => exact (heach _ hI).2

end Pool

end Each

/-! ## One run of a task -/

section Ends

variable {R : σ → σ → Prop} {s s' : σ}

namespace Task

/-- A task that starts in a state ends with a result in another, where the rest of the system does
`R` after each operation. -/
def Ends (R : σ → σ → Prop) : Task σ L α → σ → α → σ → Prop
  | .done b, s, a, s' => b = a ∧ s = s'
  | .call _ update next, s, a, s' => ∃ u, R (update s) u ∧ (next s).Ends R u a s'

/-- A return ends where it is. -/
theorem ends_pure {a b : α} : (Pure.pure b : Task σ L α).Ends R s a s' ↔ b = a ∧ s = s' := Iff.rfl

/-- An operation and what follows. -/
theorem ends_await {point : L} {op : σ → β × σ} {k : β → Task σ L α} {a : α} :
    (Task.await point op >>= k).Ends R s a s' ↔
      ∃ u, R (op s).2 u ∧ (k (op s).1).Ends R u a s' := Iff.rfl

/-- **A run of two tasks in sequence.** -/
theorem ends_bind {t : Task σ L α} {k : α → Task σ L β} {b : β} :
    (t >>= k).Ends R s b s' ↔ ∃ a u, t.Ends R s a u ∧ (k a).Ends R u b s' := by
  induction t generalizing s with
  | done a =>
    constructor
    · exact fun h => ⟨a, s, ⟨rfl, rfl⟩, h⟩
    · rintro ⟨_, _, ⟨rfl, rfl⟩, h⟩
      exact h
  | call point update next ih =>
    constructor
    · rintro ⟨u, hR, h⟩
      obtain ⟨a, v, hnext, hk⟩ := (ih s).mp h
      exact ⟨a, v, ⟨u, hR, hnext⟩, hk⟩
    · rintro ⟨a, v, ⟨u, hR, hnext⟩, hk⟩
      exact ⟨u, hR, (ih s).mpr ⟨a, v, hnext, hk⟩⟩

/-- A run of two tasks in sequence, where the first may have thrown. -/
theorem ends_bindExcept {t : ExceptT ε (Task σ L) α} {k : α → ExceptT ε (Task σ L) β}
    {r : Except ε β} :
    (t >>= k).run.Ends R s r s' ↔
      (∃ e, t.run.Ends R s (.error e) s' ∧ r = .error e) ∨
        ∃ a u, t.run.Ends R s (.ok a) u ∧ (k a).run.Ends R u r s' := by
  refine ends_bind.trans ?_
  constructor
  · rintro ⟨q, u, ht, hk⟩
    cases q with
    | error e =>
      obtain ⟨rfl, rfl⟩ := hk
      exact Or.inl ⟨e, ht, rfl⟩
    | ok a => exact Or.inr ⟨a, u, ht, hk⟩
  · rintro (⟨e, ht, rfl⟩ | ⟨a, u, ht, hk⟩)
    · exact ⟨_, _, ht, rfl, rfl⟩
    · exact ⟨_, _, ht, hk⟩

/-- A run of a task that cannot throw, and of what follows. -/
theorem ends_bindLift {t : Task σ L α} {k : α → ExceptT ε (Task σ L) β} {r : Except ε β} :
    (ExceptT.lift t >>= k).run.Ends R s r s' ↔
      ∃ a u, t.Ends R s a u ∧ (k a).run.Ends R u r s' := by
  have hlift : (ExceptT.lift t : ExceptT ε (Task σ L) α).run = t >>= fun a => Pure.pure (.ok a) := rfl
  refine ends_bindExcept.trans ?_
  rw [hlift]
  constructor
  · rintro (⟨e, ht, rfl⟩ | ⟨a, u, ht, hk⟩)
    · obtain ⟨a, u, -, hok, -⟩ := ends_bind.mp ht
      cases hok
    · obtain ⟨b, v, ht, hok, rfl⟩ := ends_bind.mp ht
      cases hok
      exact ⟨_, _, ht, hk⟩
  · rintro ⟨a, u, ht, hk⟩
    exact Or.inr ⟨a, u, ends_bind.mpr ⟨a, u, ht, rfl, rfl⟩, hk⟩

/-- **Every task ends**, where the rest of the system can always do something. -/
theorem exists_ends (hR : ∀ s, ∃ u, R s u) (t : Task σ L α) (s : σ) :
    ∃ a s', t.Ends R s a s' := by
  induction t generalizing s with
  | done a => exact ⟨a, s, rfl, rfl⟩
  | call point update next ih =>
    obtain ⟨u, hu⟩ := hR (update s)
    obtain ⟨a, s', h⟩ := ih s u
    exact ⟨a, s', u, hu, h⟩

/-- A run under more interference. -/
theorem Ends.mono {R' : σ → σ → Prop} (hR : ∀ s s', R s s' → R' s s') {t : Task σ L α} {a : α}
    (h : t.Ends R s a s') : t.Ends R' s a s' := by
  induction t generalizing s with
  | done b => exact h
  | call point update next ih =>
    obtain ⟨u, hu, hnext⟩ := h
    exact ⟨u, hR _ _ hu, ih s hnext⟩

end Task

/-! ## A task alone in a pool -/

namespace Pool

/-- A task that is resumed. -/
theorem step_resume {ts : List (Task σ L α)} {i : ℕ} {t : Task σ L α} (h : ts[i]? = some t) :
    step ⟨s, ts⟩ (.resume i) = ⟨(t.resume s).2, ts.set i (t.resume s).1⟩ := by
  rw [step]
  dsimp only
  rw [h]

/-- A task that is resumed, and what it then is. -/
theorem step_resume_of {ts : List (Task σ L α)} {i : ℕ} {t t' : Task σ L α}
    (hi : ts[i]? = some t) (h : t.resume s = (t', s')) :
    step ⟨s, ts⟩ (.resume i) = ⟨s', ts.set i t'⟩ := by
  rw [step_resume hi, h]

/-- A task that is done stays so. -/
theorem getElem?_step_done {p : Pool σ L α} {i : ℕ} {a : α} (h : p.tasks[i]? = some (.done a))
    (e : Event σ L α) : (p.step e).tasks[i]? = some (.done a) := by
  cases e with
  | spawn t =>
    obtain ⟨hi, -⟩ := List.getElem?_eq_some_iff.mp h
    exact (List.getElem?_append_left hi).trans h
  | other update => exact h
  | resume j =>
    rw [Pool.step]
    cases ht : p.tasks[j]? with
    | none => exact h
    | some t =>
      dsimp only
      by_cases hij : j = i
      · subst hij
        obtain rfl := Option.some.inj (ht.symm.trans h)
        exact List.getElem?_set_self (List.getElem?_eq_some_iff.mp h).1
      · rw [List.getElem?_set_ne hij]
        exact h

/-- **A task that ends without interference** is brought to its end by resuming it. -/
theorem exists_resumes {ts : List (Task σ L α)} {i : ℕ} {t : Task σ L α} (h : ts[i]? = some t)
    {a : α} (hends : t.Ends Eq s a s') :
    ∃ n, run ⟨s, ts⟩ (List.replicate n (.resume i)) = ⟨s', ts.set i (.done a)⟩ := by
  induction t generalizing s ts with
  | done b =>
    obtain ⟨rfl, rfl⟩ := hends
    obtain ⟨hi, hb⟩ := List.getElem?_eq_some_iff.mp h
    refine ⟨0, ?_⟩
    rw [← hb, List.set_getElem_self hi]
    rfl
  | call point update next ih =>
    obtain ⟨u, rfl, hnext⟩ := hends
    obtain ⟨hi, -⟩ := List.getElem?_eq_some_iff.mp h
    obtain ⟨n, hn⟩ := @ih s (update s) (ts.set i (next s)) (List.getElem?_set_self hi) hnext
    refine ⟨n + 1, ?_⟩
    rw [List.set_set] at hn
    rw [List.replicate_succ, ← hn]
    exact congrArg (run · _) (step_resume h)

end Pool

end Ends

/-! ## What a task may return -/

/-- Whatever a task returns has `P`, in whatever states it is resumed. -/
def Task.Returns (P : α → Prop) : Task σ L α → Prop
  | .done a => P a
  | .call _ _ next => ∀ s, (next s).Returns P

namespace Task

/-- The rule for an operation and what follows. -/
theorem Returns.await {P : α → Prop} {point : L} {op : σ → β × σ} {k : β → Task σ L α}
    (h : ∀ s, (k (op s).1).Returns P) : (Task.await point op >>= k).Returns P := h

/-- The rule for sequence. -/
theorem Returns.bind {P : α → Prop} {Q : β → Prop} {t : Task σ L α} {k : α → Task σ L β}
    (h : t.Returns P) (hk : ∀ a, P a → (k a).Returns Q) : (t >>= k).Returns Q := by
  induction t with
  | done a => exact hk a h
  | call point update next ih => exact fun s => ih s (h s)

/-- A weaker property. -/
theorem Returns.mono {P Q : α → Prop} {t : Task σ L α} (h : t.Returns P) (hPQ : ∀ a, P a → Q a) :
    t.Returns Q := by
  induction t with
  | done a => exact hPQ a h
  | call point update next ih => exact fun s => ih s (h s)

/-- The rule for a condition that has nothing to do with the task. -/
theorem Returns.of_imp {A : Prop} {P : α → Prop} {t : Task σ L α} (h : A → t.Returns P) :
    t.Returns fun a => A → P a := by
  induction t with
  | done a => exact h
  | call point update next ih => exact fun s => ih s fun hA => h hA s

/-- The rule for sequence, where the first task never throws. -/
theorem Returns.bindOk {P : α → Prop} {Q : Except ε β → Prop} {t : ExceptT ε (Task σ L) α}
    {k : α → ExceptT ε (Task σ L) β} (h : t.run.Returns fun r => ∃ a, r = .ok a ∧ P a)
    (hk : ∀ a, P a → (k a).run.Returns Q) : (t >>= k).run.Returns Q := by
  refine Returns.bind h fun r hr => ?_
  obtain ⟨a, rfl, ha⟩ := hr
  exact hk a ha

/-- A resumed task returns what it would have returned. -/
theorem Returns.resume {P : α → Prop} {t : Task σ L α} (h : t.Returns P) (s : σ) :
    (t.resume s).1.Returns P := by
  cases t with
  | done a => exact h
  | call point update next => exact h s

end Task

/-! ## How often a task is resumed -/

/-- A task has returned after so many resumptions, in whatever states it finds. -/
def Task.Within (n : ℕ) : Task σ L α → Prop
  | .done _ => True
  | .call _ _ next => ∃ m, n = m + 1 ∧ ∀ s, (next s).Within m

namespace Task

variable {m n : ℕ}

/-- A longer bound. -/
theorem Within.mono {t : Task σ L α} (h : t.Within m) (hmn : m ≤ n) : t.Within n := by
  induction t generalizing m n with
  | done a => trivial
  | call point update next ih =>
    obtain ⟨k, rfl, hnext⟩ := h
    obtain ⟨n, rfl⟩ := Nat.exists_eq_add_of_le' (Nat.le_of_add_left_le hmn)
    exact ⟨n, rfl, fun s => ih s (hnext s) (Nat.succ_le_succ_iff.mp hmn)⟩

/-- The rule for an operation and what follows. -/
theorem Within.await {point : L} {op : σ → β × σ} {k : β → Task σ L α}
    (h : ∀ b, (k b).Within n) : (Task.await point op >>= k).Within (n + 1) :=
  ⟨n, rfl, fun _ => h _⟩

/-- The rule for sequence. -/
theorem Within.bind {t : Task σ L α} {k : α → Task σ L β} (h : t.Within m)
    (hk : ∀ a, (k a).Within n) : (t >>= k).Within (n + m) := by
  induction t generalizing m with
  | done a => exact (hk a).mono (Nat.le_add_right n m)
  | call point update next ih =>
    obtain ⟨m, rfl, hnext⟩ := h
    exact ⟨n + m, rfl, fun s => ih s (hnext s)⟩

/-- The rule for sequence, where the first task may have thrown. -/
theorem Within.bindExcept {t : ExceptT ε (Task σ L) α} {k : α → ExceptT ε (Task σ L) β}
    (h : t.run.Within m) (hk : ∀ a, (k a).run.Within n) : (t >>= k).run.Within (n + m) := by
  refine Within.bind h fun r => ?_
  cases r with
  | error e => exact trivial
  | ok a => exact hk a

end Task

namespace Pool

/-- The task at a place returns after so many resumptions. -/
def Within (p : Pool σ L α) (i n : ℕ) : Prop := ∃ t, p.tasks[i]? = some t ∧ t.Within n

variable {p : Pool σ L α} {i n : ℕ}

/-- **A task that is resumed** has one resumption less to go; other steps leave it where it is. -/
theorem Within.step (h : p.Within i n) (e : Event σ L α) :
    (p.step e).Within i n ∧ ∀ m, n = m + 1 → e = .resume i → (p.step e).Within i m := by
  obtain ⟨t, ht, hn⟩ := h
  have hi := (List.getElem?_eq_some_iff.mp ht).1
  cases e with
  | spawn u => exact ⟨⟨t, (List.getElem?_append_left hi).trans ht, hn⟩, fun m _ he => by cases he⟩
  | other update => exact ⟨⟨t, ht, hn⟩, fun m _ he => by cases he⟩
  | resume j =>
    by_cases hij : j = i
    · subst hij
      have hset : (p.step (.resume j)).tasks[j]? = some (t.resume p.shared).1 := by
        rw [Pool.step, ht]
        exact List.getElem?_set_self hi
      cases t with
      | done a => exact ⟨⟨_, hset, trivial⟩, fun m _ _ => ⟨_, hset, trivial⟩⟩
      | call point update next =>
        obtain ⟨m, rfl, hnext⟩ := hn
        refine ⟨⟨_, hset, (hnext p.shared).mono (Nat.le_succ m)⟩, fun m' hm _ => ⟨_, hset, ?_⟩⟩
        rw [← Nat.succ.inj hm]
        exact hnext p.shared
    · refine ⟨⟨t, ?_, hn⟩, fun m _ he => absurd (Event.resume.inj he) hij⟩
      rw [Pool.step]
      cases hj : p.tasks[j]? with
      | none => exact ht
      | some u => exact (List.getElem?_set_ne hij).trans ht

/-- A task with no resumption to go has returned. -/
theorem Within.exists_done (h : p.Within i 0) : ∃ a, p.tasks[i]? = some (.done a) := by
  obtain ⟨t, ht, hn⟩ := h
  cases t with
  | done a => exact ⟨a, ht⟩
  | call point update next =>
    obtain ⟨m, hm, -⟩ := hn
    exact absurd hm (Nat.succ_ne_zero m).symm

end Pool

end Async
