import Mathlib.Data.List.Induction
import AgentEval.Async.Phases
import AgentEval.Async.Runs

/-!
# Runs of calls

The events of a run are calls, resumptions and changes from outside. The task at a place of the pool
is that of the call at that place among the calls of the run, and follows the script of that call.

* **`Pool.run_calls`**: an invariant of the past, the calls with their phases, and the state.
* **`Pool.exists_done_runBy`**: a call that is resumed often enough returns;
  **`Pool.returns_runBy`**: what it returns.
-/

namespace Async

variable {σ L α Φ E : Type}

/-- Whether an event brings in a task. -/
def Event.isSpawn : Event σ L α → Bool
  | .spawn _ => true
  | .resume _ => false
  | .other _ => false

/-- The calls of a run, in their order. -/
def calls (toAsync : E → Event σ L α) (events : List E) : List E :=
  events.filter fun e => (toAsync e).isSpawn

/-- The pool after a run. -/
def Pool.runBy (toAsync : E → Event σ L α) (p : Pool σ L α) (events : List E) : Pool σ L α :=
  events.foldl (fun p e => p.step (toAsync e)) p

section

variable {toAsync : E → Event σ L α} {e : E}

/-- The calls of a run with one more event. -/
theorem calls_concat (past : List E) :
    calls toAsync (past ++ [e]) = calls toAsync past ++ if (toAsync e).isSpawn then [e] else [] := by
  unfold calls
  rw [List.filter_append, List.filter_singleton]
  cases (toAsync e).isSpawn <;> rfl

/-- An event that is not a call. -/
theorem calls_concat_of_not (past : List E) (h : (toAsync e).isSpawn = false) :
    calls toAsync (past ++ [e]) = calls toAsync past := by
  rw [calls_concat, h]
  exact List.append_nil _

/-- Every call is an event of the run. -/
theorem mem_of_mem_calls {events : List E} (h : e ∈ calls toAsync events) : e ∈ events :=
  List.mem_of_mem_filter h

/-- The pool after a run with one more event. -/
theorem Pool.runBy_concat (p : Pool σ L α) (past : List E) :
    p.runBy toAsync (past ++ [e]) = (p.runBy toAsync past).step (toAsync e) := by
  unfold Pool.runBy
  rw [List.foldl_append]
  rfl

variable {I : σ → Prop} {Q : E → Φ → L → (σ → σ) → σ → Φ → Prop} {fin : Φ → α → Prop}
  {J : List E → List (E × Φ) → σ → Prop} {s : σ}

/-- **The rule for a run of calls**: what every call, every operation that the script of its call
allows, and every change from outside keeps. -/
theorem Pool.run_calls (idle : Φ)
    (hfollows : ∀ e t, toAsync e = .spawn t → t.Follows I (Q e) fin idle)
    (hI : ∀ past phases s, J past phases s → I s) (hstart : J [] [] s)
    (hspawn : ∀ past phases e t s, toAsync e = .spawn t → J past phases s →
      J (past ++ [e]) (phases ++ [(e, idle)]) s)
    (hidle : ∀ past phases e i s, toAsync e = .resume i → J past phases s →
      J (past ++ [e]) phases s)
    (hother : ∀ past phases e update s, toAsync e = .other update → J past phases s →
      J (past ++ [e]) phases (update s)) (events : List E)
    (hop : ∀ past e later i call phases phase phase' point update next,
      events = past ++ e :: later → toAsync e = .resume i →
      (runBy toAsync ⟨s, []⟩ past).tasks[i]? = some (.call point update next) →
      (calls toAsync past)[i]? = some call → phases[i]? = some (call, phase) →
      Q call phase point update (runBy toAsync ⟨s, []⟩ past).shared phase' →
      J past phases (runBy toAsync ⟨s, []⟩ past).shared →
      J (past ++ [e]) (phases.set i (call, phase'))
        (update (runBy toAsync ⟨s, []⟩ past).shared)) :
    ∃ phases, (runBy toAsync ⟨s, []⟩ events).Follows I (Task.Tagged Q) (fun p => fin p.2) phases ∧
      phases.map Prod.fst = calls toAsync events ∧
      J events phases (runBy toAsync ⟨s, []⟩ events).shared := by
  suffices h : ∀ past later, events = past ++ later →
      ∃ phases, (runBy toAsync ⟨s, []⟩ past).Follows I (Task.Tagged Q) (fun p => fin p.2) phases ∧
        phases.map Prod.fst = calls toAsync past ∧
        J past phases (runBy toAsync ⟨s, []⟩ past).shared from h events [] (by simp)
  intro past
  induction past using List.reverseRecOn with
  | nil => exact fun _ _ => ⟨[], .nil, rfl, hstart⟩
  | append_singleton past e ih =>
    intro later hevents
    rw [List.append_assoc, List.singleton_append] at hevents
    obtain ⟨phases, hphases, hcalls, hJ⟩ := ih _ hevents
    rw [runBy_concat]
    refine Follows.step_to (J := fun phases s => phases.map Prod.fst = calls toAsync (past ++ [e]) ∧
      J (past ++ [e]) phases s) hphases ?_ (fun _ _ => hI past phases _ hJ) ?_ ?_ ?_
    · intro i he
      refine ⟨?_, hidle past phases e i _ he hJ⟩
      rw [calls_concat_of_not past (by rw [he]; rfl)]
      exact hcalls
    · rintro i ⟨call, phase⟩ ⟨call', phase'⟩ point update next he ht hi ⟨hsame, hQ⟩ -
      obtain rfl : call = call' := hsame.symm
      have hcall : (calls toAsync past)[i]? = some call := by
        rw [← hcalls, List.getElem?_map, hi]
        rfl
      refine ⟨?_, hop past e later i call phases phase phase' point update next hevents he ht hcall
        hi hQ hJ⟩
      rw [calls_concat_of_not past (by rw [he]; rfl), List.map_set, hcalls]
      exact set_self hcall
    · intro t he
      refine ⟨(e, idle), (hfollows e t he).tag, ?_, hspawn past phases e t _ he hJ⟩
      rw [calls_concat, he, List.map_append, hcalls]
      rfl
    · intro update he
      refine ⟨?_, hother past phases e update _ he hJ⟩
      rw [calls_concat_of_not past (by rw [he]; rfl)]
      exact hcalls

/-- Whether an event resumes the task at a place. -/
def Event.resumes (i : ℕ) : Event σ L α → Bool
  | .spawn _ => false
  | .resume j => decide (j = i)
  | .other _ => false

/-- The event that resumes a task. -/
theorem Event.resumes_iff {i : ℕ} {e : Event σ L α} : e.resumes i = true ↔ e = .resume i := by
  cases e <;> simp [Event.resumes]

/-- **A call that is resumed often enough returns.** -/
theorem Pool.exists_done_runBy {p : Pool σ L α} {i n : ℕ} (h : p.Within i n) {events : List E}
    (hcount : n ≤ events.countP fun e => (toAsync e).resumes i) :
    ∃ a, (p.runBy toAsync events).tasks[i]? = some (.done a) := by
  induction events generalizing p n with
  | nil =>
    obtain rfl := Nat.le_zero.mp hcount
    exact h.exists_done
  | cons e events ih =>
    obtain ⟨hsame, hless⟩ := h.step (toAsync e)
    rw [List.countP_cons] at hcount
    change ∃ a, ((p.step (toAsync e)).runBy toAsync events).tasks[i]? = some (.done a)
    split_ifs at hcount with hresumes
    · cases n with
      | zero => exact ih hsame (Nat.zero_le _)
      | succ m => exact ih (hless m rfl (Event.resumes_iff.mp hresumes)) (Nat.succ_le_succ_iff.mp hcount)
    · exact ih hsame hcount

/-- The calls of a run have their places in the pool. -/
theorem Pool.length_runBy (p : Pool σ L α) (events : List E) :
    (p.runBy toAsync events).tasks.length = p.tasks.length + (calls toAsync events).length := by
  induction events using List.reverseRecOn with
  | nil => rfl
  | append_singleton past e ih =>
    rw [runBy_concat, calls_concat, List.length_append, ← Nat.add_assoc, ← ih]
    cases toAsync e with
    | spawn t => exact List.length_append
    | other update => rfl
    | resume i =>
      rw [Pool.step]
      cases (p.runBy toAsync past).tasks[i]? with
      | none => rfl
      | some t => exact List.length_set

/-- **What the calls of a run return.** -/
theorem Pool.returns_runBy {P : E → α → Prop}
    (h : ∀ e t, toAsync e = .spawn t → t.Returns (P e)) {events : List E} {i : ℕ} {t : Task σ L α}
    (ht : (runBy toAsync ⟨s, []⟩ events).tasks[i]? = some t)
    (he : (calls toAsync events)[i]? = some e) : t.Returns (P e) := by
  induction events using List.reverseRecOn generalizing t with
  | nil => cases he
  | append_singleton past last ih =>
    have hlength := (@length_runBy _ _ _ _ toAsync ⟨s, []⟩ past).trans (Nat.zero_add _)
    rw [runBy_concat] at ht
    cases hlast : toAsync last with
    | other update =>
      rw [hlast] at ht
      rw [calls_concat_of_not past (by rw [hlast]; rfl)] at he
      exact ih ht he
    | spawn u =>
      rw [hlast] at ht
      rw [calls_concat, hlast] at he
      by_cases hi : i < (calls toAsync past).length
      · exact ih ((List.getElem?_append_left (hlength ▸ hi)).symm.trans ht)
          ((List.getElem?_append_left hi).symm.trans he)
      · obtain ⟨hlt, -⟩ := List.getElem?_eq_some_iff.mp he
        rw [List.length_append] at hlt
        obtain rfl : i = (calls toAsync past).length :=
          Nat.le_antisymm (Nat.le_of_lt_succ hlt) (Nat.le_of_not_lt hi)
        obtain rfl := Option.some.inj ((List.getElem?_concat_length).symm.trans he)
        rw [← hlength] at ht
        obtain rfl := Option.some.inj ((List.getElem?_concat_length).symm.trans ht)
        exact h _ _ hlast
    | resume j =>
      rw [calls_concat_of_not past (by rw [hlast]; rfl)] at he
      rw [hlast, Pool.step] at ht
      cases hj : (runBy toAsync ⟨s, []⟩ past).tasks[j]? with
      | none =>
        rw [hj] at ht
        exact ih ht he
      | some u =>
        rw [hj] at ht
        rcases getElem?_set_cases ht with ⟨rfl, rfl⟩ | ⟨-, hsame⟩
        · exact (ih hj he).resume _
        · exact ih hsame he

/-- A bound on the resumptions of every call. -/
theorem Pool.within_runBy {n : ℕ} (h : ∀ e t, toAsync e = .spawn t → t.Within n) {events : List E}
    {i : ℕ} (hi : i < (calls toAsync events).length) :
    (runBy toAsync ⟨s, []⟩ events).Within i n := by
  induction events using List.reverseRecOn with
  | nil => exact absurd hi (Nat.not_lt_zero i)
  | append_singleton past e ih =>
    by_cases hpast : i < (calls toAsync past).length
    · rw [runBy_concat]
      exact ((ih hpast).step (toAsync e)).1
    · have hlength := (@length_runBy _ _ _ _ toAsync ⟨s, []⟩ past).trans (Nat.zero_add _)
      rw [calls_concat, List.length_append] at hi
      rw [runBy_concat]
      cases he : toAsync e with
      | spawn t =>
        rw [he] at hi
        refine ⟨t, ?_, h e t he⟩
        obtain rfl : i = (runBy toAsync ⟨s, []⟩ past).tasks.length := by
          rw [hlength]
          exact Nat.le_antisymm (Nat.le_of_lt_succ hi) (Nat.le_of_not_lt hpast)
        exact List.getElem?_concat_length
      | other update =>
        rw [he] at hi
        exact absurd hi hpast
      | resume j =>
        rw [he] at hi
        exact absurd hi hpast

end

end Async
