import AgentEval.Providers.Retries

/-!
# The abort of a call of `requestJson`

The signal is aborted at some moment of any schedule. While the call waits for a fetch or a body, the
listener aborts it, and the call is over. Before the call and between two attempts nothing looks at
the signal.

* `Call.Within` — the attempt that is waited for is one of those that are left, throughout a run.
* **`abort_final_iff`**: no fetch is started after the abort, whatever follows, exactly when it comes
  while the call waits for a fetch or a body, or after it is over.
-/

namespace AgentEval.Providers.Http

open Js

variable {toLowerCase : JsString → JsString} {o : HttpOptions} {c : Call}

/-- The attempts stay within the retries, and a wait is for one that is left. -/
structure Call.Within (o : HttpOptions) (c : Call) : Prop where
  attempt_le : c.attempt ≤ o.maxRetries
  waits : ∀ ms, c.phase = .waiting ms → c.attempt < o.maxRetries

/-- The end of an attempt stays within the retries. -/
theorem Call.Ended.within {again : Prop} {d : Call} (h : c.Ended o again d) (hc : c.Within o) :
    d.Within o := by
  refine ⟨h.attempt.trans_le hc.attempt_le, fun ms hms => ?_⟩
  rw [h.attempt]
  apply lt_of_le_of_ne hc.attempt_le
  intro hlast
  obtain ⟨r, hr⟩ := h.settles (.inr hlast)
  rw [hr] at hms
  cases hms

/-- So does the start of an attempt that is left. -/
theorem Call.within_begin (h : c.attempt ≤ o.maxRetries) : (c.begin o).Within o := by
  unfold begin
  rw [if_pos h]
  exact ⟨h, fun ms hms => by cases hms⟩

/-- What a step can do. -/
inductive Call.Stepped (o : HttpOptions) (c : Call) : Event → Call → Prop where
  /-- Nothing but to note the abort. -/
  | stays (e : Event) (aborted : Bool) : Stepped o c e { c with aborted := aborted }
  /-- The first attempt. -/
  | calls (h : c.phase = .idle) : Stepped o c .call (c.begin o)
  /-- The next attempt. -/
  | wakes (ms : Number) (h : c.phase = .waiting ms) :
    Stepped o c .wake ({ c with attempt := c.attempt + 1 }.begin o)
  /-- A response. -/
  | reads (e : Event) (res : Response) : Stepped o c e { c with phase := .reading res }
  /-- The end of an attempt. -/
  | ends (e : Event) (again : Prop) {d : Call} (h : c.Ended o again d) : Stepped o c e d

/-- What was noted of the abort is no part of how an attempt ends. -/
theorem Call.Ended.of_aborted {again : Prop} {d : Call} {aborted : Bool}
    (h : { c with aborted := aborted }.Ended o again d) : c.Ended o again d :=
  ⟨h.attempt, h.fetches, h.waits, h.settles⟩

/-- An attempt that is over. -/
theorem Call.ended_settled (r : Except ProviderError Reply) :
    c.Ended o False { c with phase := .settled r } :=
  ⟨rfl, rfl, fun h => absurd h id, fun _ => ⟨r, rfl⟩⟩

/-- **What a step can do**: one case an event and a phase that waits for it. -/
theorem Call.stepped (c : Call) (e : Event) : c.Stepped o e (c.step toLowerCase o e) := by
  have hstays : ∀ e, c.Stepped o e c := fun e => .stays e c.aborted
  have hcaught : ∀ e err, c.Stepped o e (c.caught o err) := fun e err =>
    .ends e _ (c.ended_caught err)
  have hnoted : ∀ p, c.phase = p →
      c.Stepped o .abort ⟨true, c.attempt, c.lastError, p, c.fetches⟩ := by
    rintro p rfl
    exact .stays .abort true
  cases hphase : c.phase with
  | idle =>
    cases e with
    | call => simpa [step, hphase] using Stepped.calls hphase
    | abort =>
      simp only [step, hphase]
      split_ifs
      · exact hstays _
      · exact hnoted _ hphase
    | _ => simpa [step, hphase] using hstays _
  | fetching =>
    cases e with
    | abort =>
      simp only [step, hphase]
      split_ifs
      · exact hstays _
      · exact .ends _ _ ((Call.ended_caught _ abortError).of_aborted)
    | timeout => simpa [step, hphase] using hcaught _ _
    | fetched result =>
      cases result with
      | ok res => simpa [step, hphase] using Stepped.reads _ res
      | error err => simpa [step, hphase] using hcaught _ _
    | _ => simpa [step, hphase] using hstays _
  | reading res =>
    cases e with
    | abort =>
      simp only [step, hphase]
      split_ifs
      · exact hstays _
      · exact .ends _ _ ((Call.ended_caught _ abortError).of_aborted)
    | timeout => simpa [step, hphase] using hcaught _ _
    | json result =>
      cases result with
      | ok data =>
        simp only [step, hphase]
        split_ifs
        · exact .ends _ _ (Call.ended_settled _)
        · exact hstays _
      | error err =>
        simp only [step, hphase]
        split_ifs
        · exact hcaught _ _
        · exact hstays _
    | text result =>
      cases result with
      | ok body =>
        simp only [step, hphase]
        split_ifs
        · exact hstays _
        · exact .ends _ _ (c.ended_refused res body)
      | error err =>
        simp only [step, hphase]
        split_ifs
        · exact hstays _
        · exact hcaught _ _
    | _ => simpa [step, hphase] using hstays _
  | waiting ms =>
    cases e with
    | wake => simpa [step, hphase] using Stepped.wakes ms hphase
    | abort =>
      simp only [step, hphase]
      split_ifs
      · exact hstays _
      · exact hnoted _ hphase
    | _ => simpa [step, hphase] using hstays _
  | settled r =>
    cases e with
    | abort =>
      simp only [step, hphase]
      split_ifs
      · exact hstays _
      · exact hnoted _ hphase
    | _ => simpa [step, hphase] using hstays _

/-- **What a step keeps.** -/
theorem Call.Within.step (h : c.Within o) (e : Event) : (c.step toLowerCase o e).Within o := by
  generalize hd : c.step toLowerCase o e = d
  have hstepped := @Call.stepped toLowerCase o c e
  rw [hd] at hstepped
  cases hstepped with
  | stays e aborted => exact ⟨h.attempt_le, h.waits⟩
  | calls hphase => exact Call.within_begin h.attempt_le
  | wakes ms hphase => exact Call.within_begin (h.waits ms hphase)
  | reads e res => exact ⟨h.attempt_le, fun ms hms => by cases hms⟩
  | ends e again hended => exact hended.within h

/-- **What a run keeps.** -/
theorem Call.Within.run (h : c.Within o) (events : List Event) :
    (c.run toLowerCase o events).Within o := by
  induction events generalizing c with
  | nil => exact h
  | cons e events ih => exact ih (h.step e)

/-- Before the call nothing was tried. -/
theorem Call.within_idle : ({} : Call).Within o :=
  ⟨Nat.zero_le _, fun ms hms => by cases hms⟩

/-- Where an abort ends the call, or finds it over. -/
def Phase.Heeds : Phase → Prop
  | idle => False
  | waiting _ => False
  | _ => True

/-- **The abort of a waiting fetch or body** ends the call. -/
theorem Call.step_abort (haborted : c.aborted = false) (h : c.phase.Heeds) :
    ∃ r, (c.step toLowerCase o .abort).phase = .settled r ∧
      (c.step toLowerCase o .abort).fetches = c.fetches := by
  have hcaught : ∃ r, ({ c with aborted := true }.caught o abortError).phase = .settled r ∧
      ({ c with aborted := true }.caught o abortError).fetches = c.fetches := by
    have hended := Call.ended_caught (o := o) { c with aborted := true } abortError
    obtain ⟨r, hr⟩ := hended.settles (.inl fun hname => hname rfl)
    exact ⟨r, hr, hended.fetches⟩
  cases hphase : c.phase with
  | idle =>
    rw [hphase] at h
    exact h.elim
  | waiting ms =>
    rw [hphase] at h
    exact h.elim
  | fetching => simpa [step, hphase, haborted] using hcaught
  | reading res => simpa [step, hphase, haborted] using hcaught
  | settled r => exact ⟨r, by simp [step, hphase, haborted]⟩

/-- The abort of a call that does not heed it is noted only. -/
theorem Call.step_abort_of_not_heeds (haborted : c.aborted = false) (h : ¬ c.phase.Heeds) :
    c.step toLowerCase o .abort = { c with aborted := true } := by
  cases hphase : c.phase with
  | idle => simp [step, hphase, haborted]
  | waiting ms => simp [step, hphase, haborted]
  | _ =>
    rw [hphase] at h
    exact absurd trivial h

/-- **An abort is final**, whatever follows it, exactly when it comes while the call waits for a fetch
or for a body, or after the call is over: not before the call and not during a wait between two
attempts. -/
theorem abort_final_iff (toLowerCase : JsString → JsString) (o : HttpOptions) (past : List Event)
    (haborted : (({} : Call).run toLowerCase o past).aborted = false) :
    (∀ later, (({} : Call).run toLowerCase o (past ++ .abort :: later)).fetches =
        (({} : Call).run toLowerCase o past).fetches) ↔
      (({} : Call).run toLowerCase o past).phase.Heeds := by
  have hwithin : (({} : Call).run toLowerCase o past).Within o := Call.within_idle.run past
  have hrun : ∀ later, ({} : Call).run toLowerCase o (past ++ .abort :: later) =
      ((({} : Call).run toLowerCase o past).step toLowerCase o .abort).run toLowerCase o later :=
    fun later => Call.run_append _ past (.abort :: later)
  simp only [hrun]
  generalize ({} : Call).run toLowerCase o past = c at haborted hwithin
  constructor
  · intro h
    by_contra hnot
    rw [Call.step_abort_of_not_heeds haborted hnot] at h
    cases hphase : c.phase with
    | idle =>
      have hcall := h [.call]
      simp [Call.run, Call.step, hphase, Call.begin, hwithin.attempt_le] at hcall
    | waiting ms =>
      have hwake := h [.wake]
      have hlt := hwithin.waits ms hphase
      simp [Call.run, Call.step, hphase, Call.begin, Nat.succ_le_of_lt hlt] at hwake
    | _ =>
      rw [hphase] at hnot
      exact hnot trivial
  · intro h later
    obtain ⟨r, hr, hfetches⟩ := @Call.step_abort toLowerCase o c haborted h
    rw [(Call.run_settled hr later).2, hfetches]

/-- An abort during the first fetch: what settles then, and a wait, start no other. -/
theorem abort_final_fetching :
    (({} : Call).run id { provider := js "openai" }
        ([.call] ++ .abort :: [.fetched (.error abortError), .wake])).fetches = 1 :=
  (abort_final_iff id { provider := js "openai" } [.call] rfl).mpr trivial _

/-- A fetch is started after an abort before the call, and after one during the wait that follows a
reset connection. -/
theorem abort_not_final :
    (({} : Call).run id { provider := js "openai" } [.abort, .call]).fetches = 1 ∧
      (({} : Call).run id { provider := js "openai" }
        [.call, .fetched (.error ⟨js "TypeError", js "fetch failed"⟩)]).fetches = 1 ∧
      (({} : Call).run id { provider := js "openai" }
        [.call, .fetched (.error ⟨js "TypeError", js "fetch failed"⟩), .abort, .wake]).fetches = 2 := by
  have hname : js "TypeError" ≠ js "AbortError" := by simp
  refine ⟨rfl, ?_, ?_⟩
  · simp [Call.run, Call.step, Call.begin, Call.caught, hname]
  · simp [Call.run, Call.step, Call.begin, Call.caught, hname]

end AgentEval.Providers.Http
