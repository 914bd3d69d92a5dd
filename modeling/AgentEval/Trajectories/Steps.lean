import AgentEval.Async.Phases
import AgentEval.Async.Runs
import AgentEval.Trajectories.Exportable

/-!
# Acknowledged steps

What `appendStep` has acknowledged stays in the trial as long as no call writes over steps that have
changed since the call has read them.

* **`steps_kept`**: in every run in which each write finds the steps its call has read, the step of
  a successful `appendStep` is at its index, and no two have the same number.
* **`step_lost`**: `setTrialStatus` reads a trial before a step is appended to it and writes it
  afterwards; the step is gone.
-/

namespace AgentEval.Trajectories

open Js Store Async

variable {host : JsString → Number}

/-! ## What the operations do -/

/-- The operation of a call at a point, on the stores. -/
inductive TrialOp : TrialPoint host → TrialStores host → TrialStores host → Prop
  /-- A trial that exists is not created. -/
  | refused {s} : TrialOp .create s s
  /-- A trial is created. -/
  | create {s r} (hnew : s.trials.lookup r.id = none) (hsteps : r.steps = []) :
      TrialOp .create s { s with trials := setProp s.trials (r.id, r) }
  /-- A trial is looked up. -/
  | get {id s} : TrialOp (.get id) s s
  /-- What was read is written back, updated. -/
  | write {id read w s} : TrialOp (.write id read w) s
      { s with trials := setProp s.trials (id, InMemoryTrialStore.updated read s.clock w) }

/-- A step that `appendStep` has written, and the steps before it. -/
structure Written (host : JsString → Number) where
  /-- The trial. -/
  trialId : JsString
  /-- The steps before. -/
  before : List (TrajectoryStep host)
  /-- The step. -/
  step : TrajectoryStep host

/-- The script of a call: it writes one step at most, and then it is done. -/
inductive CallOp : Option (Written host) → TrialPoint host → (TrialStores host → TrialStores host) →
    TrialStores host → Option (Written host) → Prop
  /-- It writes no step. -/
  | other {point update s} (h : TrialOp point s (update s))
      (hpoint : ∀ id read steps, point ≠ .write id read (.append steps)) :
      CallOp none point update s none
  /-- It writes a step. -/
  | append {id read step update s} (hstatus : read.status = .running ∨ read.status = .pendingApproval)
      (hstep : step.stepId = nextStepId read.steps)
      (h : TrialOp (.write id read (.append (read.steps ++ [step]))) s (update s)) :
      CallOp none (.write id read (.append (read.steps ++ [step]))) update s
        (some ⟨id, read.steps, step⟩)

/-- Who has been told that a step is appended has written it. -/
def Answered (phase : Option (Written host)) (answer : TrialAnswer host) : Prop :=
  ∀ id step r, answer = .appended id step (.ok r) → ∃ before, phase = some ⟨id, before, step⟩

/-- A call follows the script. -/
abbrev FollowsScript {α : Type} (fin : Option (Written host) → α → Prop)
    (t : Task (TrialStores host) (TrialPoint host) α) : Prop :=
  t.Follows (fun _ => True) CallOp fin none

namespace InMemoryTrialStore

variable {ctx : TenantContext} {id : JsString} {α : Type}

/-- What `createTrial` does. -/
theorem trialOp_createTrial (input : CreateTrialInput) (s : TrialStores host) :
    TrialOp .create s (createTrial ctx input s).2 := by
  unfold createTrial
  split_ifs with hexists
  · exact .refused
  · exact TrialOp.create (lookup_eq_none_iff.mpr hexists) rfl

/-- A call that reads a trial first. -/
theorem follows_get {fin : Option (Written host) → α → Prop}
    {k : Option (TrialRecord host) → Task (TrialStores host) (TrialPoint host) α}
    (h : ∀ trial, FollowsScript fin (k trial)) :
    FollowsScript fin (Task.await (.get id) (fun s => (getTrial ctx id s, s)) >>= k) := by
  apply Task.Follows.await
  exact fun s _ => ⟨none, .other .get (by simp), h _⟩

/-- A write of something other than a step. -/
theorem follows_write {read : TrialRecord host} {w : TrialWrite host}
    (hw : ∀ steps, w ≠ .append steps) :
    FollowsScript (fun phase _ => phase = none) (write id read w) := by
  apply Task.Follows.await_self
  refine fun s _ => ⟨none, .other .write ?_, rfl⟩
  rintro _ _ steps ⟨⟩
  exact hw steps rfl

/-- Source: `store.ts`, `InMemoryTrialStore.appendStep` -/
theorem follows_appendStep {step : TrajectoryStep host} :
    FollowsScript (fun phase r => ∀ updated, r = .ok updated →
      ∃ before, phase = some ⟨id, before, step⟩) (appendStep ctx id step) := by
  unfold appendStep
  apply follows_get
  intro trial
  cases trial with
  | none => exact fun _ h => by cases h
  | some trial =>
    dsimp only
    split_ifs with hstatus
    · exact fun _ h => by cases h
    · cases happend : Trajectories.appendStep trial.steps step with
      | error e => exact fun _ h => by cases h
      | ok steps =>
        obtain ⟨hstep, rfl⟩ := appendStep_eq_ok.mp happend
        apply Task.Follows.await
        intro s _
        refine ⟨some ⟨id, trial.steps, step⟩, .append ?_ hstep .write, fun _ _ => ⟨_, rfl⟩⟩
        rw [not_and_or, not_not, not_not] at hstatus
        exact hstatus

/-- Source: `store.ts`, `InMemoryTrialStore.finishTrial` -/
theorem follows_finishTrial {outcome : TrialOutcome} {score : Option Number} :
    @FollowsScript host _ (fun phase _ => phase = none)
      (finishTrial ctx id outcome score) := by
  unfold finishTrial
  apply follows_get
  intro trial
  cases trial with
  | none => rfl
  | some trial => exact (follows_write (by simp)).bind fun _ _ h => h

/-- Source: `store.ts`, `InMemoryTrialStore.setTrialStatus` -/
theorem follows_setTrialStatus {status : TrialStatus} {approvalId : Option JsString} :
    @FollowsScript host _ (fun phase _ => phase = none)
      (setTrialStatus ctx id status approvalId) := by
  unfold setTrialStatus
  apply follows_get
  intro trial
  cases trial with
  | none => rfl
  | some trial => exact (follows_write (by simp)).bind fun _ _ h => h

end InMemoryTrialStore

/-- Every call follows the script. -/
theorem TrialEvent.follows {e : TrialEvent host}
    {t : Task (TrialStores host) (TrialPoint host) (TrialAnswer host)} (ht : e.toAsync = .spawn t) :
    FollowsScript Answered t := by
  cases e with
  | create ctx input =>
    obtain rfl := Event.spawn.inj ht
    apply Task.Follows.await
    refine fun s _ => ⟨none, .other (InMemoryTrialStore.trialOp_createTrial input s) (by simp), ?_⟩
    rintro _ _ _ ⟨⟩
  | append ctx id step =>
    obtain rfl := Event.spawn.inj ht
    refine InMemoryTrialStore.follows_appendStep.bind fun phase r hr => ?_
    rintro _ _ updated ⟨⟩
    exact hr updated rfl
  | finish ctx id outcome score =>
    obtain rfl := Event.spawn.inj ht
    refine InMemoryTrialStore.follows_finishTrial.bind fun _ _ _ => ?_
    rintro _ _ _ ⟨⟩
  | setStatus ctx id status approvalId =>
    obtain rfl := Event.spawn.inj ht
    refine InMemoryTrialStore.follows_setTrialStatus.bind fun _ _ _ => ?_
    rintro _ _ _ ⟨⟩
  | resume i => cases ht
  | tick now => cases ht

/-! ## What a step of the server keeps -/

namespace TrialServer

variable {server : TrialServer host} {phases : List (Option (Written host))}

/-- The calls of a server follow the script. -/
def Scripted (phases : List (Option (Written host))) (server : TrialServer host) : Prop :=
  Pool.Follows (fun _ => True) CallOp Answered phases server

/-- A store that has just started. -/
theorem scripted_start (clock : TimeValue) : (start host clock).Scripted [] := .nil

/-- **The rule for a step**: what every operation, every new call and every tick of the clock keep. -/
theorem Scripted.step {J : List (Option (Written host)) → TrialStores host → Prop}
    (h : server.Scripted phases) (hJ : J phases server.shared) {e : TrialEvent host}
    (hop : ∀ i t point phase phase' update, e = .resume i → server.tasks[i]? = some t →
      t.point = some point → phases[i]? = some phase →
      CallOp phase point update server.shared phase' →
      J (phases.set i phase') (update server.shared))
    (hspawn : J (phases ++ [none]) server.shared)
    (htick : ∀ now, J phases { server.shared with clock := now }) :
    ∃ phases', (server.step e).Scripted phases' ∧ J phases' (server.step e).shared := by
  apply Pool.Follows.step h hJ fun _ _ => trivial
  · intro i phase phase' point update next he ht hi hcall _
    cases e with
    | resume j =>
      obtain rfl := Event.resume.inj he
      exact hop j _ point phase phase' update rfl ht rfl hi hcall
    | create ctx input => cases he
    | append ctx id step => cases he
    | finish ctx id outcome score => cases he
    | setStatus ctx id status approvalId => cases he
    | tick now => cases he
  · exact fun t ht => ⟨none, TrialEvent.follows ht, hspawn⟩
  · intro update hupdate
    cases e with
    | tick now =>
      obtain rfl := Event.other.inj hupdate
      exact htick now
    | create ctx input => cases hupdate
    | append ctx id step => cases hupdate
    | finish ctx id outcome score => cases hupdate
    | setStatus ctx id status approvalId => cases hupdate
    | resume i => cases hupdate

end TrialServer

/-! ## The condition on a run of the server -/

namespace TrialServer

/-- An `appendStep` has returned success. -/
def Appended (server : TrialServer host) (i : ℕ) (id : JsString) (step : TrajectoryStep host) :
    Prop :=
  ∃ r, server.tasks[i]? = some (.done (.appended id step (.ok r)))

/-- What the language gives: an array has fewer than `2 ^ 32` items. -/
def Given (server : TrialServer host) : Prop :=
  ∀ id t, server.shared.trials.lookup id = some t → t.steps.length < 2 ^ 32

/-- **The condition on a step**: where a call writes a trial, the steps are those it has read. -/
def WritesCurrent (server : TrialServer host) : TrialEvent host → Prop
  | .resume i => ∀ t id read w, server.tasks[i]? = some t → t.point = some (.write id read w) →
      ∃ stored, server.shared.trials.lookup id = some stored ∧ stored.steps = read.steps
  | _ => True

end TrialServer

/-! ## What holds throughout -/

/-- The steps that were written are in their trials, and no two at one place. -/
structure Kept (phases : List (Option (Written host))) (s : TrialStores host) : Prop where
  stored : ∀ a : Written host, some a ∈ phases → a.step.stepId = nextStepId a.before ∧
    ∃ t, s.trials.lookup a.trialId = some t ∧ a.before ++ [a.step] <+: t.steps
  once : ∀ (i j : ℕ) (a b : Written host), phases[i]? = some (some a) →
    phases[j]? = some (some b) → a.trialId = b.trialId → a.before.length = b.before.length → i = j

section kept

variable {phases : List (Option (Written host))} {s s' : TrialStores host} {i : ℕ}

/-- Nothing is lost where no trial loses a step. -/
theorem Kept.mono (h : Kept phases s)
    (hsteps : ∀ id t, s.trials.lookup id = some t →
      ∃ t', s'.trials.lookup id = some t' ∧ t.steps <+: t'.steps) : Kept phases s' := by
  refine ⟨fun a ha => ?_, h.once⟩
  obtain ⟨hid, t, ht, hstarts⟩ := h.stored a ha
  obtain ⟨t', ht', hle⟩ := hsteps a.trialId t ht
  exact ⟨hid, t', ht', hstarts.trans hle⟩

/-- A new call has written nothing. -/
theorem Kept.spawn (h : Kept phases s) : Kept (phases ++ [none]) s := by
  constructor
  · intro a ha
    apply h.stored a
    simpa using ha
  · intro j k a b hj hk
    have hold : ∀ (l : ℕ) (c : Written host), (phases ++ [none])[l]? = some (some c) → phases[l]? = some (some c) := by
      intro l c hl
      rcases getElem?_concat_cases hl with hl | hl
      · exact hl
      · cases hl
    exact h.once j k a b (hold j a hj) (hold k b hk)

/-- A trial that is created. -/
theorem Kept.create (h : Kept phases s) {r : TrialRecord host}
    (hnew : s.trials.lookup r.id = none) :
    Kept phases { s with trials := setProp s.trials (r.id, r) } := by
  apply h.mono
  intro id t ht
  refine ⟨t, ?_, List.prefix_rfl⟩
  rw [lookup_setProp, if_neg]
  · exact ht
  · rintro rfl
    rw [hnew] at ht
    cases ht

/-- A trial that is written with at least the steps that are stored. -/
theorem Kept.write (h : Kept phases s) {id : JsString} {stored r : TrialRecord host}
    (hstored : s.trials.lookup id = some stored) (hsteps : stored.steps <+: r.steps) :
    Kept phases { s with trials := setProp s.trials (id, r) } := by
  apply h.mono
  intro id' t ht
  rw [lookup_setProp]
  split_ifs with hid
  · rw [hid, hstored, Option.some.injEq] at ht
    rw [← ht]
    exact ⟨r, rfl, hsteps⟩
  · exact ⟨t, ht, List.prefix_rfl⟩

/-- A step that is written after those that are stored. -/
theorem Kept.append (h : Kept phases s) {id : JsString} {stored r : TrialRecord host}
    {step : TrajectoryStep host} (hstored : s.trials.lookup id = some stored)
    (hid : step.stepId = nextStepId stored.steps) (hsteps : r.steps = stored.steps ++ [step]) :
    Kept (phases.set i (some ⟨id, stored.steps, step⟩))
      { s with trials := setProp s.trials (id, r) } := by
  have hwrite := h.write hstored (hsteps ▸ List.prefix_append stored.steps [step])
  have hbefore : ∀ a, some a ∈ phases → a.trialId = id →
      a.before.length ≠ stored.steps.length := by
    rintro a ha rfl
    obtain ⟨-, t, ht, hstarts⟩ := h.stored a ha
    obtain rfl := Option.some.inj (hstored.symm.trans ht)
    have hlength := hstarts.length_le
    rw [List.length_append, List.length_singleton] at hlength
    omega
  constructor
  · intro a ha
    rcases List.mem_or_eq_of_mem_set ha with ha | heq
    · exact hwrite.stored a ha
    · obtain rfl := Option.some.inj heq
      refine ⟨hid, r, ?_, ?_⟩
      · rw [lookup_setProp, if_pos rfl]
      · rw [hsteps]
  · intro j k a b hj hk htrial hlength
    rcases getElem?_set_cases hj with ⟨hij, ha⟩ | ⟨-, hj⟩
    · obtain rfl := Option.some.inj ha
      rcases getElem?_set_cases hk with ⟨hik, -⟩ | ⟨-, hk⟩
      · exact hij.symm.trans hik
      · exact absurd hlength.symm (hbefore b (List.mem_of_getElem? hk) htrial.symm)
    · rcases getElem?_set_cases hk with ⟨hik, hb⟩ | ⟨-, hk⟩
      · obtain rfl := Option.some.inj hb
        exact absurd hlength (hbefore a (List.mem_of_getElem? hj) htrial)
      · exact h.once j k a b hj hk htrial hlength

/-- **What an operation keeps** that finds the steps its call has read. -/
theorem Kept.operation (h : Kept phases s) {phase phase' : Option (Written host)}
    {point : TrialPoint host} {update : TrialStores host → TrialStores host}
    (hi : phases[i]? = some phase) (hop : CallOp phase point update s phase')
    (hcurrent : ∀ id read w, point = .write id read w →
      ∃ stored, s.trials.lookup id = some stored ∧ stored.steps = read.steps) :
    Kept (phases.set i phase') (update s) := by
  cases hop with
  | other hop hpoint =>
    rw [set_self hi]
    generalize update s = s' at hop ⊢
    cases hop with
    | refused => exact h
    | create hnew hsteps => exact h.create hnew
    | get => exact h
    | @write id read w =>
      obtain ⟨stored, hstored, hsteps⟩ := hcurrent id read w rfl
      apply h.write hstored
      rw [hsteps]
      cases w with
      | append steps => exact absurd rfl (hpoint id read steps)
      | finish outcome score => exact List.prefix_rfl
      | setStatus status approvalId => exact List.prefix_rfl
  | append hstatus hstep hop =>
    obtain ⟨stored, hstored, hsteps⟩ := hcurrent _ _ _ rfl
    generalize update s = s' at hop ⊢
    cases hop
    rw [← hsteps] at hstep ⊢
    exact h.append hstored hstep rfl

end kept

/-! ## Every run -/

namespace TrialServer

variable {server : TrialServer host} {phases : List (Option (Written host))}

/-- The calls of a server follow the script, and the steps they have written are kept. -/
def Keeps (phases : List (Option (Written host))) (server : TrialServer host) : Prop :=
  server.Scripted phases ∧ Kept phases server.shared

/-- What a step keeps. -/
theorem Keeps.step (h : server.Keeps phases) {e : TrialEvent host}
    (hcurrent : server.WritesCurrent e) : ∃ phases', (server.step e).Keeps phases' := by
  apply h.1.step h.2
  · rintro i t point phase phase' update rfl ht hpoint hi hcall
    apply h.2.operation hi hcall
    rintro id read w rfl
    exact hcurrent t id read w ht hpoint
  · exact h.2.spawn
  · exact fun now => ⟨h.2.stored, h.2.once⟩

/-- What a whole run keeps. -/
theorem Keeps.run (h : server.Keeps phases) {events : List (TrialEvent host)}
    (hevents : ∀ past e later, events = past ++ e :: later → (server.run past).WritesCurrent e) :
    ∃ phases', (server.run events).Keeps phases' := by
  induction events generalizing server phases with
  | nil => exact ⟨phases, h⟩
  | cons e events ih =>
    obtain ⟨phases', h'⟩ := h.step (hevents [] e events rfl)
    refine ih h' fun past e' later heq => ?_
    exact hevents (e :: past) e' later (congrArg (e :: ·) heq)

/-- A store that has just started. -/
theorem keeps_start (clock : TimeValue) : (start host clock).Keeps [] := by
  refine ⟨scripted_start clock, fun a ha => ?_, fun i j a b hi => ?_⟩
  · exact absurd ha List.not_mem_nil
  · cases hi

/-- A step that was appended has been written. -/
theorem Keeps.exists_written (h : server.Keeps phases) {i : ℕ} {id : JsString}
    {step : TrajectoryStep host} (hi : server.Appended i id step) :
    ∃ before, phases[i]? = some (some ⟨id, before, step⟩) := by
  obtain ⟨r, ht⟩ := hi
  obtain ⟨phase, hphase, hanswered⟩ := h.1.getElem? ht
  obtain ⟨before, rfl⟩ := hanswered id step r rfl
  exact ⟨before, hphase⟩

end TrialServer

/-- **No acknowledged step is lost** in a run in which each write finds the steps its call has read:
the step of each `appendStep` that has succeeded is at its index, and no two of them on a trial have
the same number. -/
theorem steps_kept (clock : TimeValue) (events : List (TrialEvent host))
    (hcurrent : ∀ past e later, events = past ++ e :: later →
      ((TrialServer.start host clock).run past).WritesCurrent e)
    (hgiven : ((TrialServer.start host clock).run events).Given) (id : JsString) :
    (∀ i step, ((TrialServer.start host clock).run events).Appended i id step →
      ∃ t n, ((TrialServer.start host clock).run events).shared.trials.lookup id = some t ∧
        step.stepId = .ofNat (n + 1) ∧ t.steps[n]? = some step) ∧
    ∀ i j step step', ((TrialServer.start host clock).run events).Appended i id step →
      ((TrialServer.start host clock).run events).Appended j id step' →
      step.stepId = step'.stepId → i = j := by
  obtain ⟨phases, h⟩ := (TrialServer.keeps_start clock).run hcurrent
  have hstored : ∀ (i : ℕ) (before : List (TrajectoryStep host)) (step : TrajectoryStep host),
      phases[i]? = some (some ⟨id, before, step⟩) →
      step.stepId = .ofNat (before.length + 1) ∧ before.length + 1 < 2 ^ 53 ∧
        ∃ t, ((TrialServer.start host clock).run events).shared.trials.lookup id = some t ∧
          t.steps[before.length]? = some step := by
    intro i before step hi
    obtain ⟨hid, t, ht, hstarts⟩ := h.2.stored _ (List.mem_of_getElem? hi)
    have hlength : before.length + 1 ≤ t.steps.length := by simpa using hstarts.length_le
    have hroom := hgiven id t ht
    refine ⟨hid, by omega, t, ht, ?_⟩
    obtain ⟨after, hafter⟩ := hstarts
    rw [← hafter]
    simp
  constructor
  · intro i step hi
    obtain ⟨before, hphase⟩ := h.exists_written hi
    obtain ⟨hid, -, t, ht, hget⟩ := hstored i before step hphase
    exact ⟨t, before.length, ht, hid, hget⟩
  · intro i j step step' hi hj hsame
    obtain ⟨before, hphase⟩ := h.exists_written hi
    obtain ⟨before', hphase'⟩ := h.exists_written hj
    obtain ⟨hid, hlt, -⟩ := hstored i before step hphase
    obtain ⟨hid', hlt', -⟩ := hstored j before' step' hphase'
    rw [hid, hid'] at hsame
    have hlength := Number.ofNat_injOn hlt hlt' hsame
    exact h.2.once i j _ _ hphase hphase' rfl (Nat.succ.inj hlength)

/-! ## Two calls on one trial -/

section examples

/-- A step that resumes a call which is not about to write. -/
theorem writesCurrent_of_point {server : TrialServer host} {point : TrialPoint host} {i : ℕ}
    {t : Task (TrialStores host) (TrialPoint host) (TrialAnswer host)}
    (hi : server.tasks[i]? = some t) (hpoint : t.point = some point)
    (hne : ∀ id read w, point ≠ .write id read w) : server.WritesCurrent (.resume i) := by
  intro t' id read w hi' hpoint'
  rw [hi, Option.some.injEq] at hi'
  rw [← hi', hpoint, Option.some.injEq] at hpoint'
  exact absurd hpoint' (hne id read w)

variable {clock : TimeValue} {step : TrajectoryStep host}

/-- The call is about to append the step. -/
theorem run_read (hstep : step.stepId = .ofNat 1) (clock : TimeValue) :
    (TrialServer.start host clock).run [.create sampleContext sampleInput, .resume 0,
        .append sampleContext (js "a") step, .resume 1] =
      ⟨sampleStores host clock, [.done (.created (.ok (sampleTrial host clock))),
        InMemoryTrialStore.write (js "a") (sampleTrial host clock) (.append [step]) >>=
          fun r => pure (.appended (js "a") step (.ok r))]⟩ := by
  have hsplit : (TrialServer.start host clock).run [.create sampleContext sampleInput, .resume 0,
      .append sampleContext (js "a") step, .resume 1] =
      TrialServer.run ((TrialServer.start host clock).run
        [.create sampleContext sampleInput, .resume 0])
        [.append sampleContext (js "a") step, .resume 1] := TrialServer.run_concat _ [_, _] _
  rw [hsplit, run_create, TrialServer.run_spawn rfl, TrialServer.run_resume rfl
    (InMemoryTrialStore.resume_appendStep (getTrial_sampleStores clock) rfl hstep)]
  rfl

/-- A run in which one step is appended. -/
theorem steps_kept_one : ∃ (host : JsString → Number) (step : TrajectoryStep host)
    (t : TrialRecord host) (n : ℕ), step.stepId = .ofNat (n + 1) ∧ t.steps[n]? = some step := by
  have hstep : (sampleStep (fun _ => .nan) epoch fourDigitYear_epoch).stepId = .ofNat 1 :=
    stepId_sampleStep fourDigitYear_epoch
  have hkept := (@steps_kept (fun _ => .nan) epoch [.create sampleContext sampleInput, .resume 0,
    .append sampleContext (js "a") (sampleStep _ epoch fourDigitYear_epoch), .resume 1, .resume 1]
    ?_ ?_ (js "a")).1 1 (sampleStep _ epoch fourDigitYear_epoch) ?_
  · obtain ⟨t, n, -, hn⟩ := hkept
    exact ⟨_, _, t, n, hn⟩
  · refine forall_steps_cons trivial (forall_steps_cons ?_ (forall_steps_cons trivial
      (forall_steps_cons ?_ (forall_steps_cons ?_ fun _ _ _ h => absurd h (by simp)))))
    · exact @writesCurrent_of_point _ _ .create _ _ rfl rfl (by simp)
    · exact @writesCurrent_of_point _ _ (.get (js "a")) _ _ rfl rfl (by simp)
    · rw [run_read hstep]
      rintro _ _ _ _ ⟨⟩ ⟨⟩
      exact ⟨_, List.lookup_cons_self, rfl⟩
  · rw [run_append hstep]
    intro id t ht
    simp only [List.lookup_cons, List.lookup_nil] at ht
    split at ht
    · rw [← Option.some.inj ht]
      norm_num [oneStep]
    · cases ht
  · rw [run_append hstep]
    exact ⟨_, rfl⟩

/-- The trial after its status was set, without a step. -/
def noStep (clock : TimeValue) : TrialRecord host :=
  { sampleTrial host clock with status := .pendingApproval }

/-- A status is set, and meanwhile the step is appended. -/
def statusEvents (step : TrajectoryStep host) : List (TrialEvent host) :=
  [.create sampleContext sampleInput, .resume 0,
    .setStatus sampleContext (js "a") .pendingApproval none, .resume 1,
    .append sampleContext (js "a") step, .resume 2, .resume 2, .resume 1]

/-- The status is written over the step. -/
theorem run_statusEvents (hstep : step.stepId = .ofNat 1) (clock : TimeValue) :
    (TrialServer.start host clock).run (statusEvents step) =
      ⟨⟨[(js "a", noStep clock)], clock⟩, [.done (.created (.ok (sampleTrial host clock))),
        .done (.statusSet (js "a") (some (noStep clock))),
        .done (.appended (js "a") step (.ok (oneStep clock step)))]⟩ := by
  have hsplit : (TrialServer.start host clock).run (statusEvents step) =
      TrialServer.run ((TrialServer.start host clock).run
        [.create sampleContext sampleInput, .resume 0])
        [.setStatus sampleContext (js "a") .pendingApproval none, .resume 1,
          .append sampleContext (js "a") step, .resume 2, .resume 2, .resume 1] := TrialServer.run_concat _ [_, _] _
  rw [hsplit, run_create, TrialServer.run_spawn rfl, TrialServer.run_resume rfl
      (InMemoryTrialStore.resume_setTrialStatus (getTrial_sampleStores clock)),
    TrialServer.run_spawn rfl, TrialServer.run_resume rfl
      (InMemoryTrialStore.resume_appendStep (getTrial_sampleStores clock) rfl hstep),
    TrialServer.run_resume rfl InMemoryTrialStore.resume_write, setProp_sampleStores,
    TrialServer.run_resume rfl InMemoryTrialStore.resume_write]
  simp only [setProp, List.map_cons, List.map_nil, List.mem_singleton, if_true]
  rfl

/-- **A step is lost**: `setTrialStatus` has read the trial before the step was appended to it. -/
theorem step_lost : ¬ ∀ (host : JsString → Number) (clock : TimeValue)
    (events : List (TrialEvent host)) (id : JsString) (i : ℕ) (step : TrajectoryStep host),
    ((TrialServer.start host clock).run events).Appended i id step →
      ∃ t n, ((TrialServer.start host clock).run events).shared.trials.lookup id = some t ∧
        step.stepId = .ofNat (n + 1) ∧ t.steps[n]? = some step := by
  intro h
  have hstep : (sampleStep (fun _ => .nan) epoch fourDigitYear_epoch).stepId = .ofNat 1 :=
    stepId_sampleStep fourDigitYear_epoch
  have hrun := run_statusEvents hstep epoch
  have hkept := h (fun _ => .nan) epoch (statusEvents (sampleStep _ epoch fourDigitYear_epoch))
    (js "a") 2 (sampleStep _ epoch fourDigitYear_epoch)
  rw [hrun] at hkept
  obtain ⟨t, n, ht, -, hn⟩ := hkept ⟨_, rfl⟩
  rw [List.lookup_cons_self, Option.some.injEq] at ht
  rw [← ht] at hn
  cases hn

end examples

end AgentEval.Trajectories
