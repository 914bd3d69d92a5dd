import AgentEval.Tasks.Registry

/-!
# Membership of task sets

A task that `createTask` has acknowledged is in its set exactly once, and the hash of the set is that
of its tasks, as long as no call writes over a set that has changed since the call has read it.

* **`membership_kept`**: this holds in every run in which each write finds its task new and the set
  as its call has read it.
* **`membership_lost`**: two calls read an empty set, then both write; the set has one of the tasks.
-/

namespace AgentEval.Tasks

open Js Store Api Async

/-! ## What the calls do -/

/-- The sets are stored under their identifiers. -/
def KeyedSets (s : TaskStores) : Prop := ∀ id set, s.taskSets.lookup id = some set → set.id = id

/-- The script of a call, with the task that it has created, if any. -/
inductive CallOp : Option TaskRecord → TaskPoint → (TaskStores → TaskStores) → TaskStores →
    Option TaskRecord → Prop
  /-- Nothing is written. -/
  | read {point update s} (hpoint : ∀ id set, point ≠ .write id set) (h : update s = s) :
      CallOp none point update s none
  /-- A set is created. -/
  | createSet {set update s} (hnew : s.taskSets.lookup set.id = none)
      (hhash : set.contentHash = computeTaskSetHash set.id set.version set.split set.taskIds)
      (h : update s = { s with taskSets := setProp s.taskSets (set.id, set) }) :
      CallOp none .createSet update s none
  /-- A task is created, in a set that was read before. -/
  | write {task set update s} (hset : set.id = task.taskSetId)
      (h : update s = { s with
        tasks := setProp s.tasks (task.id, task)
        taskSets := setProp s.taskSets (set.id, InMemoryTaskStore.withTask set task.id) }) :
      CallOp none (.write task.id set) update s (some task)

/-- Who has been told that a task is created has created it. -/
def Answered (phase : Option TaskRecord) (answer : TaskAnswer) : Prop :=
  ∀ task, answer = .taskCreated (.ok task) → phase = some task

/-- A call follows the script. -/
abbrev FollowsScript {α : Type} (fin : Option TaskRecord → α → Prop)
    (t : Task TaskStores TaskPoint α) : Prop :=
  t.Follows KeyedSets CallOp fin none

namespace InMemoryTaskStore

variable {ctx : TenantContext}

/-- Source: `registry.ts`, `InMemoryTaskStore.createTaskSet` -/
theorem callOp_createTaskSet (input : CreateTaskSetInput) (s : TaskStores) :
    CallOp none .createSet (fun s => (createTaskSet ctx input s).2) s none := by
  by_cases hexists : input.id ∈ s.taskSets.map Prod.fst
  · apply CallOp.read
    · simp
    · rw [createTaskSet, if_pos hexists]
  · apply @CallOp.createSet (taskSetRecord ctx input s.clock)
    · exact lookup_eq_none_iff.mpr hexists
    · rfl
    · rw [createTaskSet, if_neg hexists]

/-- Source: `registry.ts`, `InMemoryTaskStore.createTask` -/
theorem follows_createTask (input : CreateTaskInput) :
    FollowsScript (fun phase r => ∀ task, r = .ok task → phase = some task)
      (createTask ctx input) := by
  unfold createTask
  apply Task.Follows.await
  intro s hs
  refine ⟨none, .read (by simp) rfl, ?_⟩
  cases hread : readSet ctx input s with
  | error e => exact fun _ h => by cases h
  | ok found =>
    cases found with
    | none => exact fun _ h => by cases h
    | some set =>
      have hset : set.id = input.taskSetId := by
        unfold readSet at hread
        split_ifs at hread
        have hget : getTaskSet ctx input.taskSetId s = some set := Except.ok.inj hread
        exact hs _ _ (Option.eq_some_of_filter_eq_some hget)
      apply Task.Follows.await
      intro t _
      exact ⟨some (taskRecord ctx input t.clock),
        @CallOp.write (taskRecord ctx input t.clock) set _ t hset rfl,
        fun _ h => congrArg some (Except.ok.inj h)⟩

end InMemoryTaskStore

/-- Every call follows the script. -/
theorem TaskEvent.follows {e : TaskEvent} {t : Task TaskStores TaskPoint TaskAnswer}
    (ht : e.toAsync = .spawn t) : FollowsScript Answered t := by
  cases e with
  | createTaskSet ctx input =>
    obtain rfl := Event.spawn.inj ht
    apply Task.Follows.await
    refine fun s _ => ⟨none, InMemoryTaskStore.callOp_createTaskSet input s, ?_⟩
    rintro task ⟨⟩
  | createTask ctx input =>
    obtain rfl := Event.spawn.inj ht
    refine (InMemoryTaskStore.follows_createTask input).bind fun phase r hr => ?_
    rintro task ⟨⟩
    exact hr task rfl
  | resume i => cases ht
  | tick now => cases ht

/-! ## The condition on a run of the server -/

/-- **The condition on a step**: where `createTask` writes, its task is new, to the store and to the
set, and the set has the tasks that the call has read. -/
def TaskServer.WritesCurrent (server : TaskServer) : TaskEvent → Prop
  | .resume i => ∀ t id set, server.tasks[i]? = some t → t.point = some (.write id set) →
      id ∉ server.shared.tasks.map Prod.fst ∧ id ∉ set.taskIds ∧
        ∃ stored, server.shared.taskSets.lookup set.id = some stored ∧
          stored.taskIds = set.taskIds
  | _ => True

/-! ## What holds throughout -/

/-- The sets are keyed and pinned, and the tasks that were created are in them, once each. -/
structure Listed (phases : List (Option TaskRecord)) (s : TaskStores) : Prop where
  keyed : KeyedSets s
  pinned : ∀ id set, s.taskSets.lookup id = some set →
    set.contentHash = computeTaskSetHash set.id set.version set.split set.taskIds
  listed : ∀ task : TaskRecord, some task ∈ phases → task.id ∈ s.tasks.map Prod.fst ∧
    ∃ set, s.taskSets.lookup task.taskSetId = some set ∧ set.taskIds.count task.id = 1
  once : ∀ (i j : ℕ) (task task' : TaskRecord), phases[i]? = some (some task) →
    phases[j]? = some (some task') → task.id = task'.id → i = j

section listed

variable {phases : List (Option TaskRecord)} {s : TaskStores} {i : ℕ}

/-- A new call has created nothing. -/
theorem Listed.spawn (h : Listed phases s) : Listed (phases ++ [none]) s := by
  refine ⟨h.keyed, h.pinned, fun task htask => ?_, fun j k task task' hj hk => ?_⟩
  · apply h.listed task
    simpa using htask
  · have hold : ∀ (l : ℕ) (t : TaskRecord), (phases ++ [none])[l]? = some (some t) →
        phases[l]? = some (some t) := by
      intro l t hl
      rcases getElem?_concat_cases hl with hl | hl
      · exact hl
      · cases hl
    exact h.once j k task task' (hold j task hj) (hold k task' hk)

/-- A set that is stored, with its hash. -/
theorem Listed.setProp (h : Listed phases s) {set : TaskSetRecord}
    (hhash : set.contentHash = computeTaskSetHash set.id set.version set.split set.taskIds)
    (hold : ∀ task : TaskRecord, some task ∈ phases → task.taskSetId = set.id →
      set.taskIds.count task.id = 1) :
    Listed phases { s with taskSets := Js.setProp s.taskSets (set.id, set) } := by
  constructor
  · intro id set' hlookup
    rw [lookup_setProp] at hlookup
    split_ifs at hlookup with hid
    · rw [← Option.some.inj hlookup, hid]
    · exact h.keyed id set' hlookup
  · intro id set' hlookup
    rw [lookup_setProp] at hlookup
    split_ifs at hlookup with hid
    · rw [← Option.some.inj hlookup]
      exact hhash
    · exact h.pinned id set' hlookup
  · intro task htask
    obtain ⟨hmem, set', hset', hcount⟩ := h.listed task htask
    refine ⟨hmem, ?_⟩
    rw [lookup_setProp]
    split_ifs with hid
    · exact ⟨set, rfl, hold task htask hid⟩
    · exact ⟨set', hset', hcount⟩
  · exact h.once

/-- A set that is created. -/
theorem Listed.createSet (h : Listed phases s) {set : TaskSetRecord}
    (hnew : s.taskSets.lookup set.id = none)
    (hhash : set.contentHash = computeTaskSetHash set.id set.version set.split set.taskIds) :
    Listed phases { s with taskSets := Js.setProp s.taskSets (set.id, set) } := by
  apply h.setProp hhash
  intro task htask hid
  obtain ⟨-, set', hset', -⟩ := h.listed task htask
  rw [hid, hnew] at hset'
  cases hset'

/-- A task that is created in the set as it is stored. -/
theorem Listed.write (h : Listed phases s) {task : TaskRecord} {set stored : TaskSetRecord}
    (hset : set.id = task.taskSetId) (hnew : task.id ∉ s.tasks.map Prod.fst)
    (hfresh : task.id ∉ set.taskIds) (hstored : s.taskSets.lookup set.id = some stored)
    (hcurrent : stored.taskIds = set.taskIds) :
    Listed (phases.set i (some task)) { s with
      tasks := Js.setProp s.tasks (task.id, task)
      taskSets := Js.setProp s.taskSets (set.id, InMemoryTaskStore.withTask set task.id) } := by
  have hother : ∀ t : TaskRecord, some t ∈ phases → t.id ≠ task.id := by
    intro t ht hid
    apply hnew
    rw [← hid]
    exact (h.listed t ht).1
  have hsets := @Listed.setProp _ _ h (InMemoryTaskStore.withTask set task.id) rfl (by
    intro t ht hid
    obtain ⟨-, set', hset', hcount⟩ := h.listed t ht
    have heq : set' = stored := by
      rw [hid] at hset'
      exact Option.some.inj (hset'.symm.trans hstored)
    rw [heq, hcurrent] at hcount
    rw [InMemoryTaskStore.withTask, List.count_append, hcount]
    simp [(hother t ht).symm])
  refine ⟨hsets.keyed, hsets.pinned, fun t ht => ?_, fun j k t t' hj hk hid => ?_⟩
  · rcases List.mem_or_eq_of_mem_set ht with ht | heq
    · obtain ⟨hmem, hlisted⟩ := hsets.listed t ht
      exact ⟨mem_keys_setProp.mpr (.inr hmem), hlisted⟩
    · obtain rfl := Option.some.inj heq
      refine ⟨mem_keys_setProp.mpr (.inl rfl), InMemoryTaskStore.withTask set t.id, ?_, ?_⟩
      · rw [lookup_setProp, if_pos hset.symm]
      · rw [InMemoryTaskStore.withTask, List.count_append, List.count_eq_zero.mpr hfresh]
        simp
  · rcases getElem?_set_cases hj with ⟨hij, ht⟩ | ⟨-, hj'⟩
    · obtain rfl := Option.some.inj ht
      rcases getElem?_set_cases hk with ⟨hik, -⟩ | ⟨-, hk'⟩
      · exact hij.symm.trans hik
      · exact absurd hid.symm (hother t' (List.mem_of_getElem? hk'))
    · rcases getElem?_set_cases hk with ⟨hik, ht'⟩ | ⟨-, hk'⟩
      · obtain rfl := Option.some.inj ht'
        exact absurd hid (hother t (List.mem_of_getElem? hj'))
      · exact h.once j k t t' hj' hk' hid

/-- **What an operation keeps** that finds what its call has read. -/
theorem Listed.operation (h : Listed phases s) {phase phase' : Option TaskRecord}
    {point : TaskPoint} {update : TaskStores → TaskStores} (hi : phases[i]? = some phase)
    (hop : CallOp phase point update s phase')
    (hcurrent : ∀ id set, point = .write id set → id ∉ s.tasks.map Prod.fst ∧ id ∉ set.taskIds ∧
      ∃ stored, s.taskSets.lookup set.id = some stored ∧ stored.taskIds = set.taskIds) :
    Listed (phases.set i phase') (update s) := by
  cases hop with
  | read hpoint hupdate =>
    rw [set_self hi, hupdate]
    exact h
  | createSet hnew hhash hupdate =>
    rw [set_self hi, hupdate]
    exact h.createSet hnew hhash
  | write hset hupdate =>
    obtain ⟨hnew, hfresh, stored, hstored, hsame⟩ := hcurrent _ _ rfl
    rw [hupdate]
    exact h.write hset hnew hfresh hstored hsame

end listed

/-! ## Every run -/

namespace TaskServer

variable {server : TaskServer} {phases : List (Option TaskRecord)}

/-- The calls of a server follow the script, and the tasks they have created are listed. -/
def Lists (server : TaskServer) : Prop :=
  ∃ phases, Pool.Follows KeyedSets CallOp Answered phases server ∧ Listed phases server.shared

/-- What a step keeps. -/
theorem Lists.step (h : server.Lists) {e : TaskEvent} (hcurrent : server.WritesCurrent e) :
    (server.step e).Lists := by
  obtain ⟨phases, hfollows, hlisted⟩ := h
  apply Pool.Follows.step hfollows hlisted fun _ _ => hlisted.keyed
  · intro i phase phase' point update next he ht hi hcall _
    apply hlisted.operation hi hcall
    rintro id set rfl
    cases e with
    | resume j =>
      obtain rfl := Event.resume.inj he
      exact hcurrent _ id set ht rfl
    | createTaskSet ctx input => cases he
    | createTask ctx input => cases he
    | tick now => cases he
  · exact fun t ht => ⟨none, TaskEvent.follows ht, hlisted.spawn⟩
  · intro update hupdate
    cases e with
    | tick now =>
      obtain rfl := Event.other.inj hupdate
      exact ⟨hlisted.keyed, hlisted.pinned, hlisted.listed, hlisted.once⟩
    | createTaskSet ctx input => cases hupdate
    | createTask ctx input => cases hupdate
    | resume i => cases hupdate

/-- A store that has just started. -/
theorem lists_start (clock : TimeValue) : (start clock).Lists := by
  refine ⟨[], .nil, ?_, ?_, ?_, ?_⟩
  · rintro id set ⟨⟩
  · rintro id set ⟨⟩
  · exact fun task htask => absurd htask List.not_mem_nil
  · intro i j task task' hi
    cases hi

/-- A task that was created is in the phases. -/
theorem phase_of_created (h : Pool.Follows KeyedSets CallOp Answered phases server) {i : ℕ}
    {task : TaskRecord} (hi : server.Created i task) : phases[i]? = some (some task) := by
  obtain ⟨phase, hphase, hanswered⟩ := h.getElem? hi
  obtain rfl := hanswered task rfl
  exact hphase

end TaskServer

/-- **No task set loses a task** in a run in which each write of `createTask` finds its task new and
the set as the call has read it: each task that was created is in its set once, the hash of each set
is that of its tasks, and no two calls have created tasks of one identifier. -/
theorem membership_kept (clock : TimeValue) (events : List TaskEvent)
    (hcurrent : ∀ past e later, events = past ++ e :: later →
      ((TaskServer.start clock).run past).WritesCurrent e) :
    (∀ i task, ((TaskServer.start clock).run events).Created i task →
      ∃ set, ((TaskServer.start clock).run events).shared.taskSets.lookup task.taskSetId =
        some set ∧ set.taskIds.count task.id = 1) ∧
    (∀ id set, ((TaskServer.start clock).run events).shared.taskSets.lookup id = some set →
      set.contentHash = computeTaskSetHash set.id set.version set.split set.taskIds) ∧
    ∀ i j task task', ((TaskServer.start clock).run events).Created i task →
      ((TaskServer.start clock).run events).Created j task' → task.id = task'.id → i = j := by
  obtain ⟨phases, hfollows, h⟩ : ((TaskServer.start clock).run events).Lists :=
    run_keeps (fun _ _ hlists hstep => hlists.step hstep) (TaskServer.lists_start clock) hcurrent
  refine ⟨fun i task hi => ?_, h.pinned, fun i j task task' hi hj hid => ?_⟩
  · have hphase := TaskServer.phase_of_created hfollows hi
    exact (h.listed task (List.mem_of_getElem? hphase)).2
  · have hphase := TaskServer.phase_of_created hfollows hi
    have hphase' := TaskServer.phase_of_created hfollows hj
    exact h.once i j task task' hphase hphase' hid

/-! ## Two tasks of one set -/

section examples

/-- A caller. -/
def curator : TenantContext := ⟨js "t", js "u", []⟩

/-- An empty set. -/
def emptySet : CreateTaskSetInput := ⟨js "s", js "n", js "1", .dev, none⟩

/-- A task. -/
def newTask (id : JsString) : CreateTaskInput := ⟨id, js "s", js "p", none, none, none⟩

/-- The set as it is stored. -/
def storedSet : TaskSetRecord := InMemoryTaskStore.taskSetRecord curator emptySet epoch

/-- The task as it is stored. -/
def storedTask (id : JsString) : TaskRecord :=
  InMemoryTaskStore.taskRecord curator (newTask id) epoch

/-- The set is found. -/
theorem readSet_storedSet (id : JsString) :
    InMemoryTaskStore.readSet curator (newTask id) ⟨[(js "s", storedSet)], [], epoch⟩ =
      .ok (some storedSet) := by
  simp [InMemoryTaskStore.readSet, InMemoryTaskStore.getTaskSet, newTask, storedSet,
    InMemoryTaskStore.taskSetRecord, curator]

/-- A set is created. -/
theorem run_createTaskSet : (TaskServer.start epoch).run [.createTaskSet curator emptySet,
    .resume 0] = ⟨⟨[(js "s", storedSet)], [], epoch⟩, [.done (.setCreated (.ok storedSet))]⟩ := rfl

/-- The stores with one task, in a set that was read empty. -/
def oneTask (tasks : List (JsString × TaskRecord)) (id : JsString) : TaskStores :=
  ⟨[(js "s", InMemoryTaskStore.withTask storedSet id)], tasks ++ [(id, storedTask id)], epoch⟩

/-- A task is written. -/
theorem writeTask_storedSet {sets : TaskSetRecord} {tasks : List (JsString × TaskRecord)}
    {id : JsString} (hid : id ∉ tasks.map Prod.fst) :
    InMemoryTaskStore.writeTask curator (newTask id) storedSet ⟨[(js "s", sets)], tasks, epoch⟩ =
      (storedTask id, oneTask tasks id) := by
  have htasks : setProp tasks (id, storedTask id) = tasks ++ [(id, storedTask id)] := by
    rw [setProp, if_neg hid]
  have hsets : setProp [(js "s", sets)] (js "s", InMemoryTaskStore.withTask storedSet id) =
      [(js "s", InMemoryTaskStore.withTask storedSet id)] := by
    simp [setProp]
  unfold InMemoryTaskStore.writeTask oneTask
  rw [← htasks, ← hsets]
  rfl

/-- A task is created. -/
def oneTaskEvents : List TaskEvent :=
  [.createTaskSet curator emptySet, .resume 0, .createTask curator (newTask (js "a")), .resume 1]

/-- The task is to be written. -/
theorem run_oneTaskEvents : (TaskServer.start epoch).run oneTaskEvents =
    ⟨⟨[(js "s", storedSet)], [], epoch⟩, [.done (.setCreated (.ok storedSet)),
      Task.await (.write (js "a") storedSet)
        (InMemoryTaskStore.writeTask curator (newTask (js "a")) storedSet) >>=
        fun record => pure (.taskCreated (.ok record))]⟩ := by
  have hsplit : (TaskServer.start epoch).run oneTaskEvents =
      TaskServer.run ((TaskServer.start epoch).run [.createTaskSet curator emptySet, .resume 0])
        [.createTask curator (newTask (js "a")), .resume 1] := TaskServer.run_concat _ [_, _] _
  rw [hsplit, run_createTaskSet, TaskServer.run_spawn rfl,
    TaskServer.run_resume rfl (InMemoryTaskStore.resume_createTask (readSet_storedSet _))]
  rfl

/-- A run in which one task is created. -/
theorem membership_kept_one : ∃ set, ((TaskServer.start epoch).run
    (oneTaskEvents ++ [.resume 1])).shared.taskSets.lookup (js "s") = some set ∧
      set.taskIds.count (js "a") = 1 := by
  have hread := TaskServer.run_concat (TaskServer.start epoch) oneTaskEvents [.resume 1]
  rw [run_oneTaskEvents, TaskServer.run_resume rfl (Task.resume_await_bind _ _ _ _),
    writeTask_storedSet List.not_mem_nil] at hread
  refine (membership_kept epoch (oneTaskEvents ++ [.resume 1]) ?_).1 1 (storedTask (js "a")) ?_
  · refine forall_steps_cons trivial (forall_steps_cons ?_ (forall_steps_cons trivial
      (forall_steps_cons ?_ (forall_steps_cons ?_ fun _ _ _ h => absurd h (by simp)))))
    · rintro _ _ _ ⟨⟩ ⟨⟩
    · rintro _ _ _ ⟨⟩ ⟨⟩
    · change (TaskServer.run (TaskServer.start epoch) oneTaskEvents).WritesCurrent (.resume 1)
      rw [run_oneTaskEvents]
      rintro _ _ _ ⟨⟩ ⟨⟩
      exact ⟨List.not_mem_nil, List.not_mem_nil, storedSet, List.lookup_cons_self, rfl⟩
  · rw [hread]
    rfl

/-- Two calls find the empty set, and go on one after the other. -/
def twoTaskEvents : List TaskEvent :=
  oneTaskEvents ++ [.createTask curator (newTask (js "b")), .resume 2, .resume 1, .resume 2]

/-- Both tasks are created, and the set has one of them. -/
theorem run_twoTaskEvents : (TaskServer.start epoch).run twoTaskEvents =
    ⟨oneTask [(js "a", storedTask (js "a"))] (js "b"), [.done (.setCreated (.ok storedSet)),
      .done (.taskCreated (.ok (storedTask (js "a")))),
      .done (.taskCreated (.ok (storedTask (js "b"))))]⟩ := by
  have hwrite : InMemoryTaskStore.writeTask curator (newTask (js "b")) storedSet
      (oneTask [] (js "a")) =
        (storedTask (js "b"), oneTask [(js "a", storedTask (js "a"))] (js "b")) :=
    writeTask_storedSet (by simp)
  rw [twoTaskEvents, TaskServer.run_concat, run_oneTaskEvents, TaskServer.run_spawn rfl,
    TaskServer.run_resume rfl (InMemoryTaskStore.resume_createTask (readSet_storedSet _)),
    TaskServer.run_resume rfl (Task.resume_await_bind _ _ _ _),
    writeTask_storedSet List.not_mem_nil,
    TaskServer.run_resume rfl (Task.resume_await_bind _ _ _ _), hwrite]
  rfl

/-- **A task is lost**: both calls have read the empty set. -/
theorem membership_lost : ¬ ∀ (clock : TimeValue) (events : List TaskEvent),
    (∀ t ∈ ((TaskServer.start clock).run events).tasks, ∃ answer, t = .done answer) →
      ∀ i task, ((TaskServer.start clock).run events).Created i task →
        ∃ set, ((TaskServer.start clock).run events).shared.taskSets.lookup task.taskSetId =
          some set ∧ set.taskIds.count task.id = 1 := by
  intro h
  have hkept := h epoch twoTaskEvents
  rw [run_twoTaskEvents] at hkept
  obtain ⟨set, hset, hcount⟩ := hkept (by simp) 1 (storedTask (js "a")) rfl
  have hlookup : (oneTask [(js "a", storedTask (js "a"))] (js "b")).taskSets.lookup (js "s") =
      some (InMemoryTaskStore.withTask storedSet (js "b")) := List.lookup_cons_self
  obtain rfl := Option.some.inj (hlookup.symm.trans hset)
  have hids : (InMemoryTaskStore.withTask storedSet (js "b")).taskIds = [js "b"] := rfl
  have hid : (storedTask (js "a")).id = js "a" := rfl
  rw [hids, hid] at hcount
  simp at hcount

end examples

end AgentEval.Tasks
