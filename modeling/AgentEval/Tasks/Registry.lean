import AgentEval.Api.RunRoutes
import AgentEval.Async.Phases
import AgentEval.Async.Runs

/-!
# `tasks/registry.ts`: the task registry

The methods of `InMemoryTaskStore` that write, as tasks on its two maps. `createTask` looks for the
identifier and the set, waits, and writes the task, a new list of identifiers and its hash.
-/

namespace AgentEval.Tasks

open Js Sha256 Store Api Async

/-- Source: `registry.ts`, `TaskRecord` -/
structure TaskRecord where
  /-- The identifier of the task. -/
  id : JsString
  /-- Its tenant. -/
  tenantId : JsString
  /-- The set it belongs to. -/
  taskSetId : JsString
  /-- What is asked. -/
  prompt : JsString
  /-- Where it runs. -/
  environmentRef : Option JsString
  /-- What is right. -/
  groundTruth : Option PlainObject
  /-- What may be reached. -/
  egressAllowlist : List JsString
  /-- When it was created. -/
  createdAt : TimeValue

/-- Source: `registry.ts`, `TaskSetRecord` -/
structure TaskSetRecord where
  /-- The identifier of the set. -/
  id : JsString
  /-- Its tenant. -/
  tenantId : JsString
  /-- Its name. -/
  name : JsString
  /-- Its version. -/
  version : JsString
  /-- Its split. -/
  split : Split
  /-- The tasks in order. -/
  taskIds : List JsString
  /-- The pin of all that. -/
  contentHash : JsString
  /-- When it was created. -/
  createdAt : TimeValue

/-- What is hashed, one `update` after the other.
Source: `registry.ts`, `computeTaskSetHash` -/
def hashedParts (id version : JsString) (split : Split) (taskIds : List JsString) :
    List JsString :=
  [js "taskset:v1\n", id ++ js "\n" ++ version ++ js "\n" ++ split.toJs ++ js "\n",
    js "count:" ++ (Number.ofNat taskIds.length).toString ++ js "\n"] ++
  taskIds.map fun taskId => taskId ++ js "\n"

/-- Source: `registry.ts`, `computeTaskSetHash` -/
def computeTaskSetHash (id version : JsString) (split : Split) (taskIds : List JsString) :
    JsString :=
  js "sha256:" ++ toHex (sha256 ((hashedParts id version split taskIds).flatMap utf8)).bytes

/-- Source: `registry.ts`, `CreateTaskInput` -/
structure CreateTaskInput where
  /-- The identifier of the task. -/
  id : JsString
  /-- The set. -/
  taskSetId : JsString
  /-- What is asked. -/
  prompt : JsString
  /-- Where it runs. -/
  environmentRef : Option JsString
  /-- What is right. -/
  groundTruth : Option PlainObject
  /-- What may be reached. -/
  egressAllowlist : Option (List JsString)

/-- Source: `registry.ts`, `CreateTaskSetInput` -/
structure CreateTaskSetInput where
  /-- The identifier of the set. -/
  id : JsString
  /-- Its name. -/
  name : JsString
  /-- Its version. -/
  version : JsString
  /-- Its split. -/
  split : Split
  /-- Tasks to begin with. -/
  taskIds : Option (List JsString)

/-- Source: `registry.ts`, `TaskError` -/
structure TaskError where
  /-- What is wrong. -/
  message : JsString

/-! ## The store -/

/-- The two maps and the clock. -/
structure TaskStores where
  /-- The task sets. -/
  taskSets : List (JsString × TaskSetRecord)
  /-- The tasks. -/
  tasks : List (JsString × TaskRecord)
  /-- What `new Date()` reads. -/
  clock : TimeValue

/-- Where a call waits for its next operation. -/
inductive TaskPoint where
  /-- `createTaskSet` -/
  | createSet
  /-- `createTask` up to its `await`. -/
  | read (id taskSetId : JsString)
  /-- `createTask` after it, with the set it has read. -/
  | write (id : JsString) (set : TaskSetRecord)

/-- What a call has come to. -/
inductive TaskAnswer where
  /-- Of `createTaskSet`. -/
  | setCreated (r : Except TaskError TaskSetRecord)
  /-- Of `createTask`. -/
  | taskCreated (r : Except TaskError TaskRecord)

namespace InMemoryTaskStore

/-- The record of a set.
Source: `registry.ts`, `InMemoryTaskStore.createTaskSet` -/
def taskSetRecord (ctx : TenantContext) (input : CreateTaskSetInput) (now : TimeValue) :
    TaskSetRecord where
  id := input.id
  tenantId := ctx.tenantId
  name := input.name
  version := input.version
  split := input.split
  taskIds := input.taskIds.getD []
  contentHash :=
    computeTaskSetHash input.id input.version input.split (input.taskIds.getD [])
  createdAt := now

/-- Source: `registry.ts`, `InMemoryTaskStore.createTaskSet` -/
def createTaskSet (ctx : TenantContext) (input : CreateTaskSetInput) (s : TaskStores) :
    Except TaskError TaskSetRecord × TaskStores :=
  if input.id ∈ s.taskSets.map Prod.fst then
    (.error ⟨js "Task set " ++ input.id ++ js " already exists."⟩, s)
  else
    let record := taskSetRecord ctx input s.clock
    (.ok record, { s with taskSets := setProp s.taskSets (record.id, record) })

/-- A set of the caller's tenant.
Source: `registry.ts`, `InMemoryTaskStore.getTaskSet` -/
def getTaskSet (ctx : TenantContext) (id : JsString) (s : TaskStores) : Option TaskSetRecord :=
  (s.taskSets.lookup id).filter fun set => decide (set.tenantId = ctx.tenantId)

/-- The check for the identifier, and the set.
Source: `registry.ts`, `InMemoryTaskStore.createTask` -/
def readSet (ctx : TenantContext) (input : CreateTaskInput) (s : TaskStores) :
    Except TaskError (Option TaskSetRecord) :=
  if input.id ∈ s.tasks.map Prod.fst then
    .error ⟨js "Task " ++ input.id ++ js " already exists."⟩
  else .ok (getTaskSet ctx input.taskSetId s)

/-- The record of a task.
Source: `registry.ts`, `InMemoryTaskStore.createTask` -/
def taskRecord (ctx : TenantContext) (input : CreateTaskInput) (now : TimeValue) : TaskRecord where
  id := input.id
  tenantId := ctx.tenantId
  taskSetId := input.taskSetId
  prompt := input.prompt
  environmentRef := input.environmentRef.filter (· ≠ [])
  groundTruth := input.groundTruth
  egressAllowlist := input.egressAllowlist.getD []
  createdAt := now

/-- A set with one more task.
Source: `registry.ts`, `InMemoryTaskStore.createTask` -/
def withTask (set : TaskSetRecord) (id : JsString) : TaskSetRecord :=
  { set with
    taskIds := set.taskIds ++ [id]
    contentHash := computeTaskSetHash set.id set.version set.split (set.taskIds ++ [id]) }

/-- The two writes.
Source: `registry.ts`, `InMemoryTaskStore.createTask` -/
def writeTask (ctx : TenantContext) (input : CreateTaskInput) (set : TaskSetRecord)
    (s : TaskStores) : TaskRecord × TaskStores :=
  let record := taskRecord ctx input s.clock
  (record, { s with
    tasks := setProp s.tasks (record.id, record)
    taskSets := setProp s.taskSets (set.id, withTask set record.id) })

/-- Source: `registry.ts`, `InMemoryTaskStore.createTask` -/
def createTask (ctx : TenantContext) (input : CreateTaskInput) :
    Task TaskStores TaskPoint (Except TaskError TaskRecord) := do
  let found ← Task.await (.read input.id input.taskSetId) fun s => (readSet ctx input s, s)
  match found with
  | .error e => return .error e
  | .ok none =>
    return .error ⟨js "Task set " ++ input.taskSetId ++ js " does not exist for this tenant."⟩
  | .ok (some set) =>
    let record ← Task.await (.write input.id set) (writeTask ctx input set)
    return .ok record

/-- `createTask` finds its set. -/
theorem resume_createTask {ctx : TenantContext} {input : CreateTaskInput} {s : TaskStores}
    {set : TaskSetRecord} {α : Type} {k : Except TaskError TaskRecord → Task TaskStores TaskPoint α}
    (h : readSet ctx input s = .ok (some set)) :
    (createTask ctx input >>= k).resume s =
      (Task.await (.write input.id set) (writeTask ctx input set) >>= fun record =>
        k (.ok record), s) := by
  unfold createTask
  rw [Task.bind_assoc, Task.resume_await_bind, h]
  dsimp only
  rw [Task.bind_assoc]
  rfl

end InMemoryTaskStore

/-! ## Runs -/

/-- The store and the calls that work on it. -/
abbrev TaskServer := Pool TaskStores TaskPoint TaskAnswer

/-- What can happen next. -/
inductive TaskEvent where
  /-- `createTaskSet` is called. -/
  | createTaskSet (ctx : TenantContext) (input : CreateTaskSetInput)
  /-- `createTask` is called. -/
  | createTask (ctx : TenantContext) (input : CreateTaskInput)
  /-- A call is resumed. -/
  | resume (i : ℕ)
  /-- Time passes. -/
  | tick (now : TimeValue)

/-- The event as one of the pool. -/
def TaskEvent.toAsync : TaskEvent → Async.Event TaskStores TaskPoint TaskAnswer
  | createTaskSet ctx input => .spawn do
    let r ← Task.await .createSet (InMemoryTaskStore.createTaskSet ctx input)
    return .setCreated r
  | createTask ctx input => .spawn do
    let r ← InMemoryTaskStore.createTask ctx input
    return .taskCreated r
  | resume i => .resume i
  | tick now => .other fun s => { s with clock := now }

namespace TaskServer

/-- An empty store. -/
def start (clock : TimeValue) : TaskServer := ⟨⟨[], [], clock⟩, []⟩

/-- One step. -/
def step (server : TaskServer) (e : TaskEvent) : TaskServer := Pool.step server e.toAsync

/-- The store after a list of events. -/
def run (server : TaskServer) (events : List TaskEvent) : TaskServer := events.foldl step server

/-- A run in two parts. -/
theorem run_concat (server : TaskServer) (events more : List TaskEvent) :
    server.run (events ++ more) = (server.run events).run more := List.foldl_append

section symbolic

variable {s s' : TaskStores} {ts : List (Task TaskStores TaskPoint TaskAnswer)}
  {t t' : Task TaskStores TaskPoint TaskAnswer} {events : List TaskEvent}

/-- A run that begins with a call. -/
theorem run_spawn {e : TaskEvent} (h : e.toAsync = .spawn t) :
    run ⟨s, ts⟩ (e :: events) = run ⟨s, ts ++ [t]⟩ events := by
  rw [run, List.foldl_cons, step, h]
  rfl

/-- A run in which a call is resumed first. -/
theorem run_resume {i : ℕ} (hi : ts[i]? = some t) (h : t.resume s = (t', s')) :
    run ⟨s, ts⟩ (.resume i :: events) = run ⟨s', ts.set i t'⟩ events := by
  rw [run, List.foldl_cons, step, TaskEvent.toAsync, Pool.step_resume_of hi h]
  rfl

end symbolic

/-- A `createTask` has returned a record. -/
def Created (server : TaskServer) (i : ℕ) (task : TaskRecord) : Prop :=
  server.tasks[i]? = some (.done (.taskCreated (.ok task)))

end TaskServer

end AgentEval.Tasks
