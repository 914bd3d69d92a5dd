import AgentEval.Async.Phases
import AgentEval.Store.RunTasks

/-!
# Claiming runs

Any number of workers call `claimNext` while runs are created, cancelled and finished and while
machines are recorded. `claimNext` reads and writes in one operation; `setStatus` writes over a
record it has read before, which may be a record of a run that was still queued.

A write never puts a run back into the queue, and it keeps the place of the run in the map and the
time of its creation. So the queue is the map in the order of creation, and what is claimed leaves
it for good.

* **`claimed_once`**: no run is claimed twice, and every claim takes the run that was created first
  among those in the queue.
-/

namespace AgentEval.Store

open Js Evidence Async

/-! ## The map of the runs -/

namespace InMemoryRunStore

variable {runs runs' : List (JsString × RunRecord)} {id : JsString} {r : RunRecord}

/-- A run is stored and waits for a worker. -/
def IsQueued (runs : List (JsString × RunRecord)) (id : JsString) : Prop :=
  ∃ r, runs.lookup id = some r ∧ r.status = .queued

/-- The runs in the order of the map, with the times of their creation. -/
def places (runs : List (JsString × RunRecord)) : List (JsString × TimeValue) :=
  runs.map fun p => (p.1, p.2.createdAt)

/-- A run is stored when it has a place. -/
theorem exists_lookup_iff_mem_places :
    (∃ r, runs.lookup id = some r) ↔ ∃ createdAt, (id, createdAt) ∈ places runs := by
  constructor
  · rintro ⟨r, hr⟩
    exact ⟨r.createdAt, List.mem_map_of_mem (mem_of_lookup hr)⟩
  · rintro ⟨createdAt, hmem⟩
    obtain ⟨p, hp, heq⟩ := List.mem_map.mp hmem
    cases hlookup : runs.lookup id with
    | some r => exact ⟨r, rfl⟩
    | none =>
      have hne := List.lookup_eq_none_iff.mp hlookup p hp
      have hfst : p.1 = id := congrArg Prod.fst heq
      simp [hfst] at hne

/-- A run that is stored has a place. -/
theorem mem_places (h : runs.lookup id = some r) : (id, r.createdAt) ∈ places runs :=
  List.mem_map_of_mem (mem_of_lookup h)

/-- A run that is not stored yet goes to the end of the map. -/
theorem places_setProp_of_lookup_none (h : runs.lookup id = none) :
    places (setProp runs (id, r)) = places runs ++ [(id, r.createdAt)] := by
  have hnot : id ∉ runs.map Prod.fst := by
    intro hmem
    obtain ⟨p, hp, heq⟩ := List.mem_map.mp hmem
    have hne := List.lookup_eq_none_iff.mp h p hp
    rw [heq] at hne
    simp at hne
  rw [setProp, if_neg hnot, places, List.map_append]
  rfl

/-- A run that is stored keeps its place. -/
theorem places_setProp (hkeyed : Keyed runs) (h : (id, r.createdAt) ∈ places runs) :
    places (setProp runs (id, r)) = places runs := by
  obtain ⟨old, hold⟩ := exists_lookup_iff_mem_places.mpr ⟨_, h⟩
  rw [setProp, if_pos (List.mem_map_of_mem (mem_of_lookup hold)), places, places, List.map_map]
  refine List.map_congr_left fun p hp => ?_
  by_cases hid : p.1 = id
  · obtain ⟨q, hq, heq⟩ := List.mem_map.mp h
    have hpq : p.2 = q.2 := by
      have hlookup := lookup_eq_some_of_mem hkeyed.distinct hq
      rw [congrArg Prod.fst heq, ← hid, lookup_eq_some_of_mem hkeyed.distinct hp] at hlookup
      exact Option.some.inj hlookup
    have hcreated : q.2.createdAt = r.createdAt := congrArg Prod.snd heq
    simp [hid, hpq, hcreated]
  · simp [hid]

/-- What every operation on stored runs does: it keeps their places and puts none into the queue. -/
structure Rewrites (runs runs' : List (JsString × RunRecord)) : Prop where
  keyed : Keyed runs'
  places_eq : places runs' = places runs
  queued : ∀ id, IsQueued runs' id → IsQueued runs id

/-- Nothing is written. -/
theorem Rewrites.refl (h : Keyed runs) : Rewrites runs runs := ⟨h, rfl, fun _ hid => hid⟩

/-- **Writing over a stored run** with one that was created when it was. -/
theorem Rewrites.setProp (h : Keyed runs) (hid : r.id = id)
    (hplace : (id, r.createdAt) ∈ places runs) (hqueued : r.status = .queued → IsQueued runs id) :
    Rewrites runs (setProp runs (id, r)) := by
  refine ⟨h.setProp hid, places_setProp h hplace, fun id' hid' => ?_⟩
  obtain ⟨r', hr', hstatus⟩ := hid'
  rw [lookup_setProp] at hr'
  split_ifs at hr' with hkey
  · rw [hkey]
    obtain rfl : r = r' := Option.some.inj hr'
    exact hqueued hstatus
  · exact ⟨r', hr', hstatus⟩

/-- What `claimNext` returns and stores for the run it takes.
Source: `store/index.ts`, `InMemoryRunStore.claimNext` -/
def claimed (workerId : JsString) (now : TimeValue) (next : RunRecord) : RunRecord :=
  { next with
    status := .running
    claimedBy := some workerId
    claimedAt := some now
    startedAt := some now }

/-- A claim. -/
theorem claimNext_eq {workerId : JsString} {now : TimeValue} {next : RunRecord}
    (h : nextQueued runs = some next) :
    claimNext workerId now runs = (some (claimed workerId now next),
      Js.setProp runs (next.id, claimed workerId now next)) := by
  rw [claimNext, h]
  rfl

/-- Nothing to claim. -/
theorem claimNext_of_none {workerId : JsString} {now : TimeValue} (h : nextQueued runs = none) :
    claimNext workerId now runs = (none, runs) := by
  rw [claimNext, h]

/-- A claim keeps the places, and what is claimed leaves the queue. -/
theorem rewrites_claimNext (hkeyed : Keyed runs) (workerId : JsString) (now : TimeValue) :
    Rewrites runs (claimNext workerId now runs).2 ∧
      ∀ q, (claimNext workerId now runs).1 = some q →
        (∃ next, nextQueued runs = some next ∧ q = claimed workerId now next) ∧
          ¬ IsQueued (claimNext workerId now runs).2 q.id := by
  cases hnext : nextQueued runs with
  | none =>
    rw [claimNext_of_none hnext]
    exact ⟨.refl hkeyed, by simp⟩
  | some next =>
    rw [claimNext_eq hnext]
    obtain ⟨hlookup, -⟩ := hkeyed.lookup_nextQueued hnext
    have hplace : (next.id, next.createdAt) ∈ places runs := mem_places hlookup
    refine ⟨.setProp hkeyed rfl hplace (by simp [claimed]), ?_⟩
    rintro q ⟨⟩
    refine ⟨⟨next, rfl, rfl⟩, ?_⟩
    rintro ⟨r', hr', hstatus⟩
    rw [lookup_setProp, if_pos (show (claimed workerId now next).id = next.id from rfl)] at hr'
    obtain rfl : claimed workerId now next = r' := Option.some.inj hr'
    cases hstatus

/-- Recording a machine keeps the places and the queue. -/
theorem rewrites_setEnvironment (hkeyed : Keyed runs) (id : JsString) (environment : PlainObject) :
    Rewrites runs (setEnvironment id environment runs) := by
  rw [setEnvironment]
  split
  · exact .refl hkeyed
  · rename_i r hr
    have hid : r.id = id := hkeyed.id_of_lookup hr
    have hplace : (id, r.createdAt) ∈ places runs := mem_places hr
    exact .setProp hkeyed hid hplace fun hqueued => ⟨r, hr, hqueued⟩

/-- Recording an outcome keeps the places and the queue. -/
theorem rewrites_finish (hkeyed : Keyed runs) (id : JsString) (status : Outcome)
    (reason : Option JsString) (now : TimeValue) :
    Rewrites runs (finish id status reason now runs).2 := by
  rw [finish]
  split
  · exact .refl hkeyed
  · rename_i r hr
    have hid : r.id = id := hkeyed.id_of_lookup hr
    have hplace : (id, r.createdAt) ∈ places runs := mem_places hr
    refine .setProp hkeyed hid hplace fun hqueued => ?_
    cases status <;> cases hqueued

/-- Where the map is in the order of creation, the queue is: every other queued run comes after the
one that is claimed next. -/
theorem exists_of_nextQueued {R : JsString × TimeValue → JsString × TimeValue → Prop}
    (hkeyed : Keyed runs)
    (h : (places runs).Pairwise fun x y => R x y ∧ x.2.ms ≤ y.2.ms) {next q : RunRecord}
    (hnext : nextQueued runs = some next) (hq : runs.lookup id = some q)
    (hqueued : q.status = .queued) (hne : id ≠ next.id) :
    R (next.id, next.createdAt) (id, q.createdAt) := by
  have hpairs : runs.Pairwise fun x y =>
      R (x.1, x.2.createdAt) (y.1, y.2.createdAt) ∧ x.2.createdAt.ms ≤ y.2.createdAt.ms :=
    List.pairwise_map.mp h
  have hqueue : ((runs.map Prod.snd).filter fun r => decide (r.status = .queued)).Pairwise
      fun a b => R (a.id, a.createdAt) (b.id, b.createdAt) ∧ a.createdAt.ms ≤ b.createdAt.ms := by
    refine List.Pairwise.filter _ (List.pairwise_map.mpr ?_)
    refine hpairs.imp_of_mem fun {x y} hx hy hxy => ?_
    rw [hkeyed.id_eq x hx, hkeyed.id_eq y hy]
    exact hxy
  have hsorted := List.Pairwise.insertionSort_eq (hqueue.imp fun hab => hab.2)
  rw [nextQueued, hsorted] at hnext
  have hmem : q ∈ (runs.map Prod.snd).filter fun r => decide (r.status = .queued) :=
    List.mem_filter.mpr ⟨List.mem_map_of_mem (mem_of_lookup hq), decide_eq_true hqueued⟩
  have hid : q.id = id := hkeyed.id_of_lookup hq
  cases hfilter : (runs.map Prod.snd).filter fun r => decide (r.status = .queued) with
  | nil =>
    rw [hfilter] at hmem
    exact absurd hmem List.not_mem_nil
  | cons first rest =>
    rw [hfilter] at hnext hmem hqueue
    obtain rfl : first = next := Option.some.inj hnext
    rcases List.mem_cons.mp hmem with rfl | hrest
    · exact absurd hid.symm hne
    · have hrel := (List.pairwise_cons.mp hqueue).1 q hrest
      rw [hid] at hrel
      exact hrel.1

end InMemoryRunStore

/-! ## The system -/

/-- A call of the run store that works on stored runs. -/
inductive StoreCall where
  /-- `setStatus` with the status of a run that is called off. -/
  | cancel (ctx : TenantContext) (id : JsString)
  /-- `setEnvironment` -/
  | setEnvironment (id : JsString) (environment : PlainObject)
  /-- `claimNext` -/
  | claimNext (workerId : JsString)
  /-- `finish` -/
  | finish (id : JsString) (status : Outcome) (reason : Option JsString)

/-- The task of a call; it returns the call with its result. -/
def StoreCall.task : StoreCall → Task Stores RunPoint (StoreCall × Option RunRecord)
  | cancel ctx id => do
    let r ← setStatus ctx id .cancelled
    return (cancel ctx id, r)
  | setEnvironment id environment => do
    Store.setEnvironment id environment
    return (setEnvironment id environment, none)
  | claimNext workerId => do
    let r ← Store.claimNext workerId
    return (claimNext workerId, r)
  | finish id status reason => do
    let r ← Store.finish id status reason
    return (finish id status reason, r)

/-- The stores, with the calls on their way or done. -/
abbrev RunQueue := Pool Stores RunPoint (StoreCall × Option RunRecord)

/-- What can happen next. -/
inductive QueueEvent where
  /-- A run is created: it is queued, and created now. -/
  | create (ctx : TenantContext) (run : RunRecord)
  /-- A call arrives. -/
  | call (c : StoreCall)
  /-- A call is resumed. -/
  | resume (i : ℕ)
  /-- Whatever else is shared changes. -/
  | others (audit : AuditLog) (bundles : List (JsString × BundleRecord)) (clock : TimeValue)
    (idCounter : ℕ)

/-- The event as one of the pool. -/
def QueueEvent.toAsync : QueueEvent → Async.Event Stores RunPoint (StoreCall × Option RunRecord)
  | create ctx run => .other fun s =>
    { s with runs := (InMemoryRunStore.create ctx
        { run with status := .queued, createdAt := s.clock } s.runs).2 }
  | call c => .spawn c.task
  | resume i => .resume i
  | others audit bundles clock idCounter =>
    .other fun s => ⟨audit, s.runs, bundles, clock, idCounter⟩

namespace RunQueue

/-- Stores with no runs. -/
def start (clock : TimeValue) : RunQueue := ⟨⟨.new, [], [], clock, 0⟩, []⟩

/-- The stores after a list of events. -/
def run (queue : RunQueue) (events : List QueueEvent) : RunQueue :=
  events.foldl (fun q e => Pool.step q e.toAsync) queue

/-- One event more. -/
theorem run_concat (queue : RunQueue) (events : List QueueEvent) (e : QueueEvent) :
    queue.run (events ++ [e]) = Pool.step (queue.run events) e.toAsync := by
  rw [run, List.foldl_append]
  rfl

end RunQueue

/-- A new run gets a fresh identifier, and the clock does not go back. -/
def Orderly (queue : RunQueue) : QueueEvent → Prop
  | .create _ run => queue.shared.runs.lookup run.id = none
  | .others _ _ clock _ => queue.shared.clock.ms ≤ clock.ms
  | _ => True

/-- At some time in the run the first of two runs was stored and the second was not. -/
def CreatedBefore (clock : TimeValue) (events : List QueueEvent) (first second : JsString) : Prop :=
  ∃ past later, events = past ++ later ∧
    (∃ r, ((RunQueue.start clock).run past).shared.runs.lookup first = some r) ∧
    ((RunQueue.start clock).run past).shared.runs.lookup second = none

/-! ## What the calls do -/

/-- What a call has done so far. -/
inductive ClaimPhase where
  /-- It has claimed nothing and holds no record. -/
  | idle
  /-- It is about to write over a record that was created then. -/
  | writing (id : JsString) (createdAt : TimeValue)
  /-- It has claimed a run. -/
  | claimed (r : RunRecord)

open InMemoryRunStore

/-- What an operation of a call does. -/
structure ClaimStep (phase : ClaimPhase) (point : RunPoint) (update : Stores → Stores) (s : Stores)
    (phase' : ClaimPhase) : Prop where
  /-- A call that has claimed a run is done. -/
  unclaimed : ∀ r, phase ≠ .claimed r
  clock : (update s).clock = s.clock
  rewrites : (∀ id createdAt, phase = .writing id createdAt → (id, createdAt) ∈ places s.runs) →
    Rewrites s.runs (update s).runs
  writing : ∀ id createdAt, phase' = .writing id createdAt → (id, createdAt) ∈ places s.runs
  claimed : ∀ r, phase' = .claimed r →
    (∃ workerId next, nextQueued s.runs = some next ∧ r = claimed workerId s.clock next) ∧
      ¬ IsQueued (update s).runs r.id

/-- A call that is done has claimed what it returns. -/
def ClaimDone (phase : ClaimPhase) (result : StoreCall × Option RunRecord) : Prop :=
  ∀ workerId r, result = (.claimNext workerId, some r) →
    phase = .claimed r ∧ r.claimedBy = some workerId

/-- The runs are stored under their identifiers. -/
def KeyedStores (s : Stores) : Prop := Keyed s.runs

/-- A call follows the script from a phase. -/
abbrev Claims (phase : ClaimPhase) (t : Task Stores RunPoint (StoreCall × Option RunRecord)) : Prop :=
  t.Follows KeyedStores ClaimStep ClaimDone phase

/-- An operation that claims nothing and keeps nothing in mind. -/
theorem ClaimStep.idle {point : RunPoint} {update : Stores → Stores} {s : Stores}
    (hclock : (update s).clock = s.clock) (h : Rewrites s.runs (update s).runs) :
    ClaimStep .idle point update s .idle :=
  ⟨by simp, hclock, fun _ => h, by simp, by simp⟩

/-- A call that returns no claim. -/
theorem claimDone_idle {result : StoreCall × Option RunRecord}
    (h : ∀ workerId r, result ≠ (.claimNext workerId, some r)) : ClaimDone .idle result :=
  fun workerId r heq => absurd heq (h workerId r)

/-- The read and the write of a cancel request. -/
theorem claims_cancel (ctx : TenantContext) (id : JsString) :
    Claims .idle (StoreCall.cancel ctx id).task := by
  have hdone : ∀ result, ClaimDone .idle (StoreCall.cancel ctx id, result) := by
    intro result
    exact claimDone_idle (by simp)
  unfold StoreCall.task setStatus
  dsimp only
  rw [Task.bind_assoc]
  refine Task.Follows.await fun s hs => ?_
  cases hget : InMemoryRunStore.get ctx id s.runs with
  | none => exact ⟨.idle, .idle rfl (.refl hs), hdone none⟩
  | some r =>
    have hlookup : s.runs.lookup id = some r := Option.eq_some_of_filter_eq_some hget
    have hid : r.id = id := Keyed.id_of_lookup hs hlookup
    refine ⟨.writing id r.createdAt, ⟨by simp, rfl, fun _ => .refl hs, ?_, by simp⟩, ?_⟩
    · rintro _ _ ⟨⟩
      exact mem_places hlookup
    · -- the write: whatever happened to the run since, it is still where it was created
      refine Task.Follows.await fun t ht => ⟨.idle, ⟨by simp, rfl, fun h => ?_, by simp, by simp⟩,
        hdone _⟩
      exact Rewrites.setProp ht hid (h id r.createdAt rfl) (by simp [withStatus])

/-- The calls follow the script. -/
theorem claims_task (c : StoreCall) : Claims .idle c.task := by
  cases c with
  | cancel ctx id => exact claims_cancel ctx id
  | setEnvironment id environment =>
    refine Task.Follows.await fun s hs => ⟨.idle, .idle rfl ?_, claimDone_idle (by simp)⟩
    exact rewrites_setEnvironment hs id environment
  | finish id status reason =>
    refine Task.Follows.await fun s hs => ⟨.idle, .idle rfl ?_, claimDone_idle (by simp)⟩
    exact rewrites_finish hs id status reason s.clock
  | claimNext workerId =>
    refine Task.Follows.await fun s hs => ?_
    obtain ⟨hrewrites, hclaimed⟩ := rewrites_claimNext hs workerId s.clock
    cases hresult : (s.claimNext workerId).1 with
    | none => exact ⟨.idle, .idle rfl hrewrites, claimDone_idle (by simp)⟩
    | some r =>
      obtain ⟨⟨next, hnext, hr⟩, hgone⟩ := hclaimed r hresult
      refine ⟨.claimed r, ⟨by simp, rfl, fun _ => hrewrites, by simp, ?_⟩, ?_⟩
      · rintro _ ⟨⟩
        exact ⟨⟨workerId, next, hnext, hr⟩, hgone⟩
      · rintro _ _ ⟨⟩
        exact ⟨rfl, by rw [hr]; rfl⟩

/-! ## Runs of the system -/

/-- What holds after a run: the map is in the order of creation, a record that is about to be
written has the place of its run, and what has been claimed is out of the queue. -/
structure InOrder (clock : TimeValue) (past : List QueueEvent) (phases : List ClaimPhase)
    (s : Stores) : Prop where
  keyed : KeyedStores s
  ordered : (places s.runs).Pairwise fun x y => CreatedBefore clock past x.1 y.1 ∧ x.2.ms ≤ y.2.ms
  created : ∀ x ∈ places s.runs, x.2.ms ≤ s.clock.ms
  writing : ∀ id createdAt, .writing id createdAt ∈ phases → (id, createdAt) ∈ places s.runs
  claimed : ∀ r, .claimed r ∈ phases → (∃ createdAt, (r.id, createdAt) ∈ places s.runs) ∧
    ¬ IsQueued s.runs r.id
  once : ∀ (i j : ℕ) (r r' : RunRecord), phases[i]? = some (.claimed r) →
    phases[j]? = some (.claimed r') → r.id = r'.id → i = j

section runs

variable {clock : TimeValue} {past : List QueueEvent} {queue : RunQueue}
  {phases : List ClaimPhase} {s : Stores} {first second : JsString}

/-- What was created before stays so. -/
theorem CreatedBefore.concat (h : CreatedBefore clock past first second) (e : QueueEvent) :
    CreatedBefore clock (past ++ [e]) first second := by
  obtain ⟨before, later, rfl, hfirst, hsecond⟩ := h
  exact ⟨before, later ++ [e], List.append_assoc .., hfirst, hsecond⟩

/-- An event that changes neither runs nor phases. -/
theorem InOrder.concat (h : InOrder clock past phases s) (e : QueueEvent) {s' : Stores}
    (hruns : s'.runs = s.runs) (hclock : s.clock.ms ≤ s'.clock.ms) :
    InOrder clock (past ++ [e]) phases s' := by
  obtain ⟨hkeyed, hordered, hcreated, hwriting, hclaimed, honce⟩ := h
  have hkeyed' : KeyedStores s' := by rwa [KeyedStores, hruns]
  rw [← hruns] at hordered hcreated hwriting hclaimed
  exact ⟨hkeyed', hordered.imp fun hxy => ⟨hxy.1.concat e, hxy.2⟩,
    fun x hx => (hcreated x hx).trans hclock, hwriting, hclaimed, honce⟩

/-- A new call. -/
theorem InOrder.call (h : InOrder clock past phases s) (e : QueueEvent) :
    InOrder clock (past ++ [e]) (phases ++ [.idle]) s := by
  obtain ⟨hkeyed, hordered, hcreated, hwriting, hclaimed, honce⟩ := h.concat e rfl le_rfl
  have hmem : ∀ phase ∈ phases ++ [ClaimPhase.idle], phase ≠ .idle → phase ∈ phases := by
    intro phase hphase hne
    rcases List.mem_append.mp hphase with hphase | hphase
    · exact hphase
    · exact absurd (List.mem_singleton.mp hphase) hne
  have hget : ∀ (i : ℕ) (r : RunRecord), (phases ++ [ClaimPhase.idle])[i]? = some (ClaimPhase.claimed r) →
      phases[i]? = some (ClaimPhase.claimed r) := by
    intro i r hi
    rw [List.getElem?_append] at hi
    split_ifs at hi with hlt
    · exact hi
    · have hsingle := List.mem_of_getElem? hi
      simp at hsingle
  refine ⟨hkeyed, hordered, hcreated, ?_, ?_, ?_⟩
  · exact fun id createdAt hphase => hwriting id createdAt (hmem _ hphase (by simp))
  · exact fun r hphase => hclaimed r (hmem _ hphase (by simp))
  · exact fun i j r r' hi hj => honce i j r r' (hget i r hi) (hget j r' hj)

/-- A new run. -/
theorem InOrder.create (h : InOrder clock past phases ((RunQueue.start clock).run past).shared)
    (e : QueueEvent) {r : RunRecord}
    (hfresh : ((RunQueue.start clock).run past).shared.runs.lookup r.id = none)
    (hat : r.createdAt = ((RunQueue.start clock).run past).shared.clock)
    (hclock : s.clock = ((RunQueue.start clock).run past).shared.clock)
    (hruns : s.runs = setProp ((RunQueue.start clock).run past).shared.runs (r.id, r)) :
    InOrder clock (past ++ [e]) phases s := by
  obtain ⟨hkeyed, hordered, hcreated, hwriting, hclaimed, honce⟩ := h.concat e rfl le_rfl
  have hbefore : ∀ x ∈ places ((RunQueue.start clock).run past).shared.runs,
      CreatedBefore clock (past ++ [e]) x.1 r.id := fun x hx =>
    ⟨past, [e], rfl, exists_lookup_iff_mem_places.mpr ⟨x.2, hx⟩, hfresh⟩
  generalize ((RunQueue.start clock).run past).shared = queue at *
  have hplaces : places s.runs = places queue.runs ++ [(r.id, queue.clock)] := by
    rw [hruns, places_setProp_of_lookup_none hfresh, hat]
  refine ⟨?_, ?_, ?_, ?_, ?_, honce⟩
  · rw [KeyedStores, hruns]
    exact hkeyed.setProp rfl
  · rw [hplaces, List.pairwise_append]
    refine ⟨hordered, List.pairwise_singleton _ _, fun x hx y hy => ?_⟩
    rw [List.mem_singleton.mp hy]
    exact ⟨hbefore x hx, hcreated x hx⟩
  · rw [hplaces, hclock]
    intro x hx
    rcases List.mem_append.mp hx with hx | hx
    · exact hcreated x hx
    · rw [List.mem_singleton.mp hx]
  · intro id createdAt hphase
    rw [hplaces]
    exact List.mem_append_left _ (hwriting id createdAt hphase)
  · intro q hphase
    obtain ⟨⟨createdAt, hplace⟩, hgone⟩ := hclaimed q hphase
    rw [hplaces]
    refine ⟨⟨createdAt, List.mem_append_left _ hplace⟩, ?_⟩
    rintro ⟨q', hq', hstatus⟩
    have hne : q.id ≠ r.id := by
      intro heq
      obtain ⟨old, hold⟩ := exists_lookup_iff_mem_places.mpr ⟨createdAt, hplace⟩
      rw [heq, hfresh] at hold
      cases hold
    rw [hruns, lookup_setProp, if_neg hne] at hq'
    exact hgone ⟨q', hq', hstatus⟩

/-- An operation of a call. -/
theorem InOrder.operation (h : InOrder clock past phases s) (e : QueueEvent) {i : ℕ}
    {phase phase' : ClaimPhase} {point : RunPoint} {update : Stores → Stores}
    (hi : phases[i]? = some phase) (hop : ClaimStep phase point update s phase') :
    InOrder clock (past ++ [e]) (phases.set i phase') (update s) := by
  obtain ⟨hkeyed, hordered, hcreated, hwriting, hclaimed, honce⟩ := h
  obtain ⟨hkeyed', hplaces, hqueued⟩ := hop.rewrites fun id createdAt heq =>
    hwriting id createdAt (heq ▸ List.mem_of_getElem? hi)
  have hmem : ∀ p ∈ phases.set i phase', p ≠ phase' → p ∈ phases := fun p hp hne =>
    (List.mem_or_eq_of_mem_set hp).resolve_right hne
  have hgone : ∀ r, .claimed r ∈ phases.set i phase' → phase' ≠ .claimed r →
      (∃ createdAt, (r.id, createdAt) ∈ places s.runs) ∧ ¬ IsQueued s.runs r.id :=
    fun r hr hne => hclaimed r (hmem _ hr hne.symm)
  -- a run that is claimed now is in the queue, where no run is that was claimed before
  have hother : ∀ (j k : ℕ) (r r' : RunRecord), (phases.set i phase')[j]? = some (.claimed r) →
      (phases.set i phase')[k]? = some (.claimed r') → r.id = r'.id → j = i → k = i := by
    intro j k r r' hj hk hid hji
    by_contra hki
    subst hji
    rw [List.getElem?_set_self (List.getElem?_eq_some_iff.mp hi).1, Option.some.injEq] at hj
    rw [List.getElem?_set_ne (Ne.symm hki)] at hk
    obtain ⟨⟨_, next, hnext, rfl⟩, -⟩ := hop.claimed r hj
    obtain ⟨hlookup, hstatus⟩ := Keyed.lookup_nextQueued hkeyed hnext
    refine (hclaimed r' (List.mem_of_getElem? hk)).2 ?_
    rw [← hid]
    exact ⟨next, hlookup, hstatus⟩
  refine ⟨hkeyed', ?_, ?_, ?_, ?_, ?_⟩
  · rw [hplaces]
    exact hordered.imp fun hxy => ⟨hxy.1.concat e, hxy.2⟩
  · rw [hplaces, hop.clock]
    exact hcreated
  · intro id createdAt hp
    rw [hplaces]
    by_cases heq : phase' = .writing id createdAt
    · exact hop.writing id createdAt heq
    · exact hwriting id createdAt (hmem _ hp (Ne.symm heq))
  · intro r hr
    rw [hplaces]
    by_cases heq : phase' = .claimed r
    · obtain ⟨⟨_, next, hnext, rfl⟩, hout⟩ := hop.claimed r heq
      exact ⟨⟨_, mem_places (Keyed.lookup_nextQueued hkeyed hnext).1⟩, hout⟩
    · obtain ⟨hplace, hout⟩ := hgone r hr heq
      exact ⟨hplace, fun h => hout (hqueued _ h)⟩
  · intro j k r r' hj hk hid
    by_cases hji : j = i
    · rw [hji, hother j k r r' hj hk hid hji]
    · by_cases hki : k = i
      · exact absurd (hother k j r' r hk hj hid.symm hki) hji
      · rw [List.getElem?_set_ne (Ne.symm hji)] at hj
        rw [List.getElem?_set_ne (Ne.symm hki)] at hk
        exact honce j k r r' hj hk hid

/-- **What one step keeps.** -/
theorem InOrder.step {queue : RunQueue} (hqueue : queue = (RunQueue.start clock).run past)
    (hfollows : queue.Follows KeyedStores ClaimStep ClaimDone phases)
    (h : InOrder clock past phases queue.shared) {e : QueueEvent} (he : Orderly queue e) :
    ∃ phases', (Pool.step queue e.toAsync).Follows KeyedStores ClaimStep ClaimDone phases' ∧
      InOrder clock (past ++ [e]) phases' (Pool.step queue e.toAsync).shared := by
  have hsame : InOrder clock (past ++ [e]) phases queue.shared := h.concat e rfl le_rfl
  refine hfollows.step (J := InOrder clock (past ++ [e])) hsame (fun _ _ => h.keyed) ?_ ?_ ?_
  · exact fun i phase phase' point update next _ _ hi hop _ => h.operation e hi hop
  · intro t ht
    cases e with
    | call c =>
      cases ht
      exact ⟨.idle, claims_task c, h.call _⟩
    | create ctx run => cases ht
    | resume i => cases ht
    | others audit bundles clock idCounter => cases ht
  · intro update hupdate
    cases e with
    | create ctx run =>
      cases hupdate
      subst hqueue
      exact h.create (r := (InMemoryRunStore.create ctx { run with
        status := .queued
        createdAt := ((RunQueue.start clock).run past).shared.clock } []).1) _ he rfl rfl rfl
    | others audit bundles clock idCounter =>
      cases hupdate
      exact h.concat _ rfl he
    | call c => cases hupdate
    | resume i => cases hupdate

/-- **What a whole run keeps.** -/
theorem exists_inOrder (clock : TimeValue) (events : List QueueEvent)
    (hevents : ∀ past e later, events = past ++ e :: later →
      Orderly ((RunQueue.start clock).run past) e) :
    ∃ phases, ((RunQueue.start clock).run events).Follows KeyedStores ClaimStep ClaimDone phases ∧
      InOrder clock events phases ((RunQueue.start clock).run events).shared := by
  induction events using List.reverseRecOn with
  | nil =>
    refine ⟨[], .nil, ⟨⟨List.nodup_nil, List.forall_mem_nil _⟩, .nil, List.forall_mem_nil _, ?_, ?_,
      ?_⟩⟩
    all_goals simp
  | append_singleton events e ih =>
    obtain ⟨phases, hfollows, h⟩ := ih fun past e' later heq =>
      hevents past e' (later ++ [e]) (by rw [heq, List.append_assoc, List.cons_append])
    rw [RunQueue.run_concat]
    exact h.step rfl hfollows (hevents events e [] rfl)

/-- **Every run is claimed at most once**, and every claim takes the run that was created first
among those in the queue. -/
theorem claimed_once (clock : TimeValue) (events : List QueueEvent)
    (hevents : ∀ past e later, events = past ++ e :: later →
      Orderly ((RunQueue.start clock).run past) e) :
    (∀ (i j : ℕ) (w w' : JsString) (r r' : RunRecord),
      ((RunQueue.start clock).run events).tasks[i]? = some (.done (.claimNext w, some r)) →
      ((RunQueue.start clock).run events).tasks[j]? = some (.done (.claimNext w', some r')) →
      r.id = r'.id → i = j) ∧
    ∀ (past : List QueueEvent) (i : ℕ) (later : List QueueEvent) t (w : JsString) (r : RunRecord),
      events = past ++ .resume i :: later →
      ((RunQueue.start clock).run past).tasks[i]? = some t → t.result? = none →
      ((RunQueue.start clock).run (past ++ [.resume i])).tasks[i]? =
        some (.done (.claimNext w, some r)) →
      ∃ q, ((RunQueue.start clock).run past).shared.runs.lookup r.id = some q ∧
        q.status = .queued ∧
        r = claimed w ((RunQueue.start clock).run past).shared.clock q ∧
        ∀ id q', ((RunQueue.start clock).run past).shared.runs.lookup id = some q' →
          q'.status = .queued → id ≠ r.id → CreatedBefore clock past r.id id := by
  constructor
  · intro i j w w' r r' hi hj hid
    obtain ⟨phases, hfollows, h⟩ := exists_inOrder clock events hevents
    obtain ⟨phase, hphase, hdone⟩ := hfollows.getElem? hi
    obtain ⟨phase', hphase', hdone'⟩ := hfollows.getElem? hj
    obtain ⟨rfl, -⟩ := hdone w r rfl
    obtain ⟨rfl, -⟩ := hdone' w' r' rfl
    exact h.once i j r r' hphase hphase' hid
  · rintro past i later t w r rfl ht hwaits hresult
    obtain ⟨phases, hfollows, h⟩ := exists_inOrder clock past fun before e after heq =>
      hevents before e (after ++ .resume i :: later) (by rw [heq]; simp)
    obtain ⟨phase, -, hfollow⟩ := hfollows.getElem? ht
    cases t with
    | done a => cases hwaits
    | call point update next =>
      obtain ⟨phase', hop, hnext⟩ := hfollow _ h.keyed
      rw [RunQueue.run_concat, QueueEvent.toAsync, Pool.step, ht] at hresult
      have hi := (List.getElem?_eq_some_iff.mp ht).1
      have hdone : next ((RunQueue.start clock).run past).shared =
          .done (.claimNext w, some r) := by
        rw [← Option.some.injEq, ← hresult]
        exact (List.getElem?_set_self hi).symm
      rw [hdone] at hnext
      obtain ⟨rfl, hworker⟩ := hnext w r rfl
      obtain ⟨⟨w', q, hq, rfl⟩, -⟩ := hop.claimed _ rfl
      obtain rfl : w' = w := Option.some.inj hworker
      obtain ⟨hlookup, hqueued⟩ := Keyed.lookup_nextQueued h.keyed hq
      refine ⟨q, hlookup, hqueued, rfl, fun id q' hq' hqueued' hne => ?_⟩
      exact exists_of_nextQueued (R := fun x y => CreatedBefore clock past x.1 y.1) h.keyed
        h.ordered hq hq' hqueued' hne

end runs

/-- A run as it is created. -/
def newRun (id : JsString) : RunRecord where
  id := id
  tenantId := js "tenant"
  status := .queued
  manifest := .empty
  retentionRules := []
  createdAt := ⟨0, TimeValue.zero_inRange⟩
  startedAt := none
  completedAt := none
  claimedBy := none
  claimedAt := none
  failureReason := none
  credentialId := none
  executionEnvironment := none

/-- Two runs are created in the same millisecond. -/
def twoRuns : List QueueEvent :=
  [.create ⟨js "tenant", js "user", []⟩ (newRun (js "b")),
    .create ⟨js "tenant", js "user", []⟩ (newRun (js "a"))]

/-- Of two runs that are created in the same millisecond the first is claimed. -/
theorem claimed_once_first : CreatedBefore ⟨0, TimeValue.zero_inRange⟩
    (twoRuns ++ [.call (.claimNext (js "worker"))]) (js "b") (js "a") := by
  have hab : js "a" ≠ js "b" := by simp
  have hevents : ∀ past e later,
      twoRuns ++ [.call (.claimNext (js "worker"))] ++ [.resume 0] = past ++ e :: later →
        Orderly ((RunQueue.start ⟨0, TimeValue.zero_inRange⟩).run past) e := by
    refine forall_steps_cons rfl (forall_steps_cons ?_ (forall_steps_cons trivial
      (forall_steps_cons trivial fun _ _ _ h => absurd h (by simp))))
    change List.lookup (js "a") [(js "b", _)] = none
    rw [List.lookup_cons, beq_eq_false_iff_ne.mpr hab]
    rfl
  obtain ⟨q, -, -, -, hfirst⟩ := (claimed_once ⟨0, TimeValue.zero_inRange⟩ _ hevents).2
    (twoRuns ++ [.call (.claimNext (js "worker"))]) 0 [] _ (js "worker") _ rfl rfl rfl rfl
  exact hfirst (js "a") _ rfl rfl hab

end AgentEval.Store
