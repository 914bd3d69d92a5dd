import AgentEval.Async.Task
import AgentEval.Store.Pages

/-!
# `store/index.ts`: the runs in pages

The runs of a tenant are listed with the newest first, so a new run moves the others back, while a
cursor is an offset from the front.

* **`run_pages_iff`**: following the cursors to the end loses and repeats nothing exactly when every
  run that the tenant creates meanwhile is created in the same millisecond as at least as many runs
  as were read.
* **`run_pages_repeat`**: a run that is read twice.
-/

namespace AgentEval.Store

open Js Paging

namespace InMemoryRunStore

/-- The runs of a tenant, the newest first.
Source: `store/index.ts`, `InMemoryRunStore.list` -/
def newest (ctx : TenantContext) (runs : List (JsString × RunRecord)) : List RunRecord :=
  ((runs.map Prod.snd).filter fun r => decide (r.tenantId = ctx.tenantId)).insertionSort
    fun a b => b.createdAt.ms ≤ a.createdAt.ms

/-- Source: `store/index.ts`, `InMemoryRunStore.list` -/
def list (ctx : TenantContext) (cursor : Option JsString) (limit : Number)
    (runs : List (JsString × RunRecord)) : Page RunRecord :=
  paginate (newest ctx runs) cursor limit

/-- Set the status of a run of the caller's tenant.
Source: `store/index.ts`, `InMemoryRunStore.setStatus` -/
def setStatus (ctx : TenantContext) (id : JsString) (status : RunStatus) (now : TimeValue)
    (runs : List (JsString × RunRecord)) : Option RunRecord × List (JsString × RunRecord) :=
  match get ctx id runs with
  | none => (none, runs)
  | some r => (some (withStatus r status now), setProp runs (id, withStatus r status now))

/-! ## The order of the runs -/

/-- What no write over a run changes: its key, its identifier, its tenant and when it was created. -/
def place (p : JsString × RunRecord) : JsString × JsString × JsString × TimeValue :=
  (p.1, p.2.id, p.2.tenantId, p.2.createdAt)

section

variable {ctx : TenantContext} {runs runs' : List (JsString × RunRecord)} {id : JsString}
  {r r' : RunRecord}

/-- A sort by a time that a map keeps. -/
theorem map_insertionSort {α β : Type*} (f : α → β) (t : α → ℤ) (u : β → ℤ)
    (h : ∀ a, u (f a) = t a) (xs : List α) :
    (xs.insertionSort fun a b => t b ≤ t a).map f =
      (xs.map f).insertionSort fun a b => u b ≤ u a := by
  have hinsert : ∀ (a : α) (ys : List α), (ys.orderedInsert (fun a b => t b ≤ t a) a).map f =
      (ys.map f).orderedInsert (fun a b => u b ≤ u a) (f a) := by
    intro a ys
    induction ys with
    | nil => rfl
    | cons y ys ih =>
      rw [List.orderedInsert_cons, List.map_cons, List.orderedInsert_cons, h, h]
      split_ifs
      · rfl
      · rw [List.map_cons, ih]
  induction xs with
  | nil => rfl
  | cons a xs ih => rw [List.insertionSort_cons, hinsert, ih, List.map_cons, List.insertionSort_cons]

/-- **The order depends on the places only.** -/
theorem map_id_newest (h : runs'.map place = runs.map place) :
    (newest ctx runs').map (·.id) = (newest ctx runs).map (·.id) := by
  have hplace : ∀ runs : List (JsString × RunRecord), (newest ctx runs).map (·.id) =
      (((runs.map place).filter fun p => decide (p.2.2.1 = ctx.tenantId)).insertionSort
        fun p q => q.2.2.2.ms ≤ p.2.2.2.ms).map fun p => p.2.1 := by
    intro runs
    have hsnd := map_insertionSort Prod.snd (fun p : JsString × RunRecord => p.2.createdAt.ms)
      (fun r => r.createdAt.ms) (fun _ => rfl)
      (runs.filter fun p => decide (p.2.tenantId = ctx.tenantId))
    have hsorted := map_insertionSort place (fun p : JsString × RunRecord => p.2.createdAt.ms)
      (fun p => p.2.2.2.ms) (fun _ => rfl)
      (runs.filter fun p => decide (p.2.tenantId = ctx.tenantId))
    unfold newest
    rw [List.filter_map, List.filter_map (f := place)]
    refine (congrArg (List.map fun r : RunRecord => r.id) hsnd).symm.trans ?_
    refine Eq.trans ?_ (congrArg (List.map fun p => p.2.1) hsorted)
    rw [List.map_map, List.map_map]
    rfl
  rw [hplace, hplace, h]

/-- **An item that is put in last and is not the least** comes after those that are as great. -/
theorem insertionSort_concat {α : Type*} (t : α → ℤ) {a : α} {xs : List α}
    (h : ∀ x ∈ xs, t x ≤ t a) :
    ∃ front back, (xs.insertionSort fun a b => t b ≤ t a) = front ++ back ∧
      ((xs ++ [a]).insertionSort fun a b => t b ≤ t a) = front ++ a :: back ∧
      (∀ x ∈ front, t x = t a) ∧ ∀ x ∈ back, t x < t a := by
  have hfirst : ∀ (x : α) (ys : List α), (∀ y ∈ ys, t y ≤ t x) →
      ys.orderedInsert (fun a b => t b ≤ t a) x = x :: ys := by
    intro x ys hys
    cases ys with
    | nil => rfl
    | cons y ys => rw [List.orderedInsert_cons, if_pos (hys y (List.mem_cons_self ..))]
  have hskip : ∀ (x : α) (ys zs : List α), (∀ y ∈ ys, ¬ t y ≤ t x) →
      (ys ++ zs).orderedInsert (fun a b => t b ≤ t a) x =
        ys ++ zs.orderedInsert (fun a b => t b ≤ t a) x := by
    intro x ys zs hys
    induction ys with
    | nil => rfl
    | cons y ys ih =>
      rw [List.cons_append, List.orderedInsert_cons, if_neg (hys y (List.mem_cons_self ..)),
        ih fun z hz => hys z (List.mem_cons_of_mem y hz), List.cons_append]
  induction xs with
  | nil => exact ⟨[], [], rfl, rfl, List.forall_mem_nil _, List.forall_mem_nil _⟩
  | cons x xs ih =>
    obtain ⟨front, back, hsort, hsort', hfront, hback⟩ :=
      ih fun y hy => h y (List.mem_cons_of_mem x hy)
    rw [List.cons_append, List.insertionSort_cons, List.insertionSort_cons, hsort, hsort']
    rcases (h x (List.mem_cons_self ..)).eq_or_lt with heq | hlt
    · refine ⟨x :: front, back, hfirst x _ ?_, hfirst x _ ?_, ?_, hback⟩
      · intro y hy
        rw [heq]
        rcases List.mem_append.mp hy with hy | hy
        · exact (hfront y hy).le
        · exact (hback y hy).le
      · intro y hy
        rw [heq]
        rcases List.mem_append.mp hy with hy | hy
        · exact (hfront y hy).le
        · rcases List.mem_cons.mp hy with rfl | hy
          · exact le_rfl
          · exact (hback y hy).le
      · exact List.forall_mem_cons.mpr ⟨heq, hfront⟩
    · have hafter : ∀ y ∈ front, ¬ t y ≤ t x := by
        intro y hy
        rw [hfront y hy]
        exact not_le.mpr hlt
      refine ⟨front, back.orderedInsert (fun a b => t b ≤ t a) x, hskip x front back hafter, ?_,
        hfront, fun y hy => ?_⟩
      · rw [hskip x front (a :: back) hafter, List.orderedInsert_cons, if_neg (not_le.mpr hlt)]
      · rcases (List.mem_orderedInsert _).mp hy with rfl | hy
        · exact hlt
        · exact hback y hy

/-- How many runs of a tenant were created at a time. -/
def createdAt (ctx : TenantContext) (now : TimeValue) (runs : List (JsString × RunRecord)) : ℕ :=
  runs.countP fun p => p.2.tenantId = ctx.tenantId ∧ p.2.createdAt.ms = now.ms

/-- **A new run of the tenant** goes after the runs of the same time and before the others. -/
theorem map_id_newest_create (hfresh : r.id ∉ runs.map Prod.fst)
    (hlater : ∀ p ∈ runs, p.2.createdAt.ms ≤ r.createdAt.ms) (htenant : r.tenantId = ctx.tenantId) :
    ∃ front back, (newest ctx runs).map (·.id) = front ++ back ∧
      (newest ctx (setProp runs (r.id, r))).map (·.id) = front ++ r.id :: back ∧
      front.length = createdAt ctx r.createdAt runs := by
  have hsplit : ((setProp runs (r.id, r)).map Prod.snd).filter
      (fun r => decide (r.tenantId = ctx.tenantId)) =
      ((runs.map Prod.snd).filter fun r => decide (r.tenantId = ctx.tenantId)) ++ [r] := by
    rw [setProp_of_not_mem hfresh, List.map_append, List.filter_append, List.map_singleton,
      List.filter_cons_of_pos (by simpa using htenant), List.filter_nil]
  have hle : ∀ x ∈ (runs.map Prod.snd).filter fun r => decide (r.tenantId = ctx.tenantId),
      x.createdAt.ms ≤ r.createdAt.ms := by
    intro x hx
    obtain ⟨p, hp, rfl⟩ := List.mem_map.mp (List.mem_filter.mp hx).1
    exact hlater p hp
  obtain ⟨front, back, hsort, hsort', hfront, hback⟩ :=
    insertionSort_concat (fun r : RunRecord => r.createdAt.ms) hle
  refine ⟨front.map (·.id), back.map (·.id), ?_, ?_, ?_⟩
  · unfold newest
    rw [hsort, List.map_append]
  · unfold newest
    rw [hsplit, hsort', List.map_append, List.map_cons]
  · have hcount : createdAt ctx r.createdAt runs =
        (front ++ back).countP fun x => x.createdAt.ms = r.createdAt.ms := by
      rw [← hsort, (List.perm_insertionSort _ _).countP_eq, List.countP_filter, List.countP_map]
      unfold createdAt
      refine List.countP_congr fun p _ => ?_
      simp [and_comm]
    rw [hcount, List.countP_append, List.length_map, List.countP_eq_length.mpr fun x hx =>
      decide_eq_true (hfront x hx), List.countP_eq_zero.mpr fun x hx => ?_, add_zero]
    rw [decide_eq_true_iff]
    exact (hback x hx).ne

/-- A new run of another tenant is not listed. -/
theorem map_id_newest_other (hfresh : r.id ∉ runs.map Prod.fst) (htenant : r.tenantId ≠ ctx.tenantId) :
    (newest ctx (setProp runs (r.id, r))).map (·.id) = (newest ctx runs).map (·.id) := by
  unfold newest
  rw [setProp_of_not_mem hfresh, List.map_append, List.filter_append, List.map_singleton,
    List.filter_cons_of_neg (by simpa using htenant), List.filter_nil,
    List.append_nil]

end

end InMemoryRunStore

/-! ## The store while it is read -/

/-- The map of the runs and the clock. -/
structure RunStoreState where
  /-- The map. -/
  runs : List (JsString × RunRecord)
  /-- What `new Date()` reads. -/
  clock : TimeValue

/-- What can happen to the runs. -/
inductive RunStoreEvent where
  /-- A run is created now. -/
  | create (ctx : TenantContext) (run : RunRecord)
  /-- `setStatus` -/
  | setStatus (ctx : TenantContext) (id : JsString) (status : RunStatus)
  /-- `setEnvironment` -/
  | setEnvironment (id : JsString) (environment : PlainObject)
  /-- `claimNext` -/
  | claimNext (workerId : JsString)
  /-- `finish` -/
  | finish (id : JsString) (status : Outcome) (reason : Option JsString)
  /-- Time passes. -/
  | tick (now : TimeValue)

namespace RunStoreState

/-- An empty store. -/
def start (clock : TimeValue) : RunStoreState := ⟨[], clock⟩

/-- One step. -/
def step (s : RunStoreState) : RunStoreEvent → RunStoreState
  | .create ctx run =>
    { s with runs := (InMemoryRunStore.create ctx { run with createdAt := s.clock } s.runs).2 }
  | .setStatus ctx id status =>
    { s with runs := (InMemoryRunStore.setStatus ctx id status s.clock s.runs).2 }
  | .setEnvironment id environment =>
    { s with runs := InMemoryRunStore.setEnvironment id environment s.runs }
  | .claimNext workerId =>
    { s with runs := (InMemoryRunStore.claimNext workerId s.clock s.runs).2 }
  | .finish id status reason =>
    { s with runs := (InMemoryRunStore.finish id status reason s.clock s.runs).2 }
  | .tick now => { s with clock := now }

/-- What is given about an event: a new run has an identifier of its own, and the clock does not go
back. -/
def Given (s : RunStoreState) : RunStoreEvent → Prop
  | .create _ run => run.id ∉ s.runs.map Prod.fst
  | .tick now => s.clock.ms ≤ now.ms
  | _ => True

/-- Every run is stored once, and none was created later than now. -/
structure Dated (s : RunStoreState) : Prop where
  keyed : InMemoryRunStore.Keyed s.runs
  le_clock : ∀ p ∈ s.runs, p.2.createdAt.ms ≤ s.clock.ms

/-- **A run that is written over stays in its place.** -/
theorem map_place_setProp {runs : List (JsString × RunRecord)} {id : JsString} {r r' : RunRecord}
    (hkeyed : InMemoryRunStore.Keyed runs) (h : runs.lookup id = some r)
    (hplace : InMemoryRunStore.place (id, r') = InMemoryRunStore.place (id, r)) :
    (setProp runs (id, r')).map InMemoryRunStore.place = runs.map InMemoryRunStore.place :=
  map_setProp_of_lookup hkeyed.distinct h hplace

/-- **Every run stays in its place**, unless a run is created. -/
theorem map_place_step {s : RunStoreState} (h : s.Dated) {e : RunStoreEvent}
    (he : ∀ ctx run, e ≠ .create ctx run) :
    (s.step e).runs.map InMemoryRunStore.place = s.runs.map InMemoryRunStore.place := by
  cases e with
  | create ctx run => exact absurd rfl (he ctx run)
  | setStatus ctx id status =>
    rw [step]
    unfold InMemoryRunStore.setStatus InMemoryRunStore.get
    cases hfind : (s.runs.lookup id).filter fun r => decide (r.tenantId = ctx.tenantId) with
    | none => rfl
    | some r => exact map_place_setProp h.keyed (Option.eq_some_of_filter_eq_some hfind) rfl
  | setEnvironment id environment =>
    rw [step]
    unfold InMemoryRunStore.setEnvironment
    cases hlookup : s.runs.lookup id with
    | none => rfl
    | some r => exact map_place_setProp h.keyed hlookup rfl
  | claimNext workerId =>
    rw [step]
    unfold InMemoryRunStore.claimNext
    cases hnext : InMemoryRunStore.nextQueued s.runs with
    | none => rfl
    | some r => exact map_place_setProp h.keyed (h.keyed.lookup_nextQueued hnext).1 rfl
  | finish id status reason =>
    rw [step]
    unfold InMemoryRunStore.finish
    cases hlookup : s.runs.lookup id with
    | none => rfl
    | some r => exact map_place_setProp h.keyed hlookup rfl
  | tick now => rfl

/-- The clock does not go back. -/
theorem le_clock_step {s : RunStoreState} {e : RunStoreEvent} (he : s.Given e) :
    s.clock.ms ≤ (s.step e).clock.ms := by
  cases e with
  | tick now => exact he
  | create ctx run => exact le_rfl
  | setStatus ctx id status => exact le_rfl
  | setEnvironment id environment => exact le_rfl
  | claimNext workerId => exact le_rfl
  | finish id status reason => exact le_rfl

/-- **What every step keeps.** -/
theorem Dated.step {s : RunStoreState} (h : s.Dated) {e : RunStoreEvent} (he : s.Given e) :
    (s.step e).Dated := by
  have hclock := le_clock_step he
  by_cases hcreate : ∃ ctx run, e = .create ctx run
  · obtain ⟨ctx, run, rfl⟩ := hcreate
    refine ⟨h.keyed.setProp rfl, fun p hp => ?_⟩
    rcases mem_of_mem_setProp hp with rfl | hp
    · exact le_rfl
    · exact h.le_clock p hp
  · have hplace := map_place_step h fun ctx run heq => hcreate ⟨ctx, run, heq⟩
    have hfrom : ∀ p ∈ (s.step e).runs, ∃ q ∈ s.runs,
        InMemoryRunStore.place q = InMemoryRunStore.place p := by
      intro p hp
      have hmem := List.mem_map_of_mem (f := InMemoryRunStore.place) hp
      rw [hplace] at hmem
      exact List.mem_map.mp hmem
    have hkeys : (s.step e).runs.map Prod.fst = s.runs.map Prod.fst := by
      have hfst := congrArg (List.map Prod.fst) hplace
      rwa [List.map_map, List.map_map] at hfst
    refine ⟨⟨?_, fun p hp => ?_⟩, fun p hp => ?_⟩
    · rw [DistinctKeys, hkeys]
      exact h.keyed.distinct
    · obtain ⟨q, hq, heq⟩ := hfrom p hp
      have hkey : q.1 = p.1 := congrArg (fun x => x.1) heq
      have hid : q.2.id = p.2.id := congrArg (fun x => x.2.1) heq
      rw [← hid, ← hkey]
      exact h.keyed.id_eq q hq
    · obtain ⟨q, hq, heq⟩ := hfrom p hp
      have hcreated : q.2.createdAt.ms = p.2.createdAt.ms := congrArg (fun x => x.2.2.2.ms) heq
      exact (hcreated ▸ h.le_clock q hq).trans hclock

/-- No run is taken out. -/
theorem length_le_step {s : RunStoreState} (h : s.Dated) (e : RunStoreEvent) :
    s.runs.length ≤ (s.step e).runs.length := by
  by_cases hcreate : ∃ ctx run, e = .create ctx run
  · obtain ⟨ctx, run, rfl⟩ := hcreate
    change _ ≤ (setProp s.runs (run.id, _)).length
    rw [setProp]
    split_ifs
    · rw [List.length_map]
    · rw [List.length_append]
      exact Nat.le_add_right ..
  · have hplace := map_place_step h fun ctx run heq => hcreate ⟨ctx, run, heq⟩
    have hlength := congrArg List.length hplace
    rw [List.length_map, List.length_map] at hlength
    exact hlength.ge

/-- An empty store. -/
theorem Dated.start (clock : TimeValue) : (RunStoreState.start clock).Dated :=
  ⟨⟨List.nodup_nil, List.forall_mem_nil _⟩, List.forall_mem_nil _⟩

/-- **What every run keeps.** -/
theorem Dated.run {s : RunStoreState} (h : s.Dated) {events : List RunStoreEvent}
    (hgiven : ∀ past e later, events = past ++ e :: later →
      (past.foldl RunStoreState.step s).Given e) :
    (events.foldl RunStoreState.step s).Dated :=
  Async.run_keeps (fun _ _ h he => h.step he) h hgiven

end RunStoreState

/-! ## Following the cursors -/

/-- The store, the cursor of the next request, none once the last page was read, and what was read. -/
structure RunReader where
  /-- The store. -/
  store : RunStoreState
  /-- The cursor of the next request. -/
  next : Option (Option JsString)
  /-- What was read. -/
  read : List RunRecord

/-- What can happen next. -/
inductive RunReaderEvent where
  /-- The next page is requested. -/
  | page
  /-- Something happens to the runs. -/
  | other (e : RunStoreEvent)

namespace RunReader

/-- Before the first page. -/
def start (s : RunStoreState) : RunReader := ⟨s, some none, []⟩

section

variable (ctx : TenantContext) (limit : ℕ)

/-- One step. -/
def step (r : RunReader) : RunReaderEvent → RunReader
  | .page =>
    match r.next with
    | none => r
    | some cursor =>
      let page := InMemoryRunStore.list ctx cursor (.ofNat limit) r.store.runs
      ⟨r.store, page.nextCursor.map some, r.read ++ page.items⟩
  | .other e => { r with store := r.store.step e }

/-- Several steps. -/
def run (r : RunReader) (events : List RunReaderEvent) : RunReader := events.foldl (step ctx limit) r

end

/-- What is given about an event. -/
def Given (r : RunReader) : RunReaderEvent → Prop
  | .page => True
  | .other e => r.store.Given e

/-- **A new run does not move what is still to be read**: the reader is done, the run is another
tenant's, or as many runs as were read were created in this millisecond. -/
def Spares (ctx : TenantContext) (r : RunReader) : RunReaderEvent → Prop
  | .other (.create ctx' _) => r.next = none ∨ ctx'.tenantId ≠ ctx.tenantId ∨
      r.read.length ≤ InMemoryRunStore.createdAt ctx r.store.clock r.store.runs
  | _ => True

/-- **What the requests have read** is what a reader of the identifiers has read. -/
structure Follows (ctx : TenantContext) (r : RunReader) (reader : Reader JsString) : Prop where
  dated : r.store.Dated
  items : reader.items = (InMemoryRunStore.newest ctx r.store.runs).map (·.id)
  seen : reader.seen = r.read.map (·.id)
  reading : reader.finished = false → reader.offset = r.read.length ∧
    reader.offset ≤ reader.items.length ∧ ∃ cursor, r.next = some cursor ∧ CursorAt reader.offset cursor
  finished : reader.finished = true → r.next = none

section

variable {ctx : TenantContext} {limit : ℕ} {r : RunReader} {reader : Reader JsString}

/-- The runs that are listed are stored. -/
theorem length_newest_le (runs : List (JsString × RunRecord)) :
    (InMemoryRunStore.newest ctx runs).length ≤ runs.length := by
  unfold InMemoryRunStore.newest
  rw [List.length_insertionSort]
  exact (List.length_filter_le ..).trans (List.length_map ..).le

/-- The identifiers that are listed are distinct. -/
theorem nodup_newest {s : RunStoreState} (h : s.Dated) :
    ((InMemoryRunStore.newest ctx s.runs).map (·.id)).Nodup := by
  have hkeys : (s.runs.map Prod.snd).map (·.id) = s.runs.map Prod.fst := by
    rw [List.map_map]
    exact List.map_congr_left h.keyed.id_eq
  have hsub : ((s.runs.map Prod.snd).filter fun r => decide (r.tenantId = ctx.tenantId)).map (·.id)
      |>.Sublist (s.runs.map Prod.fst) := by
    rw [← hkeys]
    exact List.filter_sublist.map _
  unfold InMemoryRunStore.newest
  exact ((List.perm_insertionSort _ _).map _).nodup_iff.mpr (h.keyed.distinct.sublist hsub)

/-- **A request** reads from the list at its offset. -/
theorem step_page {cursor : Option JsString} {offset : ℕ} (hnext : r.next = some cursor)
    (hcursor : CursorAt offset cursor)
    (hle : offset ≤ (InMemoryRunStore.newest ctx r.store.runs).length)
    (hsize : r.store.runs.length < 2 ^ 53) :
    r.step ctx limit .page = ⟨r.store,
      if offset + limit < (InMemoryRunStore.newest ctx r.store.runs).length then
        some (some (Number.ofNat (offset + limit)).toString) else none,
      r.read ++ ((InMemoryRunStore.newest ctx r.store.runs).drop offset).take limit⟩ := by
  rw [step, hnext]
  unfold InMemoryRunStore.list
  dsimp only
  rw [paginate_eq hcursor hle ((length_newest_le r.store.runs).trans_lt hsize)]
  split_ifs <;> rfl

/-- A step keeps what is given. -/
theorem dated_step (h : r.store.Dated) {e : RunReaderEvent} (he : r.Given e) :
    (r.step ctx limit e).store.Dated := by
  cases e with
  | page =>
    rw [step]
    cases r.next with
    | none => exact h
    | some cursor => exact h
  | other e => exact h.step he

/-- A run keeps what is given. -/
theorem dated_run (h : r.store.Dated) {events : List RunReaderEvent}
    (hgiven : ∀ past e later, events = past ++ e :: later → (r.run ctx limit past).Given e) :
    (r.run ctx limit events).store.Dated :=
  Async.run_keeps (P := fun r : RunReader => r.store.Dated) (fun _ _ hr he => dated_step hr he) h
    hgiven

/-- No run is taken out. -/
theorem length_le_step (h : r.store.Dated) (e : RunReaderEvent) :
    r.store.runs.length ≤ (r.step ctx limit e).store.runs.length := by
  cases e with
  | page =>
    rw [step]
    cases r.next with
    | none => exact le_rfl
    | some cursor => exact le_rfl
  | other e => exact RunStoreState.length_le_step h e

/-- **A request follows the reader.** -/
theorem Follows.page (h : r.Follows ctx reader) (hsize : r.store.runs.length < 2 ^ 53) :
    (r.step ctx limit .page).Follows ctx (reader.page limit) := by
  cases hfinished : reader.finished with
  | true =>
    rw [Reader.page_of_finished hfinished, step, h.finished hfinished]
    exact h
  | false =>
    obtain ⟨hoffset, hle, cursor, hnext, hcursor⟩ := h.reading hfinished
    have hlength : reader.items.length = (InMemoryRunStore.newest ctx r.store.runs).length := by
      rw [h.items, List.length_map]
    rw [Reader.page_of_not_finished hfinished, step_page hnext hcursor (hlength ▸ hle) hsize,
      ← hlength]
    refine ⟨h.dated, h.items, ?_, fun hlt => ?_, fun hge => ?_⟩
    · dsimp only
      rw [h.seen, h.items, List.map_append, List.map_take, List.map_drop]
    · have hlt' := not_le.mp (of_decide_eq_false hlt)
      dsimp only
      rw [if_pos hlt', List.length_append, List.length_take, List.length_drop, ← hlength]
      refine ⟨?_, hlt'.le, _, rfl, .inr rfl⟩
      omega
    · exact if_neg (not_lt.mpr (of_decide_eq_true hge))

/-- A new run of the tenant, in the list. -/
theorem Follows.create (h : r.Follows ctx reader) {ctx' : TenantContext} {run : RunRecord}
    (hgiven : run.id ∉ r.store.runs.map Prod.fst) (htenant : ctx'.tenantId = ctx.tenantId) :
    ∃ front back, reader.items = front ++ back ∧ run.id ∉ reader.items ∧
      front.length = InMemoryRunStore.createdAt ctx r.store.clock r.store.runs ∧
      (r.step ctx limit (.other (.create ctx' run))).Follows ctx
        (reader.change (front ++ run.id :: back)) := by
  have hdated := h.dated.step (e := .create ctx' run) hgiven
  obtain ⟨front, back, hitems, hitems', hlength⟩ := InMemoryRunStore.map_id_newest_create
    (r := { run with tenantId := ctx'.tenantId, createdAt := r.store.clock }) hgiven h.dated.le_clock
    htenant
  have hnot : run.id ∉ reader.items := by
    rw [h.items]
    intro hmem
    obtain ⟨x, hx, hid⟩ := List.mem_map.mp hmem
    unfold InMemoryRunStore.newest at hx
    obtain ⟨p, hp, rfl⟩ := List.mem_map.mp (List.mem_filter.mp
      ((List.mem_insertionSort _).mp hx)).1
    refine hgiven (List.mem_map.mpr ⟨p, hp, ?_⟩)
    rw [← hid, h.dated.keyed.id_eq p hp]
  refine ⟨front, back, h.items.trans hitems, hnot, hlength, hdated, hitems'.symm, h.seen,
    fun hmore => ?_, h.finished⟩
  obtain ⟨hoffset, hle, hcursor⟩ := h.reading hmore
  refine ⟨hoffset, ?_, hcursor⟩
  rw [h.items.trans hitems] at hle
  refine hle.trans ?_
  change _ ≤ (front ++ run.id :: back).length
  rw [List.length_append, List.length_append, List.length_cons]
  exact Nat.add_le_add_left (Nat.le_succ _) _

/-- Every other event leaves the list as it is. -/
theorem Follows.other (h : r.Follows ctx reader) {e : RunStoreEvent} (hgiven : r.store.Given e)
    (he : ∀ ctx' run, e = .create ctx' run → ctx'.tenantId ≠ ctx.tenantId) :
    (r.step ctx limit (.other e)).Follows ctx reader := by
  refine ⟨h.dated.step hgiven, ?_, h.seen, h.reading, h.finished⟩
  rw [h.items, step]
  by_cases hcreate : ∃ ctx' run, e = .create ctx' run
  · obtain ⟨ctx', run, rfl⟩ := hcreate
    exact (InMemoryRunStore.map_id_newest_other (r := { run with
      tenantId := ctx'.tenantId, createdAt := r.store.clock }) hgiven (he ctx' run rfl)).symm
  · exact (InMemoryRunStore.map_id_newest (RunStoreState.map_place_step h.dated
      fun ctx' run heq => hcreate ⟨ctx', run, heq⟩)).symm

/-- **What every run follows**: either every event has spared what was to be read and nothing was lost
or repeated, or one has not and something is repeated. -/
theorem run_follows {s : RunStoreState} (hs : s.Dated) {events : List RunReaderEvent}
    (hgiven : ∀ past e later, events = past ++ e :: later → ((start s).run ctx limit past).Given e)
    (hsize : ((start s).run ctx limit events).store.runs.length < 2 ^ 53) :
    ∃ reader, ((start s).run ctx limit events).Follows ctx reader ∧
      ((reader.Exact ((InMemoryRunStore.newest ctx s.runs).map (·.id)) ∧
          ∀ past e later, events = past ++ e :: later →
            ((start s).run ctx limit past).Spares ctx e) ∨
        (reader.Repeats ∧ ∃ past e later, events = past ++ e :: later ∧
          ¬ ((start s).run ctx limit past).Spares ctx e)) := by
  induction events using List.reverseRecOn with
  | nil =>
    refine ⟨Reader.start ((InMemoryRunStore.newest ctx s.runs).map (·.id)), ⟨hs, rfl, rfl, ?_, ?_⟩,
      .inl ⟨Reader.Exact.start (nodup_newest hs), fun past e later h => ?_⟩⟩
    · exact fun _ => ⟨rfl, Nat.zero_le _, none, rfl, .inl ⟨rfl, rfl⟩⟩
    · rintro ⟨⟩
    · cases past <;> cases h
  | append_singleton events e ih =>
    obtain ⟨hgivens, hgiven⟩ := Async.forall_steps_concat.mp hgiven
    have hrun : (start s).run ctx limit (events ++ [e]) =
        ((start s).run ctx limit events).step ctx limit e := List.foldl_append
    have hdated := dated_run (r := start s) hs hgivens
    rw [hrun] at hsize
    have hbefore := (length_le_step hdated e).trans_lt hsize
    obtain ⟨reader, h, hcases⟩ := ih hgivens hbefore
    have hbad : ∀ {past e' later}, events = past ++ e' :: later →
        ¬ ((start s).run ctx limit past).Spares ctx e' → ∃ past e' later,
          events ++ [e] = past ++ e' :: later ∧ ¬ ((start s).run ctx limit past).Spares ctx e' := by
      intro past e' later heq hnot
      exact ⟨past, e', later ++ [e], by rw [heq, List.append_assoc, List.cons_append], hnot⟩
    rw [hrun]
    simp only [Async.forall_steps_concat]
    cases e with
    | page =>
      refine ⟨_, h.page hbefore, ?_⟩
      rcases hcases with ⟨hexact, hspares⟩ | ⟨hrepeats, past, e', later, heq, hnot⟩
      · exact .inl ⟨hexact.page limit, hspares, trivial⟩
      · exact .inr ⟨hrepeats.page limit, hbad heq hnot⟩
    | other e =>
      by_cases hcreate : ∃ ctx' run, e = .create ctx' run ∧ ctx'.tenantId = ctx.tenantId
      · obtain ⟨ctx', run, rfl, htenant⟩ := hcreate
        obtain ⟨front, back, hitems, hnot, hlength, hfollows⟩ := h.create hgiven htenant
        refine ⟨_, hfollows, ?_⟩
        rcases hcases with ⟨hexact, hspares⟩ | ⟨hrepeats, past, e', later, heq, hbad'⟩
        · by_cases hspare : ((start s).run ctx limit events).Spares ctx (.other (.create ctx' run))
          · refine .inl ⟨hexact.insert hitems hnot fun hmore => ?_, hspares, hspare⟩
            obtain ⟨hoffset, -, cursor, hnext, -⟩ := h.reading hmore
            rw [hoffset, hlength]
            rcases hspare with hnone | hother | hle
            · rw [hnone] at hnext
              cases hnext
            · exact absurd htenant hother
            · exact hle
          · refine .inr ⟨hexact.repeats hitems ?_ ?_ run.id, events, _, [], rfl, hspare⟩
            · rw [← Bool.not_eq_true]
              exact fun hdone => hspare (.inl (h.finished hdone))
            · have hmore : reader.finished = false := by
                rw [← Bool.not_eq_true]
                exact fun hdone => hspare (.inl (h.finished hdone))
              rw [hlength, (h.reading hmore).1]
              exact not_le.mp fun hle => hspare (.inr (.inr hle))
        · exact .inr ⟨hrepeats.insert hitems run.id, hbad heq hbad'⟩
      · have hother : ∀ ctx' run, e = .create ctx' run → ctx'.tenantId ≠ ctx.tenantId :=
          fun ctx' run heq htenant => hcreate ⟨ctx', run, heq, htenant⟩
        refine ⟨reader, h.other hgiven hother, ?_⟩
        rcases hcases with ⟨hexact, hspares⟩ | ⟨hrepeats, past, e', later, heq, hnot⟩
        · refine .inl ⟨hexact, hspares, ?_⟩
          cases e with
          | create ctx' run => exact .inr (.inl (hother ctx' run rfl))
          | setStatus ctx' id status => trivial
          | setEnvironment id environment => trivial
          | claimNext workerId => trivial
          | finish id status reason => trivial
          | tick now => trivial
        · exact .inr ⟨hrepeats, hbad heq hnot⟩

/-- **Following the cursors to the end** loses and repeats nothing exactly when every run that the
tenant creates meanwhile goes after what was read. -/
theorem run_pages_iff (ctx : TenantContext) (limit : ℕ) (clock : TimeValue)
    (before : List RunStoreEvent) (events : List RunReaderEvent)
    (hbefore : ∀ past e later, before = past ++ e :: later →
      (past.foldl RunStoreState.step (.start clock)).Given e)
    (hgiven : ∀ past e later, events = past ++ e :: later →
      ((start (before.foldl RunStoreState.step (.start clock))).run ctx limit past).Given e)
    (hsize : ((start (before.foldl RunStoreState.step (.start clock))).run ctx limit
      events).store.runs.length < 2 ^ 53)
    (hend : ((start (before.foldl RunStoreState.step (.start clock))).run ctx limit
      events).next = none) :
    let s := before.foldl RunStoreState.step (.start clock)
    let ids := ((start s).run ctx limit events).read.map (·.id)
    (ids.Nodup ∧ ((InMemoryRunStore.newest ctx s.runs).map (·.id)).Sublist ids) ↔
      ∀ past e later, events = past ++ e :: later → ((start s).run ctx limit past).Spares ctx e := by
  have hdated := (RunStoreState.Dated.start clock).run hbefore
  obtain ⟨reader, h, hcases⟩ := run_follows hdated hgiven hsize
  have hdone : reader.finished = true := by
    rw [← Bool.not_eq_false]
    intro hmore
    obtain ⟨-, -, cursor, hnext, -⟩ := h.reading hmore
    rw [hend] at hnext
    cases hnext
  dsimp only
  rw [← h.seen]
  rcases hcases with ⟨hexact, hspares⟩ | ⟨hrepeats, past, e, later, heq, hnot⟩
  · exact ⟨fun _ => hspares, fun _ => hexact.read hdone⟩
  · refine ⟨fun hsound => ?_, fun hspares => absurd (hspares past e later heq) hnot⟩
    rcases hrepeats with htwice | ⟨hmore, -⟩
    · exact absurd hsound.1 htwice
    · rw [hdone] at hmore
      cases hmore

end

/-! ## A run that is read twice -/

section examples

/-- A tenant. -/
def pagingTenant : TenantContext := ⟨js "t", js "u", []⟩

/-- A run to be created. -/
def pagedRun (id : JsString) : RunRecord :=
  ⟨id, [], .queued, .empty, [], ⟨0, TimeValue.zero_inRange⟩, none, none, none, none, none, none, none⟩

/-- Two runs are created, a millisecond apart. -/
def twoRuns : List RunStoreEvent :=
  [.create pagingTenant (pagedRun (js "a")), .tick ⟨1, by decide⟩,
    .create pagingTenant (pagedRun (js "b"))]

/-- The store with the two. -/
def twoRunsStore : RunStoreState :=
  twoRuns.foldl RunStoreState.step (.start ⟨0, TimeValue.zero_inRange⟩)

/-- A third one is created after the first page. -/
def thirdRun : List RunReaderEvent :=
  [.page, .other (.tick ⟨2, by decide⟩), .other (.create pagingTenant (pagedRun (js "c"))), .page,
    .page]

/-- The store with the three. -/
def threeRunsStore : RunStoreState :=
  (twoRunsStore.step (.tick ⟨2, by decide⟩)).step (.create pagingTenant (pagedRun (js "c")))

/-- The first page. -/
theorem step_page_twoRuns : ∃ x, (start twoRunsStore).step pagingTenant 1 .page =
    ⟨twoRunsStore, some (some (Number.ofNat 1).toString), [x]⟩ ∧ x.id = js "b" :=
  ⟨_, @step_page pagingTenant 1 (start twoRunsStore) _ 0 rfl (.inl ⟨rfl, rfl⟩) (by decide)
    (by decide), rfl⟩

/-- Two pages of two runs. -/
theorem run_pages_two : (((start twoRunsStore).run pagingTenant 1 [.page, .page]).read.map
      (·.id)).Nodup ∧
    ((InMemoryRunStore.newest pagingTenant twoRunsStore.runs).map (·.id)).Sublist
      (((start twoRunsStore).run pagingTenant 1 [.page, .page]).read.map (·.id)) := by
  obtain ⟨x, hfirst, -⟩ := step_page_twoRuns
  have hrun : (start twoRunsStore).run pagingTenant 1 [.page, .page] = ⟨twoRunsStore, none, [x] ++
      ((InMemoryRunStore.newest pagingTenant twoRunsStore.runs).drop 1).take 1⟩ := by
    change ((start twoRunsStore).step pagingTenant 1 .page).step pagingTenant 1 .page = _
    rw [hfirst]
    exact @step_page pagingTenant 1 ⟨twoRunsStore, _, [x]⟩ _ 1 rfl (.inr rfl)
      (show 1 ≤ 2 by norm_num) (show 2 < 2 ^ 53 by norm_num)
  refine (run_pages_iff pagingTenant 1 ⟨0, TimeValue.zero_inRange⟩ twoRuns [.page, .page] ?_ ?_ ?_
    ?_).mpr ?_
  · refine Async.forall_steps_cons (List.not_mem_nil) (Async.forall_steps_cons ?_
      (Async.forall_steps_cons ?_ ?_))
    · change (0 : ℤ) ≤ 1
      norm_num
    · change js "b" ∉ [js "a"]
      decide
    · intro past e later h
      cases past <;> cases h
  · refine Async.forall_steps_cons trivial (Async.forall_steps_cons trivial ?_)
    intro past e later h
    cases past <;> cases h
  · change ((start twoRunsStore).run pagingTenant 1 [.page, .page]).store.runs.length < _
    rw [hrun]
    exact show 2 < 2 ^ 53 by norm_num
  · change ((start twoRunsStore).run pagingTenant 1 [.page, .page]).next = none
    rw [hrun]
  · refine Async.forall_steps_cons trivial (Async.forall_steps_cons trivial ?_)
    intro past e later h
    cases past <;> cases h

/-- A page of one of the three, of which one or two were read. -/
theorem step_page_threeRuns {offset : ℕ} {seen : List RunRecord} (h : offset ≤ 3) :
    (RunReader.mk threeRunsStore (some (some (Number.ofNat offset).toString)) seen).step pagingTenant
      1 .page = ⟨threeRunsStore, if offset + 1 < 3 then
        some (some (Number.ofNat (offset + 1)).toString) else none,
        seen ++ ((InMemoryRunStore.newest pagingTenant threeRunsStore.runs).drop offset).take 1⟩ :=
  step_page rfl (.inr rfl) h (show 3 < 2 ^ 53 by norm_num)

/-- **A run that is created between two pages** makes the last one that was read come again. -/
theorem run_pages_repeat : ((start twoRunsStore).run pagingTenant 1 thirdRun).next = none ∧
    ((start twoRunsStore).run pagingTenant 1 thirdRun).read.map (·.id) =
      [js "b", js "b", js "a"] := by
  obtain ⟨x, hfirst, hx⟩ := step_page_twoRuns
  have hread : (start twoRunsStore).run pagingTenant 1 thirdRun = ⟨threeRunsStore, none, [x] ++
      ((InMemoryRunStore.newest pagingTenant threeRunsStore.runs).drop 1).take 1 ++
      ((InMemoryRunStore.newest pagingTenant threeRunsStore.runs).drop 2).take 1⟩ := by
    change (((((start twoRunsStore).step pagingTenant 1 .page).step pagingTenant 1 (.other _)).step
      pagingTenant 1 (.other _)).step pagingTenant 1 .page).step pagingTenant 1 .page = _
    rw [hfirst]
    -- the third run is now in front
    change ((RunReader.mk threeRunsStore (some (some (Number.ofNat 1).toString)) [x]).step
      pagingTenant 1 .page).step pagingTenant 1 .page = _
    rw [step_page_threeRuns (by norm_num), if_pos (by norm_num), step_page_threeRuns (by norm_num),
      if_neg (by norm_num)]
  rw [hread, List.map_append, List.map_append, List.map_singleton, hx]
  exact ⟨rfl, rfl⟩

end examples

end RunReader

end AgentEval.Store
