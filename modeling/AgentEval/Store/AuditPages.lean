import AgentEval.Store.Pages

/-!
# `store/index.ts`: the audit log in pages

A query takes the entries of a tenant and up to five filters, anew for every page. Entries are only
ever added at the end, so what matches is added at the end as well.

* **`audit_pages`**: following the cursors reads every entry that matched at first once, in the order
  of the log, whatever is appended in between.
-/

namespace AgentEval.Store

open Js Evidence Paging

/-- Source: `store/index.ts`, `AuditQuery` -/
structure AuditQuery where
  /-- Who did it. -/
  actor : Option JsString
  /-- What was done. -/
  action : Option JsString
  /-- What it was done to. -/
  subject : Option JsString
  /-- Since when; the date may be invalid. -/
  fromDate : Option (Option TimeValue)
  /-- Until when; the date may be invalid. -/
  toDate : Option (Option TimeValue)
  /-- Where the page begins. -/
  cursor : Option JsString
  /-- How many items a page has. -/
  limit : Number

namespace InMemoryAuditStore

/-- `if (wanted) items = items.filter(...)` -/
def narrow {α β : Type*} (wanted : Option β) (test : β → α → Bool) (items : List α) : List α :=
  wanted.elim items fun w => items.filter (test w)

/-- What matches a query.
Source: `store/index.ts`, `InMemoryAuditStore.query` -/
def matching (host : JsString → Number) (ctx : TenantContext) (q : AuditQuery) (log : AuditLog) :
    List AuditEntry :=
  let items := log.forTenant ctx.tenantId
  let items := narrow (q.actor.filter (· ≠ [])) (fun actor e => decide (e.actor = actor)) items
  let items := narrow (q.action.filter (· ≠ [])) (fun action e => decide (e.action = action)) items
  let items := narrow (q.subject.filter (· ≠ []))
    (fun subject e => decide (e.subject = some subject)) items
  let items := narrow q.fromDate
    (fun date e => (getTime date).le (dateParse host e.recordedAt)) items
  narrow q.toDate (fun date e => (dateParse host e.recordedAt).le (getTime date)) items

/-- Source: `store/index.ts`, `InMemoryAuditStore.query` -/
def query (host : JsString → Number) (ctx : TenantContext) (q : AuditQuery) (log : AuditLog) :
    Page AuditEntry :=
  paginate (matching host ctx q log) q.cursor q.limit

section

variable {host : JsString → Number} {ctx : TenantContext} {q : AuditQuery}

/-- A filter takes the parts of a list one by one. -/
theorem narrow_append {α β : Type*} (wanted : Option β) (test : β → α → Bool) (xs ys : List α) :
    narrow wanted test (xs ++ ys) = narrow wanted test xs ++ narrow wanted test ys := by
  unfold narrow
  cases wanted with
  | none => rfl
  | some w => exact List.filter_append ..

/-- A filter leaves things out. -/
theorem narrow_sublist {α β : Type*} (wanted : Option β) (test : β → α → Bool) (xs : List α) :
    (narrow wanted test xs).Sublist xs := by
  unfold narrow
  cases wanted with
  | none => exact List.Sublist.refl xs
  | some w => exact List.filter_sublist

/-- What matches is a slice of the log. -/
theorem matching_sublist (log : AuditLog) : (matching host ctx q log).Sublist log.entries := by
  unfold matching
  apply (narrow_sublist ..).trans
  apply (narrow_sublist ..).trans
  apply (narrow_sublist ..).trans
  apply (narrow_sublist ..).trans
  apply (narrow_sublist ..).trans
  exact List.filter_sublist

/-- **What matches after an entry was added**: that entry at the end, or nothing new. -/
theorem matching_extend (log : AuditLog) (entry : AuditEntry) :
    matching host ctx q (log.extend entry) = matching host ctx q log ∨
      matching host ctx q (log.extend entry) = matching host ctx q log ++ [entry] := by
  have happend : ∃ more, more.Sublist [entry] ∧
      matching host ctx q (log.extend entry) = matching host ctx q log ++ more := by
    have hforTenant : (log.extend entry).forTenant ctx.tenantId = log.forTenant ctx.tenantId ++
        [entry].filter fun e => decide (e.tenantId = ctx.tenantId) := List.filter_append ..
    unfold matching
    dsimp only
    rw [hforTenant, narrow_append, narrow_append, narrow_append, narrow_append, narrow_append]
    refine ⟨_, ?_, rfl⟩
    apply (narrow_sublist ..).trans
    apply (narrow_sublist ..).trans
    apply (narrow_sublist ..).trans
    apply (narrow_sublist ..).trans
    apply (narrow_sublist ..).trans
    exact List.filter_sublist
  obtain ⟨more, hmore, heq⟩ := happend
  rcases List.sublist_singleton.mp hmore with rfl | rfl
  · rw [heq, List.append_nil]
    exact .inl rfl
  · exact .inr heq

end

end InMemoryAuditStore

/-- The entries of a log are distinct. -/
theorem nodup_entries {log : AuditLog} (h : log.Coherent)
    (hsize : log.entries.length < 2 ^ 53) : log.entries.Nodup := by
  apply List.Nodup.of_map (·.seq)
  rw [h.numbered]
  refine List.nodup_range.map_on fun a ha b hb heq => ?_
  exact Number.ofNat_injOn ((List.mem_range.mp ha).trans hsize)
    ((List.mem_range.mp hb).trans hsize) heq

/-! ## Following the cursors -/

/-- The log, the cursor of the next request, none once the last page was read, and what was read. -/
structure AuditReader where
  /-- The log. -/
  log : AuditLog
  /-- The cursor of the next request. -/
  next : Option (Option JsString)
  /-- What was read. -/
  read : List AuditEntry

/-- What can happen next. -/
inductive AuditReaderEvent where
  /-- The next page is requested. -/
  | page
  /-- Someone appends. -/
  | append (ctx : TenantContext) (event : AuditEvent) (now : TimeValue)

/-- The event is a request. -/
def AuditReaderEvent.isPage : AuditReaderEvent → Bool
  | page => true
  | append _ _ _ => false

namespace AuditReader

/-- Before the first page. -/
def start (log : AuditLog) : AuditReader := ⟨log, some none, []⟩

section

variable (host : JsString → Number) (ctx : TenantContext) (q : AuditQuery)

/-- One step. -/
def step (r : AuditReader) : AuditReaderEvent → AuditReader
  | .page =>
    match r.next with
    | none => r
    | some cursor =>
      let page := InMemoryAuditStore.query host ctx { q with cursor := cursor } r.log
      ⟨r.log, page.nextCursor.map some, r.read ++ page.items⟩
  | .append ctx event now => { r with log := (InMemoryAuditStore.append ctx event now r.log).2 }

/-- Several steps. -/
def run (r : AuditReader) (events : List AuditReaderEvent) : AuditReader :=
  events.foldl (step host ctx q) r

end

/-- **What the requests have read** is what a reader of the matching entries has read: that of a list
to which entries are added at the end. -/
structure Follows (host : JsString → Number) (ctx : TenantContext) (q : AuditQuery) (limit : ℕ)
    (first : List AuditEntry) (pages : ℕ) (r : AuditReader) (reader : Reader AuditEntry) : Prop where
  coherent : r.log.Coherent
  items : reader.items = InMemoryAuditStore.matching host ctx q r.log
  seen : reader.seen = r.read
  exact : reader.Exact first
  initial : first <+: reader.items
  reading : reader.finished = false → reader.offset = limit * pages ∧
    ∃ cursor, r.next = some cursor ∧ CursorAt reader.offset cursor
  finished : reader.finished = true → r.next = none

section

variable {host : JsString → Number} {ctx : TenantContext} {q : AuditQuery} {limit : ℕ}
  {first : List AuditEntry} {pages : ℕ} {r : AuditReader} {reader : Reader AuditEntry}

/-- **A request follows the reader.** -/
theorem Follows.page (h : r.Follows host ctx q limit first pages reader)
    (hq : q.limit = .ofNat limit) (hsize : r.log.entries.length < 2 ^ 53) :
    (r.step host ctx q .page).Follows host ctx q limit first (pages + 1) (reader.page limit) := by
  cases hfinished : reader.finished with
  | true =>
    rw [Reader.page_of_finished hfinished, step, h.finished hfinished]
    refine ⟨h.coherent, h.items, h.seen, h.exact, h.initial, fun hmore => ?_, h.finished⟩
    rw [hfinished] at hmore
    cases hmore
  | false =>
    obtain ⟨hoffset, cursor, hnext, hcursor⟩ := h.reading hfinished
    obtain ⟨hle, -⟩ := h.exact.reading hfinished
    have hitems : reader.items.length < 2 ^ 53 := by
      rw [h.items]
      exact (InMemoryAuditStore.matching_sublist r.log).length_le.trans_lt hsize
    have hquery : InMemoryAuditStore.query host ctx { q with cursor := cursor } r.log =
        paginate reader.items cursor (.ofNat limit) := by
      rw [h.items, ← hq]
      rfl
    have hexact := h.exact.page limit
    rw [Reader.page_of_not_finished hfinished] at hexact ⊢
    rw [step, hnext]
    dsimp only
    rw [hquery, paginate_eq hcursor hle hitems]
    refine ⟨h.coherent, h.items, ?_, hexact, h.initial, fun hlt => ?_, fun hge => ?_⟩
    · rw [h.seen]
    · dsimp only
      rw [if_pos (not_le.mp (of_decide_eq_false hlt)), hoffset, ← Nat.mul_succ]
      exact ⟨rfl, _, rfl, .inr rfl⟩
    · dsimp only
      rw [if_neg (not_lt.mpr (of_decide_eq_true hge))]
      rfl

/-- **An append follows the reader**: what matches is put at the end. -/
theorem Follows.append (h : r.Follows host ctx q limit first pages reader) (ctx' : TenantContext)
    (event : AuditEvent) (now : TimeValue)
    (hsize : (r.step host ctx q (.append ctx' event now)).log.entries.length < 2 ^ 53) :
    ∃ reader', (r.step host ctx q (.append ctx' event now)).Follows host ctx q limit first pages
      reader' := by
  have hcoherent := (InMemoryAuditStore.coherent_append h.coherent ctx' event now).1
  rw [step] at hsize ⊢
  unfold InMemoryAuditStore.append at hsize hcoherent ⊢
  rcases AuditLog.append_cases ⟨some event.action, some ctx'.actor, some ctx'.tenantId, event.subject,
    event.payload, event.recordedAt⟩ now r.log with ⟨e, hrun⟩ | ⟨entry, hrun, -⟩
  · rw [hrun]
    exact ⟨reader, h⟩
  · rw [hrun] at hsize hcoherent ⊢
    rcases @InMemoryAuditStore.matching_extend host ctx q r.log entry with hsame | hnew
    · refine ⟨reader, hcoherent, ?_, h.seen, h.exact, h.initial, h.reading, h.finished⟩
      rw [hsame]
      exact h.items
    · have hfresh : entry ∉ reader.items := by
        have hnodup := nodup_entries hcoherent hsize
        rw [AuditLog.extend] at hnodup
        rw [h.items]
        intro hmem
        have hthere := (InMemoryAuditStore.matching_sublist r.log).mem hmem
        exact (List.nodup_append.mp hnodup).2.2 entry hthere entry (List.mem_singleton_self _) rfl
      have hexact : (reader.change (reader.items ++ [entry])).Exact first := by
        refine h.exact.insert (List.append_nil _).symm hfresh fun hmore => ?_
        exact (h.exact.reading hmore).1
      refine ⟨reader.change (reader.items ++ [entry]), hcoherent, ?_, h.seen, hexact,
        h.initial.trans (List.prefix_append ..), h.reading, h.finished⟩
      rw [hnew, ← h.items]
      rfl

/-- The log does not get shorter. -/
theorem prefix_step (e : AuditReaderEvent) : r.log.entries <+: (r.step host ctx q e).log.entries := by
  cases e with
  | page =>
    rw [step]
    cases r.next with
    | none => exact List.prefix_refl _
    | some cursor => exact List.prefix_refl _
  | append ctx' event now => exact AuditLog.prefix_append _ now r.log

/-- **What every run follows.** -/
theorem run_follows {log : AuditLog} (hlog : log.Coherent) (hq : q.limit = .ofNat limit)
    (events : List AuditReaderEvent)
    (hsize : ((start log).run host ctx q events).log.entries.length < 2 ^ 53) :
    ∃ reader, ((start log).run host ctx q events).Follows host ctx q limit
      (InMemoryAuditStore.matching host ctx q log) (events.countP AuditReaderEvent.isPage) reader := by
  induction events using List.reverseRecOn with
  | nil =>
    refine ⟨Reader.start (InMemoryAuditStore.matching host ctx q log), hlog, rfl, rfl, ?_,
      List.prefix_refl _, fun _ => ⟨rfl, none, rfl, .inl ⟨rfl, rfl⟩⟩, ?_⟩
    · exact Reader.Exact.start ((nodup_entries hlog hsize).sublist
        (InMemoryAuditStore.matching_sublist log))
    · rintro ⟨⟩
  | append_singleton events e ih =>
    have hrun : (start log).run host ctx q (events ++ [e]) =
        ((start log).run host ctx q events).step host ctx q e := List.foldl_append
    rw [hrun] at hsize ⊢
    obtain ⟨reader, h⟩ := ih ((prefix_step e).length_le.trans_lt hsize)
    rw [List.countP_append]
    cases e with
    | page => exact ⟨_, h.page hq ((prefix_step .page).length_le.trans_lt hsize)⟩
    | append ctx' event now => exact h.append ctx' event now hsize

end

end AuditReader

end AgentEval.Store
