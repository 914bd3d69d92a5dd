import AgentEval.Api.ProofRoutes
import AgentEval.Evidence.BundleCorrect

/-!
# Proof, root and size of one log state

The handlers keep a `protocol`: every step leaves the log coherent and only adds to it, and while a
handler waits between the reading of a root and the reading of what goes with it, it relies on the
log staying as it is.

* **`Request.meets_task`**: every handler meets the protocol, and answers from one log state.
* **`proof_routes_one_state`**: over any interleaving in which no entry is added inside such a
  window, every response is of one log state.
* **`proof_routes_append`**: an append inside a window mixes two states.
-/

namespace AgentEval.Api

open Js Evidence Store Async

/-! ## What a response should be -/

/-- A response of one log state: a bundle is accepted, and its size is that of the log under its
root; a proof is accepted against the root and the size that come with it.
`log` is any later log. -/
def Response.OfOneState (crypto : NodeCrypto) (host : JsString → Number) (publicKeyPem : JsString)
    (request : Request) (log : AuditLog) : Response → Prop
  | .problem _ => True
  | .bundle _ b =>
    (∃ r, verifyBundle crypto host b publicKeyPem = .ok r ∧ r.valid = true) ∧
      ∃ n ≤ log.size, b.payload.logSize = .ofNat n ∧ b.payload.logRoot = log.rootAt n
  | .inclusionProof proof leaf root =>
    (verifyInclusion proof (.buffer (fromHex leaf)) root).valid = true ∧
      ∃ n ≤ log.size, root = log.rootAt n
  | .consistencyProof proof currentRoot currentSize =>
    (∃ ctx fromSize, request = .consistencyProof ctx fromSize ∧
      (verifyConsistency proof (log.rootAt fromSize) currentRoot).valid = true) ∧
      proof.secondSize = .ofNat currentSize ∧ currentSize ≤ log.size ∧
      currentRoot = log.rootAt currentSize

/-! ## The protocol -/

/-- The points between the reading of a root and the reading of what goes with it. -/
def Point.InWindow : Point → Bool
  | bundleProofs | bundleSize | consistencyProof => true
  | _ => false

/-- The log stays coherent and grows; inside a window it stays as it is. -/
def protocol : Protocol Stores Point where
  inv s := s.audit.Coherent
  guar s t := s.audit.entries <+: t.audit.entries
  rely point s t := s.audit.entries <+: t.audit.entries ∧
    ∀ p, point = some p → p.InWindow = true → t.audit = s.audit
  guar_refl _ := List.prefix_refl _
  rely_refl _ _ := ⟨List.prefix_refl _, fun _ _ _ => rfl⟩
  rely_trans _ _ _ _ h h' :=
    ⟨h.1.trans h'.1, fun p hp hw => (h'.2 p hp hw).trans (h.2 p hp hw)⟩

section handlers

variable {crypto : NodeCrypto} {host : JsString → Number} {signer : KeySource} {s : Stores}
  {request : Request}

/-- The postcondition of a handler, for logs that the verifiers can follow. -/
def Answers (crypto : NodeCrypto) (host : JsString → Number) (publicKeyPem : JsString)
    (request : Request) (response : Response) (s : Stores) : Prop :=
  s.audit.size < 2 ^ 31 → response.OfOneState crypto host publicKeyPem request s.audit

/-- A handler may answer with a problem at any time. -/
theorem meets_problem (p : Problem) :
    (pure (.problem p) : Task Stores Point Response).Meets protocol
      (Answers crypto host signer.publicKeyPem request) s :=
  Task.Meets.pure fun _ _ _ _ => trivial

/-- What is read inside a window goes with what was read before it. -/
theorem audit_eq_of_rely {point : Point} {t : Stores} (h : protocol.rely (some point) s t)
    (hwindow : point.InWindow = true) : t.audit = s.audit :=
  h.2 point rfl hwindow

/-- **The consistency route.** -/
theorem meets_getConsistencyProof (ctx : TenantContext) (fromSize : ℕ) :
    (getConsistencyProof ctx fromSize).Meets protocol
      (Answers crypto host signer.publicKeyPem (.consistencyProof ctx fromSize)) s := by
  unfold getConsistencyProof
  split
  · exact meets_problem _
  refine Task.Meets.read fun t ht _ => ?_
  split
  · exact meets_problem _
  rename_i hsize
  have hle : fromSize ≤ t.audit.size := not_lt.mp hsize
  refine Task.Meets.read fun u hu htu => ?_
  rw [audit_eq_of_rely htu rfl]
  cases hproof : InMemoryAuditStore.consistencyProof fromSize t.audit with
  | error e => exact meets_problem _
  | ok proof =>
    refine Task.Meets.pure fun v hv huv hlt => ?_
    have hextends : t.audit.entries <+: v.audit.entries := htu.1.trans huv.1
    obtain ⟨p, hp, hvalid⟩ :=
      ht.verifyConsistency_rootAt (hextends.length_le.trans_lt hlt) hle
    obtain rfl : p = proof := Except.ok.inj (hp.symm.trans hproof)
    refine ⟨⟨ctx, fromSize, rfl, ?_⟩, ?_, hextends.length_le, ?_⟩
    · rwa [hv.rootAt_eq ht hextends hle]
    · exact ht.secondSize_eq hp
    · change t.audit.root = v.audit.rootAt t.audit.size
      rw [hv.rootAt_eq ht hextends le_rfl, ht.rootAt_size]

/-- **The inclusion route.** The entry was read before the proof, and is still there. -/
theorem meets_getInclusionProof (ctx : TenantContext) (seqParam : JsString) :
    (getInclusionProof ctx seqParam).Meets protocol
      (Answers crypto host signer.publicKeyPem request) s := by
  unfold getInclusionProof
  split
  · exact meets_problem _
  dsimp only
  split
  · exact meets_problem _
  generalize Number.trunc (parseInt seqParam).toRat = seq
  refine Task.Meets.read fun t ht _ => ?_
  cases hentry : InMemoryAuditStore.entryAt ctx seq t.audit with
  | error e => exact meets_problem _
  | ok found =>
    cases found with
    | none => exact meets_problem _
    | some entry =>
      obtain ⟨k, rfl, hk⟩ := InMemoryAuditStore.getElem?_of_entryAt hentry
      refine Task.Meets.read fun u hu htu => ?_
      cases hproof : InMemoryAuditStore.inclusionProof k u.audit with
      | error e => exact meets_problem _
      | ok proof =>
        refine Task.Meets.pure fun v hv huv hlt => ?_
        obtain ⟨hlt', hget⟩ := List.getElem?_eq_some_iff.mp hk
        have hk' : u.audit.entries[k]? = some entry := by
          rw [List.prefix_iff_getElem?.mp htu.1 k hlt', hget]
        obtain ⟨p, hp, hvalid⟩ := hu.verifyInclusion (huv.1.length_le.trans hlt.le) hk'
        obtain rfl : p = proof := Except.ok.inj (hp.symm.trans hproof)
        refine ⟨hvalid, u.audit.size, huv.1.length_le, ?_⟩
        change u.audit.root = _
        rw [hv.rootAt_eq hu huv.1 le_rfl, hu.rootAt_size]

/-- What an operation returns for every item goes with the items. -/
theorem forall₂_of_mapM {ε α β : Type} {f : α → Except ε β} {xs : List α} {ys : List β}
    (h : xs.mapM f = .ok ys) : List.Forall₂ (fun x y => f x = .ok y) xs ys := by
  induction xs generalizing ys with
  | nil =>
    cases h
    exact .nil
  | cons x xs ih =>
    rw [List.mapM_cons] at h
    cases hx : f x with
    | error e =>
      rw [hx] at h
      cases h
    | ok y =>
      cases hxs : xs.mapM f with
      | error e =>
        rw [hx, hxs] at h
        cases h
      | ok rest =>
        rw [hx, hxs] at h
        cases h
        exact .cons hx (ih hxs)

/-- The proofs of a slice are the log's own. -/
theorem proves_of_inclusionProofs {log : AuditLog} (h : log.Coherent) (hlt : log.size < 2 ^ 53)
    {entries : List AuditEntry} (hslice : entries.Sublist log.entries)
    {proofs : List (JsString × InclusionProofObject)}
    (hproofs : inclusionProofs entries log = .ok proofs) :
    List.Forall₂ log.Proves entries proofs := by
  have hpairs := forall₂_of_mapM hproofs
  rw [List.forall₂_iff_zip] at hpairs ⊢
  refine ⟨hpairs.1, fun {e p} hep => ?_⟩
  obtain ⟨k, -, hk, hseq⟩ := h.getElem?_of_mem (hslice.mem (List.of_mem_zip hep).1)
  have htrunc : Number.trunc e.seq.toRat = k := by
    rw [hseq, Number.ofNat_eq (hk.trans hlt)]
    exact Number.trunc_natCast k
  have hp := hpairs.2 hep
  rw [htrunc] at hp
  cases hproof : InMemoryAuditStore.inclusionProof k log with
  | error err =>
    rw [hproof] at hp
    cases hp
  | ok proof =>
    rw [hproof] at hp
    cases hp
    exact ⟨rfl, k, proof, hseq, hproof, rfl⟩

/-- Storing and recording a bundle. -/
theorem meets_recordBundle {ctx : TenantContext} {input : GenerateBundleInput} {entryCount : ℕ}
    {retention : ResolvedRetention} {bundleId : JsString} {bundle : EvidenceBundle}
    (hbundle : ∀ t : Stores, protocol.inv t → s.audit.entries <+: t.audit.entries →
      Answers crypto host signer.publicKeyPem request (.bundle bundleId bundle) t) :
    (recordBundle ctx input entryCount retention bundleId bundle).Meets protocol
      (Answers crypto host signer.publicKeyPem request) s := by
  unfold recordBundle
  refine Task.Meets.await fun t ht hst => ⟨ht, List.prefix_refl _, ?_⟩
  split
  · exact meets_problem _
  refine Task.Meets.await fun u hu htu => ?_
  obtain ⟨hcoherent, hextends⟩ := InMemoryAuditStore.coherent_append hu ctx
    ⟨js "evidence.bundled", some input.runId, some (bundledPayload bundleId entryCount _), none⟩
    u.clock
  refine ⟨hcoherent, hextends, ?_⟩
  split
  · exact meets_problem _
  exact Task.Meets.pure fun v hv huv =>
    hbundle v hv (hst.1.trans (htu.1.trans (hextends.trans huv.1)))

/-- Signing a bundle whose root and proofs are those of the log as it is now. -/
theorem meets_signBundle (hkey : signer.Genuine crypto) {ctx : TenantContext}
    {input : GenerateBundleInput} {run : RunRecord} {entries : List AuditEntry} {now : TimeValue}
    {retention : ResolvedRetention} {root : JsString}
    {proofs : List (JsString × InclusionProofObject)} (hs : s.audit.Coherent)
    (hslice : entries.Sublist s.audit.entries) (hroot : root = s.audit.root)
    (hproofs : inclusionProofs entries s.audit = .ok proofs) :
    (signBundle signer ctx input run entries now retention root proofs).Meets protocol
      (Answers crypto host signer.publicKeyPem request) s := by
  unfold signBundle
  refine Task.Meets.await fun t ht hst => ⟨ht, List.prefix_refl _, ?_⟩
  have hsize : (InMemoryAuditStore.root (t.newId (js "bundle")).2.audit).2 = s.audit.size :=
    congrArg AuditLog.size (audit_eq_of_rely hst rfl)
  dsimp only
  rw [hsize]
  refine Task.Meets.read fun u hu htu => ?_
  split
  · exact meets_problem _
  · rename_i bundle hcreate
    refine meets_recordBundle fun v hv huv hlt => ?_
    have hextends : s.audit.entries <+: v.audit.entries := hst.1.trans (htu.1.trans huv)
    have hlt' : s.audit.size < 2 ^ 31 := hextends.length_le.trans_lt hlt
    have hproves := proves_of_inclusionProofs hs (hlt'.trans (by norm_num)) hslice hproofs
    obtain ⟨hlogRoot, hlogSize, -, -, hvalid⟩ := verifyBundle_of_createBundle hkey hs hlt'.le
      ⟨hslice, ⟨proofs, hproves, rfl⟩, hroot, rfl⟩ hcreate host
    refine ⟨hvalid, s.audit.size, hextends.length_le, hlogSize, ?_⟩
    rw [hlogRoot, hv.rootAt_eq hs hextends le_rfl, hs.rootAt_size]

/-- Reading the root, then the proofs. -/
theorem meets_proveBundle (hkey : signer.Genuine crypto) {ctx : TenantContext}
    {input : GenerateBundleInput} {run : RunRecord} {entries : List AuditEntry}
    (hslice : entries.Sublist s.audit.entries) :
    (proveBundle signer ctx input run entries).Meets protocol
      (Answers crypto host signer.publicKeyPem request) s := by
  unfold proveBundle
  refine Task.Meets.read fun t ht hst => ?_
  split
  · exact meets_problem _
  refine Task.Meets.read fun u hu htu => ?_
  have heq := audit_eq_of_rely htu rfl
  split
  · exact meets_problem _
  · rename_i hproofs
    refine meets_signBundle hkey hu (hslice.trans (hst.1.trans htu.1).sublist) ?_ hproofs
    rw [heq]
    rfl

/-- **The bundle route.** -/
theorem meets_postBundle (hkey : signer.Genuine crypto) (ctx : TenantContext)
    (input : GenerateBundleInput) :
    (postBundle signer ctx input).Meets protocol
      (Answers crypto host signer.publicKeyPem request) s := by
  unfold postBundle
  split
  · exact meets_problem _
  refine Task.Meets.read fun t ht _ => ?_
  split
  · exact meets_problem _
  refine Task.Meets.read fun u hu _ => ?_
  split
  · exact meets_problem _
  · exact meets_proveBundle hkey (InMemoryAuditStore.entriesForSubject_sublist _ _ _)

/-- **Every handler meets the protocol**, and answers from one log state. -/
theorem Request.meets_task (hkey : signer.Genuine crypto) (hs : s.audit.Coherent)
    (request : Request) :
    (request.task signer).Meets protocol
      (fun x => Answers crypto host signer.publicKeyPem x.1 x.2) s := by
  refine Task.Meets.bind ?_ hs fun response t _ h => Task.Meets.pure h
  cases request with
  | bundle ctx input => exact meets_postBundle hkey ctx input
  | inclusionProof ctx seqParam => exact meets_getInclusionProof ctx seqParam
  | consistencyProof ctx fromSize => exact meets_getConsistencyProof ctx fromSize

end handlers

/-! ## One request for a consistency proof -/

/-- The first half of the consistency route reads the root and the size. -/
theorem resume_consistencyRoot {signer : KeySource} {ctx : TenantContext} {fromSize : ℕ}
    {s : Stores} (hscope : js "audit:read" ∈ ctx.scopes) (hle : fromSize ≤ s.audit.size) :
    ((Request.consistencyProof ctx fromSize).task signer).resume s =
      (proveConsistency fromSize (s.audit.root, s.audit.size) >>= fun response =>
        pure (.consistencyProof ctx fromSize, response), s) := by
  rw [Request.task, Request.handle, getConsistencyProof, if_neg (not_not.mpr hscope)]
  refine Prod.ext ?_ rfl
  change (if s.audit.size < fromSize then _ else _ : Task Stores Point Response) >>= _ = _
  rw [if_neg (not_lt.mpr hle)]
  rfl

/-- The second half reads the proof. -/
theorem resume_consistencyProof {fromSize : ℕ} {current : JsString × ℕ} {u : Stores}
    {proof : ConsistencyProof} {k : Response → Task Stores Point (Request × Response)}
    (hproof : u.audit.consistencyProof fromSize = .ok proof) :
    (proveConsistency fromSize current >>= k).resume u =
      (k (.consistencyProof proof current.1 current.2), u) := by
  unfold proveConsistency
  rw [Task.bind_assoc, Task.resume_await_bind]
  dsimp only [InMemoryAuditStore.consistencyProof]
  rw [hproof]
  rfl

/-- A caller who may read the log. -/
def auditor : TenantContext := ⟨js "tenant", js "user", [js "audit:read"]⟩

/-- The event that a run has started. -/
def startedEvent : AuditEvent := ⟨js "run.started", none, none, none⟩

/-- The event is recorded. -/
theorem append_startedEvent {s : Stores} (hs : s.audit.Coherent) (hlt : s.audit.size < 2 ^ 53) :
    (s.append auditor startedEvent).2.audit.Coherent ∧
      (s.append auditor startedEvent).2.audit.size = s.audit.size + 1 := by
  obtain ⟨entry, hentry⟩ := @AuditLog.exists_sealEvent s.audit
    ⟨some (js "run.started"), some (js "user"), some (js "tenant"), none, none, none⟩ s.clock
    rfl rfl rfl _ rfl
    (JsVal.isJson_obj.mpr ⟨List.nodup_nil, List.forall_mem_nil _⟩) hlt
  refine ⟨(InMemoryAuditStore.coherent_append hs _ _ _).1, ?_⟩
  change (s.audit.runAppend
    ⟨some (js "run.started"), some (js "user"), some (js "tenant"), none, none, none⟩
    s.clock).2.size = _
  rw [AuditLog.runAppend_eq, hentry]
  exact List.length_append

/-! ## Runs -/

namespace Server

variable {crypto : NodeCrypto} {host : JsString → Number} {signer : KeySource} {server : Server}

/-- No entry is added to the log while another request waits inside a window.
The condition is on the step and the state before it. -/
def Undisturbed (signer : KeySource) (server : Server) (e : Event) : Prop :=
  (server.step signer e).shared.audit = server.shared.audit ∨
    ∀ i task point, server.tasks[i]? = some task → e ≠ .resume i → task.point = some point →
      point.InWindow = false

/-- The requests of a server meet the protocol. -/
def Meets (crypto : NodeCrypto) (host : JsString → Number) (signer : KeySource)
    (server : Server) : Prop :=
  Pool.Meets protocol (fun x => Answers crypto host signer.publicKeyPem x.1 x.2) server

/-- Every event is admitted. -/
theorem Meets.admits (hkey : signer.Genuine crypto) (h : server.Meets crypto host signer)
    (e : Event) : Pool.Admits protocol (fun x => Answers crypto host signer.publicKeyPem x.1 x.2)
      server (e.toAsync signer) := by
  cases e with
  | arrive request => exact request.meets_task hkey h.1
  | resume i => trivial
  | append ctx event =>
    exact (InMemoryAuditStore.coherent_append h.1 ctx event server.shared.clock).1
  | others runs bundles clock idCounter => exact h.1

/-- The log only grows. -/
theorem Meets.prefix_step (h : server.Meets crypto host signer) (e : Event) :
    server.shared.audit.entries <+: (server.step signer e).shared.audit.entries := by
  cases e with
  | arrive request => exact List.prefix_refl _
  | resume i => exact Pool.Meets.guar h i
  | append ctx event =>
    exact (InMemoryAuditStore.coherent_append h.1 ctx event server.shared.clock).2
  | others runs bundles clock idCounter => exact List.prefix_refl _

/-- A step that disturbs no window keeps what every waiting request relies on. -/
theorem Meets.undisturbed (h : server.Meets crypto host signer) {e : Event}
    (hquiet : server.Undisturbed signer e) :
    Pool.Undisturbed protocol server (e.toAsync signer) := by
  intro i t ht hne
  refine ⟨h.prefix_step e, fun point hpoint hwindow => ?_⟩
  rcases hquiet with hquiet | hquiet
  · exact hquiet
  · have hne' : e ≠ .resume i := by
      rintro rfl
      exact hne rfl
    rw [hquiet i t point ht hne' hpoint] at hwindow
    cases hwindow

/-- **A run whose steps disturb no window keeps the protocol.** -/
theorem Meets.run (hkey : signer.Genuine crypto) (h : server.Meets crypto host signer)
    {events : List Event}
    (hquiet : ∀ past e later, events = past ++ e :: later →
      (server.run signer past).Undisturbed signer e) :
    (server.run signer events).Meets crypto host signer := by
  refine Pool.Meets.run h fun past' e' later' hevents hmeets => ?_
  obtain ⟨past, rest, rfl, rfl, hrest⟩ := List.map_eq_append_iff.mp hevents
  obtain ⟨e, later, rfl, rfl, -⟩ := List.map_eq_cons_iff.mp hrest
  have hmeets' : (server.run signer past).Meets crypto host signer := hmeets
  exact ⟨hmeets'.admits hkey e, hmeets'.undisturbed (hquiet past e later rfl)⟩

/-- A server that has just started meets the protocol. -/
theorem meets_start (clock : TimeValue) : (start clock).Meets crypto host signer :=
  ⟨AuditLog.Coherent.new, List.forall_mem_nil _⟩

end Server

/-- **Proofs, roots and sizes of one log state.** Over any interleaving of requests, of their
resumptions, of appends by others and of any other change to the stores, in which no entry is added
while a request waits inside a window: every response, as long as the log has fewer than `2 ^ 31`
entries, is of one log state. -/
theorem proof_routes_one_state (crypto : NodeCrypto) (host : JsString → Number)
    (signer : KeySource) (hkey : signer.Genuine crypto) (clock : TimeValue) (events : List Event)
    (hquiet : ∀ past e later, events = past ++ e :: later →
      ((Server.start clock).run signer past).Undisturbed signer e)
    (hlt : ((Server.start clock).run signer events).shared.audit.size < 2 ^ 31) :
    ∀ x ∈ ((Server.start clock).run signer events).results,
      x.2.OfOneState crypto host signer.publicKeyPem x.1
        ((Server.start clock).run signer events).shared.audit := by
  intro x hx
  exact Pool.Meets.post_of_mem ((Server.meets_start clock).run hkey hquiet) hx hlt

/-- An entry is recorded, and a request for a consistency proof is answered. -/
def quietEvents : List Event :=
  [.append auditor startedEvent, .arrive (.consistencyProof auditor 1), .resume 0, .resume 0]

/-- A run of four steps. -/
theorem proof_routes_one_state_consistency :
    ((Server.start ⟨0, TimeValue.zero_inRange⟩).run digestKey quietEvents).results ≠ [] ∧
    ∀ x ∈ ((Server.start ⟨0, TimeValue.zero_inRange⟩).run digestKey quietEvents).results,
      x.2.OfOneState digestCrypto (fun _ => .nan) digestKey.publicKeyPem x.1
        ((Server.start ⟨0, TimeValue.zero_inRange⟩).run digestKey quietEvents).shared.audit := by
  have hscope : js "audit:read" ∈ auditor.scopes := List.mem_singleton_self _
  obtain ⟨hs, hone⟩ := append_startedEvent (s := ⟨.new, [], [], ⟨0, TimeValue.zero_inRange⟩, 0⟩)
    AuditLog.Coherent.new (by norm_num [AuditLog.size, AuditLog.new])
  generalize hs' : (Stores.append auditor startedEvent
    ⟨.new, [], [], ⟨0, TimeValue.zero_inRange⟩, 0⟩).2 = s at hs hone
  change s.audit.size = 1 at hone
  obtain ⟨proof, hproof, -⟩ := hs.verifyConsistency_rootAt (n := 1) (by rw [hone]; norm_num)
    (by rw [hone])
  refine ⟨?_, proof_routes_one_state digestCrypto _ digestKey genuine_digestKey _ quietEvents ?_ ?_⟩
  · rw [quietEvents]
    simp only [Server.run_cons, Server.start, Server.step_append, hs', Server.step_arrive,
      List.nil_append, Server.step_resume_zero, Server.run_nil,
      resume_consistencyRoot hscope hone.ge, resume_consistencyProof hproof]
    exact List.cons_ne_nil _ _
  · refine forall_steps_cons (.inr (by simp [Server.start])) (forall_steps_cons ?_ (forall_steps_cons ?_
      (forall_steps_cons ?_ fun _ _ _ h => absurd h (by simp))))
    all_goals
      refine .inl ?_
      simp only [Server.run_cons, Server.start, Server.step_append, hs', Server.step_arrive,
        List.nil_append, Server.step_resume_zero, Server.run_nil,
        resume_consistencyRoot hscope hone.ge, resume_consistencyProof hproof]
  · rw [quietEvents]
    simp only [Server.run_cons, Server.start, Server.step_append, hs', Server.step_arrive,
      List.nil_append, Server.step_resume_zero, Server.run_nil,
      resume_consistencyRoot hscope hone.ge, resume_consistencyProof hproof, hone]
    norm_num

/-- A request for a consistency proof from the first entry; a second entry is added between the
reading of the root and the reading of the proof. -/
def mixedEvents : List Event :=
  [.append auditor startedEvent, .arrive (.consistencyProof auditor 1), .resume 0,
    .append auditor startedEvent, .resume 0]

/-- **An append inside a window mixes two states**: the response has the size one and a proof for
the size two. -/
theorem proof_routes_append :
    ∃ x ∈ ((Server.start ⟨0, TimeValue.zero_inRange⟩).run digestKey mixedEvents).results,
      ¬ x.2.OfOneState digestCrypto (fun _ => .nan) digestKey.publicKeyPem x.1
        ((Server.start ⟨0, TimeValue.zero_inRange⟩).run digestKey mixedEvents).shared.audit := by
  have hscope : js "audit:read" ∈ auditor.scopes := List.mem_singleton_self _
  obtain ⟨hs, hone⟩ := append_startedEvent (s := ⟨.new, [], [], ⟨0, TimeValue.zero_inRange⟩, 0⟩)
    AuditLog.Coherent.new (by norm_num [AuditLog.size, AuditLog.new])
  generalize hs' : (Stores.append auditor startedEvent
    ⟨.new, [], [], ⟨0, TimeValue.zero_inRange⟩, 0⟩).2 = s at hs hone
  change s.audit.size = 1 at hone
  obtain ⟨ht, htwo⟩ := append_startedEvent hs (by rw [hone]; norm_num)
  generalize ht' : (s.append auditor startedEvent).2 = t at ht htwo
  rw [hone] at htwo
  obtain ⟨proof, hproof, -⟩ := ht.verifyConsistency_rootAt (n := 1) (by rw [htwo]; norm_num)
    (by rw [htwo]; norm_num)
  have hrun : (Server.start ⟨0, TimeValue.zero_inRange⟩).run digestKey mixedEvents =
      ⟨t, [pure (.consistencyProof auditor 1,
        .consistencyProof proof s.audit.root s.audit.size)]⟩ := by
    rw [mixedEvents, Server.run_cons, Server.start, Server.step_append, hs', Server.run_cons,
      Server.step_arrive, List.nil_append, Server.run_cons, Server.step_resume_zero,
      resume_consistencyRoot hscope hone.ge, Server.run_cons, Server.step_append, ht',
      Server.run_cons, Server.step_resume_zero, resume_consistencyProof hproof, Server.run_nil]
  rw [hrun]
  refine ⟨_, List.mem_singleton_self _, fun h => ?_⟩
  have hsecond : proof.secondSize = .ofNat s.audit.size := h.2.1
  rw [ht.secondSize_eq hproof, hone, htwo] at hsecond
  exact absurd (Number.ofNat_injOn (by norm_num) (by norm_num) hsecond) (by norm_num)

end AgentEval.Api
