import AgentEval.Evidence.AuditLog

/-!
# Integrity of the audit log

`AuditLog` keeps its entries, the tree over their hashes and the head of their chain apart from one
another. `Coherent` is the invariant that ties the three together.

* `append_cases` — a call throws and leaves the log alone, or adds one digested entry to all three.
* **`Coherent.runFrom`**: the invariant holds after any list of calls.
* **`audit_log_integrity`**: over every run the chain verifies, every entry is provably in the tree
  and every earlier root is provably extended.
* **`chain_binding`**: two accepted chains with one head record the same history.
-/

namespace AgentEval.Evidence

open Js Sha256 Crypto

/-! ## The invariant -/

namespace AuditLog

/-- The data of the leaf of an entry. -/
def leafData (entry : AuditEntry) : LeafData := .buffer (fromHex entry.entryHash)

/-- The entries are an accepted chain, and the head and the tree are theirs. -/
structure Coherent (log : AuditLog) : Prop where
  /-- Every entry is at its position and names the hash before it. -/
  chained : Chained 0 genesisHash log.entries
  /-- The sequence numbers are the positions. -/
  numbered : log.entries.map (·.seq) = (List.range log.entries.length).map .ofNat
  /-- Every entry carries its own digest. -/
  digested : ∀ e ∈ log.entries, Digested e
  /-- The head of the chain. -/
  lastHash : log.lastHash = chainHead (·.entryHash) genesisHash log.entries
  /-- The tree over the hashes of the entries. -/
  tree : log.tree = .ofData (log.entries.map leafData)

/-- The empty log. -/
theorem Coherent.new : Coherent .new :=
  ⟨trivial, rfl, List.forall_mem_nil _, rfl, rfl⟩

/-- **What a call does**: it throws and leaves the log alone, or it adds one entry, which carries its
own digest, to all three parts. -/
theorem append_cases (input : AuditEventInput) (now : TimeValue) (log : AuditLog) :
    (∃ e, runAppend input now log = (.error e, log)) ∨
      ∃ entry, runAppend input now log = (.ok entry, log.extend entry) ∧
        entry.seq = .ofNat log.entries.length ∧ entry.previousHash = log.lastHash ∧
        Digested entry := by
  rw [runAppend_eq]
  cases h : sealEvent log input now with
  | error e => exact Or.inl ⟨e, rfl⟩
  | ok entry => exact Or.inr ⟨entry, rfl, sealEvent_ok h⟩

/-- One more entry keeps the parts in step. -/
theorem Coherent.extend {log : AuditLog} {entry : AuditEntry} (h : log.Coherent)
    (hseq : entry.seq = .ofNat log.entries.length) (hprev : entry.previousHash = log.lastHash)
    (hdigest : Digested entry) : (log.extend entry).Coherent where
  chained := by
    refine (linked_append_singleton _ _ _ _).mpr ⟨h.chained, ?_, hprev.trans h.lastHash⟩
    rw [hseq, Nat.zero_add]
  numbered := by
    rw [AuditLog.extend, List.map_append, h.numbered, List.length_append, List.length_singleton,
      List.range_succ, List.map_append, List.map_singleton, List.map_singleton, hseq]
  digested := by
    intro e he
    rcases List.mem_append.mp he with he | he
    · exact h.digested e he
    · rw [List.mem_singleton.mp he]
      exact hdigest
  lastHash := (chainHead_append_singleton (fun e : AuditEntry => e.entryHash) _ _ entry).symm
  tree := by
    rw [AuditLog.extend, h.tree, MerkleTree.ofData, MerkleTree.ofData, List.map_append,
      List.foldl_append]
    rfl

/-- **A call keeps the parts in step**, whether it throws or not. -/
theorem Coherent.append {log : AuditLog} (h : log.Coherent) (input : AuditEventInput)
    (now : TimeValue) : (runAppend input now log).2.Coherent := by
  rcases append_cases input now log with ⟨e, hrun⟩ | ⟨entry, hrun, hseq, hprev, hdigest⟩
  · rw [hrun]
    exact h
  · rw [hrun]
    exact h.extend hseq hprev hdigest

/-! ## Runs -/

/-- The log after a list of calls, each with the reading of the clock; a call that throws is
followed by the next one. -/
def runFrom (log : AuditLog) (calls : List (AuditEventInput × TimeValue)) : AuditLog :=
  calls.foldl (fun log call => (runAppend call.1 call.2 log).2) log

/-- The log after a list of calls on a new one. -/
def run (calls : List (AuditEventInput × TimeValue)) : AuditLog := runFrom .new calls

/-- **The parts stay in step over every run.** -/
theorem Coherent.runFrom {log : AuditLog} (h : log.Coherent)
    (calls : List (AuditEventInput × TimeValue)) : (log.runFrom calls).Coherent := by
  induction calls generalizing log with
  | nil => exact h
  | cons call calls ih => exact ih (h.append call.1 call.2)

/-- Every reachable log is coherent. -/
theorem coherent_run (calls : List (AuditEventInput × TimeValue)) : (run calls).Coherent :=
  Coherent.new.runFrom calls

/-- A call only ever adds an entry. -/
theorem prefix_append (input : AuditEventInput) (now : TimeValue) (log : AuditLog) :
    log.entries <+: (runAppend input now log).2.entries := by
  rcases append_cases input now log with ⟨e, hrun⟩ | ⟨entry, hrun, -⟩
  · rw [hrun]
  · rw [hrun]
    exact List.prefix_append _ _

/-- A run only ever adds entries. -/
theorem prefix_runFrom (log : AuditLog) (calls : List (AuditEventInput × TimeValue)) :
    log.entries <+: (log.runFrom calls).entries := by
  induction calls generalizing log with
  | nil => exact List.prefix_refl _
  | cons call calls ih => exact (prefix_append call.1 call.2 log).trans (ih _)

/-- A run goes on where its first part ended. -/
theorem run_append (calls more : List (AuditEventInput × TimeValue)) :
    run (calls ++ more) = (run calls).runFrom more := List.foldl_append ..

/-! ## What a coherent log proves -/

section coherent

variable {log : AuditLog}

/-- The leaves of the tree. -/
theorem Coherent.leaves (h : log.Coherent) :
    log.tree.leaves = log.entries.map fun e => hashLeaf (leafData e) := by
  rw [h.tree, MerkleTree.leaves_ofData, List.map_map]
  rfl

/-- The sequence number of an entry is its position. -/
theorem Coherent.seq_eq (h : log.Coherent) {seq : ℕ} {entry : AuditEntry}
    (hentry : log.entries[seq]? = some entry) : entry.seq = .ofNat seq := by
  obtain ⟨hlt, -⟩ := List.getElem?_eq_some_iff.mp hentry
  have hmap : (log.entries.map (·.seq))[seq]? = ((List.range log.entries.length).map .ofNat)[seq]? :=
    congrArg (·[seq]?) h.numbered
  rw [List.getElem?_map, hentry, List.getElem?_map, List.getElem?_range hlt] at hmap
  exact Option.some.inj hmap

/-- The tree has a leaf for every entry. -/
theorem Coherent.size_tree (h : log.Coherent) : log.tree.size = log.size := by
  rw [MerkleTree.size, h.leaves, List.length_map, size]

/-- The chain is accepted. -/
theorem Coherent.verify (h : log.Coherent) : log.verify.valid = true :=
  verifyChain_valid_iff.mpr ⟨h.chained, h.digested⟩

/-- **Every entry is provably in the tree.** -/
theorem Coherent.verifyInclusion (h : log.Coherent) (hle : log.size ≤ 2 ^ 31) {seq : ℕ}
    {entry : AuditEntry} (hentry : log.entries[seq]? = some entry) :
    ∃ p, log.inclusionProof seq = .ok p ∧
      (verifyInclusion p (leafData entry) log.root).valid = true := by
  refine log.tree.verifyInclusion_inclusionProof ?_ ?_
  · rw [h.leaves, List.getElem?_map, hentry]
    rfl
  · have hsize := h.size_tree
    rw [MerkleTree.size] at hsize
    rwa [hsize]

/-- The leaf bytes of an entry. -/
theorem leafFor_eq {seq : ℕ} {entry : AuditEntry} (hentry : log.entries[seq]? = some entry) :
    log.leafFor seq = .ok (fromHex entry.entryHash) := by
  rw [leafFor, entryAt, if_neg (by omega), Int.toNat_natCast, hentry]
  rfl

/-- The root over the first entries of a log: what its root was when it had that many. -/
def rootAt (log : AuditLog) (n : ℕ) : JsString := (MerkleTree.mk (log.tree.leaves.take n)).root

/-- The root over all entries. -/
theorem Coherent.rootAt_size (h : log.Coherent) : log.rootAt log.size = log.root := by
  have hsize := h.size_tree
  rw [MerkleTree.size] at hsize
  rw [rootAt, ← hsize, List.take_length, root]

/-- An earlier root is found in the log that extends it. -/
theorem Coherent.rootAt_eq {old : AuditLog} (h : log.Coherent) (hold : old.Coherent)
    (hextends : old.entries <+: log.entries) {n : ℕ} (hn : n ≤ old.size) :
    log.rootAt n = old.rootAt n := by
  obtain ⟨rest, hrest⟩ := hextends
  rw [rootAt, rootAt, h.leaves, hold.leaves, ← hrest, List.map_append,
    List.take_append_of_le_length]
  rwa [List.length_map]

/-- **The log is provably an extension of its own beginning.** -/
theorem Coherent.verifyConsistency_rootAt (h : log.Coherent) (hlt : log.size < 2 ^ 31) {n : ℕ}
    (hn : n ≤ log.size) :
    ∃ p, log.consistencyProof n = .ok p ∧
      (verifyConsistency p (log.rootAt n) log.root).valid = true := by
  have hsize := h.size_tree
  rw [MerkleTree.size] at hsize
  exact log.tree.verifyConsistency_consistencyProof (hsize ▸ hn) (hsize ▸ hlt)

/-- A consistency proof states the size of the log. -/
theorem Coherent.secondSize_eq (h : log.Coherent) {n : ℤ} {p : ConsistencyProof}
    (hp : log.consistencyProof n = .ok p) : p.secondSize = .ofNat log.size := by
  have hsize := h.size_tree
  rw [MerkleTree.size] at hsize
  rw [consistencyProof, MerkleTree.consistencyProof] at hp
  split at hp
  · cases hp
  · cases hp
    rw [hsize]

/-- **An earlier log is provably extended.** -/
theorem Coherent.verifyConsistency {old : AuditLog} (h : log.Coherent) (hold : old.Coherent)
    (hlt : log.size < 2 ^ 31) (hextends : old.entries <+: log.entries) :
    ∃ p, log.consistencyProof old.size = .ok p ∧
      (verifyConsistency p old.root log.root).valid = true := by
  rw [← hold.rootAt_size, ← h.rootAt_eq hold hextends le_rfl]
  exact h.verifyConsistency_rootAt hlt hextends.length_le

end coherent

end AuditLog

/-! ## Integrity over whole runs -/

open AuditLog in
/-- **Integrity of the log.** After any list of calls, throwing ones among them, the chain is
accepted, the tree has a leaf for every entry, every entry is provably in it, every log there was
on the way is provably extended, and the next call that throws changes nothing. -/
theorem audit_log_integrity (calls : List (AuditEventInput × TimeValue))
    (hlt : (run calls).size < 2 ^ 31) :
    (verifyChain (run calls).all).valid = true ∧
      (run calls).tree.size = (run calls).size ∧
      (∀ seq : ℕ, seq < (run calls).size → ∃ p leaf, (run calls).inclusionProof seq = .ok p ∧
        (run calls).leafFor seq = .ok leaf ∧
        (verifyInclusion p (.buffer leaf) (run calls).root).valid = true) ∧
      (∀ n, ∃ p, (run calls).consistencyProof (run (calls.take n)).size = .ok p ∧
        (verifyConsistency p (run (calls.take n)).root (run calls).root).valid = true) ∧
      ∀ input now e log, runAppend input now (run calls) = (.error e, log) → log = run calls := by
  have h := coherent_run calls
  refine ⟨h.verify, h.size_tree, ?_, ?_, ?_⟩
  · intro seq hseq
    have hentry := List.getElem?_eq_getElem hseq
    obtain ⟨p, hp, hvalid⟩ := h.verifyInclusion hlt.le hentry
    exact ⟨p, _, hp, leafFor_eq hentry, hvalid⟩
  · intro n
    refine h.verifyConsistency (coherent_run _) hlt ?_
    have hsplit := run_append (calls.take n) (calls.drop n)
    rw [List.take_append_drop] at hsplit
    rw [hsplit]
    exact prefix_runFrom _ _
  · intro input now e log hrun
    rcases append_cases input now (run calls) with ⟨e', heq⟩ | ⟨entry, heq, -⟩
    · rw [heq] at hrun
      exact (Prod.mk.inj hrun).2.symm
    · rw [heq] at hrun
      exact absurd (Prod.mk.inj hrun).1 (by simp)

/-- A call without an actor, which throws, and one with. -/
def startedCalls : List (AuditEventInput × TimeValue) :=
  [(⟨some (js "run.started"), none, some (js "tenant"), none, none, none⟩, ⟨0, TimeValue.zero_inRange⟩),
    (⟨some (js "run.started"), some (js "user"), some (js "tenant"), none, none, none⟩,
      ⟨0, TimeValue.zero_inRange⟩)]

open AuditLog in
/-- The second call is recorded. -/
theorem exists_run_startedCalls :
    ∃ entry, (run startedCalls).entries = [entry] ∧ entry.tenantId = js "tenant" := by
  obtain ⟨entry, hseal⟩ := @exists_sealEvent .new startedCalls[1].1 startedCalls[1].2
    rfl rfl rfl _ rfl
    (JsVal.isJson_obj.mpr ⟨List.nodup_nil, List.forall_mem_nil _⟩) (by norm_num [new])
  have hfirst : runAppend startedCalls[0].1 startedCalls[0].2 new =
      (.error (.error (js "an audit event needs an actor")), new) := by
    rw [runAppend_eq]
    rfl
  have hsecond : runAppend startedCalls[1].1 startedCalls[1].2 new =
      (.ok entry, new.extend entry) := by
    rw [runAppend_eq, hseal]
  have hrun : run startedCalls = (runAppend startedCalls[1].1 startedCalls[1].2
      (runAppend startedCalls[0].1 startedCalls[0].2 new).2).2 := rfl
  obtain ⟨_, _, -, -, hentry⟩ := exists_seal_of_sealEvent hseal
  refine ⟨entry, ?_, ?_⟩
  · rw [hrun, hfirst, hsecond]
    rfl
  · rw [hentry]
    rfl

open AuditLog in
/-- The log has one entry. -/
theorem size_run_startedCalls : (run startedCalls).size = 1 := by
  obtain ⟨entry, hentries, -⟩ := exists_run_startedCalls
  rw [size, hentries]
  rfl

open AuditLog in
/-- A run of two calls. -/
theorem audit_log_integrity_started :
    (verifyChain (run startedCalls).all).valid = true ∧
      (run startedCalls).tree.size = (run startedCalls).size ∧
      (∀ seq : ℕ, seq < (run startedCalls).size →
        ∃ p leaf, (run startedCalls).inclusionProof seq = .ok p ∧
          (run startedCalls).leafFor seq = .ok leaf ∧
          (verifyInclusion p (.buffer leaf) (run startedCalls).root).valid = true) ∧
      (∀ n, ∃ p, (run startedCalls).consistencyProof (run (startedCalls.take n)).size = .ok p ∧
        (verifyConsistency p (run (startedCalls.take n)).root
          (run startedCalls).root).valid = true) ∧
      ∀ input now e log, runAppend input now (run startedCalls) = (.error e, log) →
        log = run startedCalls :=
  audit_log_integrity startedCalls (by rw [size_run_startedCalls]; norm_num)

/-! ## Binding -/

/-- Without a collision among their preimages, entries with one hash have one JSON form up to the
order of keys. -/
theorem sameUpToKeyOrder_of_entryHash_eq {e f : AuditEntry} {s : List Bytes} (he : Digested e)
    (hf : Digested f) (hS : ¬ CollisionIn sha256 s) (hes : canonicalBytes e.rest ∈ s)
    (hfs : canonicalBytes f.rest ∈ s) (h : e.entryHash = f.entryHash) :
    e.rest.toJs.jsonForm.SameUpToKeyOrder f.rest.toJs.jsonForm := by
  obtain ⟨hje, hhe⟩ := canonicalDigest_eq_ok_iff.mp he
  obtain ⟨hjf, hhf⟩ := canonicalDigest_eq_ok_iff.mp hf
  have hhash : sha256 (canonicalBytes e.rest) = sha256 (canonicalBytes f.rest) :=
    eq_of_toHex_eq (by rw [← hhe, ← hhf, h])
  have hpre := eq_of_not_collisionIn hS hes hfs hhash
  exact sameUpToKeyOrder_of_canonicalText_eq hje hjf (canonicalText_eq_of_utf8_eq hpre)

/-- What two records of one event agree on: every field, the payload up to the order of keys in its
JSON form. -/
structure SameRecord (e f : AuditEntry) : Prop where
  seq : e.seq = f.seq
  recordedAt : e.recordedAt = f.recordedAt
  action : e.action = f.action
  actor : e.actor = f.actor
  tenantId : e.tenantId = f.tenantId
  subject : e.subject = f.subject
  payload : e.payload.toJs.jsonForm.SameUpToKeyOrder f.payload.toJs.jsonForm
  previousHash : e.previousHash = f.previousHash
  entryHash : e.entryHash = f.entryHash

/-- Entries whose JSON forms differ by the order of keys have the same property at every key. -/
theorem sameUpToKeyOrder_get {e f : AuditEntry} {key : JsString} (hkey : key ≠ js "entryHash")
    (h : e.rest.toJs.jsonForm.SameUpToKeyOrder f.rest.toJs.jsonForm) :
    (e.get key).jsonForm.SameUpToKeyOrder (f.get key).jsonForm := by
  rw [← PlainObject.toJs_json, ← PlainObject.toJs_json] at h
  have hget : (e.rest.json.get key).SameUpToKeyOrder (f.rest.json.get key) :=
    h.getProp e.rest.json.wf
  rwa [PlainObject.get_json, PlainObject.get_json, AuditEntry.rest, AuditEntry.rest,
    PlainObject.get_without hkey, PlainObject.get_without hkey] at hget

/-- Neither an array, an object nor a date. -/
def IsPrimitive : JsVal → Prop
  | .arr _ | .obj _ | .date _ => False
  | _ => True

/-- A primitive value is its own JSON form, whatever the order of keys. -/
theorem IsPrimitive.sortKeys_jsonForm {v : JsVal} (h : IsPrimitive v) :
    v.jsonForm.WF ∧ v.jsonForm.sortKeys = v := by
  cases v with
  | arr xs => exact h.elim
  | obj ps => exact h.elim
  | date t => exact h.elim
  | _ => exact ⟨trivial, rfl⟩

/-- Primitive properties of entries with one JSON form are equal. -/
theorem eq_of_isPrimitive {e f : AuditEntry} {key : JsString} {v w : JsVal}
    (hrest : e.rest.toJs.jsonForm.SameUpToKeyOrder f.rest.toJs.jsonForm)
    (he : e.get key = v) (hf : f.get key = w) (hkey : key ≠ js "entryHash")
    (hv : IsPrimitive v) (hw : IsPrimitive w) : v = w := by
  have hsame := sameUpToKeyOrder_get hkey hrest
  rw [he, hf] at hsame
  rw [← hv.sortKeys_jsonForm.2, ← hw.sortKeys_jsonForm.2]
  exact (JsVal.sortKeys_eq_iff hv.sortKeys_jsonForm.1).mpr hsame

/-- **Entries with one hash record the same event**, without a collision among their preimages. -/
theorem sameRecord_of_entryHash_eq {e f : AuditEntry} {s : List Bytes} (he : Digested e)
    (hf : Digested f) (hS : ¬ CollisionIn sha256 s) (hes : canonicalBytes e.rest ∈ s)
    (hfs : canonicalBytes f.rest ∈ s) (h : e.entryHash = f.entryHash) : SameRecord e f := by
  have hrest := sameUpToKeyOrder_of_entryHash_eq he hf hS hes hfs h
  have hstr : ∀ {key a b}, e.get key = .str a → f.get key = .str b →
      key ≠ js "entryHash" → a = b := fun ha hb hkey =>
    JsVal.str.inj (eq_of_isPrimitive hrest ha hb hkey trivial trivial)
  have hsubject : ∀ o : Option JsString, IsPrimitive (o.elim .null .str) := by
    rintro (_ | _) <;> trivial
  refine
    { seq := ?_
      recordedAt := hstr e.get_recordedAt f.get_recordedAt (by simp)
      action := hstr e.get_action f.get_action (by simp)
      actor := hstr e.get_actor f.get_actor (by simp)
      tenantId := hstr e.get_tenantId f.get_tenantId (by simp)
      subject := ?_
      payload := ?_
      previousHash := hstr e.get_previousHash f.get_previousHash (by simp)
      entryHash := h }
  · exact JsVal.num.inj
      (eq_of_isPrimitive hrest e.get_seq f.get_seq (by simp) trivial trivial)
  · have heq := eq_of_isPrimitive hrest e.get_subject f.get_subject (by simp)
      (hsubject _) (hsubject _)
    revert heq
    cases e.subject <;> cases f.subject <;> simp
  · have hsame := @sameUpToKeyOrder_get _ _ (js "payload") (by simp) hrest
    rwa [e.get_payload, f.get_payload] at hsame

/-- The head of a chain is the hash of its last entry. -/
theorem chainHead_eq_getLast? (entries : List AuditEntry) (g : JsString) :
    chainHead (·.entryHash) g entries = (entries.getLast?.map (·.entryHash)).getD g := by
  rcases List.eq_nil_or_concat' entries with rfl | ⟨es, e, rfl⟩
  · rfl
  · simp

/-- Only position 0 is numbered 0. -/
theorem place_ofNat_eq_zero {i : ℕ} (h : (Number.ofNat i).place = (Number.ofNat 0).place) :
    i = 0 := by
  by_contra hi
  have hlt := Number.lt_ofNat_of_lt (b := 0) (by norm_num) (Nat.pos_of_ne_zero hi)
  obtain ⟨q, hq⟩ := Option.isSome_iff_exists.mp (Number.isSome_place_ofNat 0)
  rw [Number.lt, h, hq] at hlt
  exact absurd (of_decide_eq_true hlt) (lt_irrefl _)

/-- **An accepted chain binds its history.** Two accepted lists of entries whose last entries carry
the same hash record the same events one by one, without a collision among their preimages. -/
theorem chain_binding (xs ys : List AuditEntry) (hxs : (verifyChain xs).valid = true)
    (hys : (verifyChain ys).valid = true)
    (hhead : xs.getLast?.map (·.entryHash) = ys.getLast?.map (·.entryHash))
    (hS : ¬ CollisionIn sha256 ((xs ++ ys).map fun e => canonicalBytes e.rest)) :
    List.Forall₂ SameRecord xs ys := by
  obtain ⟨hcx, hdx⟩ := verifyChain_valid_iff.mp hxs
  obtain ⟨hcy, hdy⟩ := verifyChain_valid_iff.mp hys
  by_cases hx : xs = []
  · subst hx
    have hy : ys = [] := by simpa using hhead.symm
    rw [hy]
    exact .nil
  · have hy : ys ≠ [] := by
      rintro rfl
      exact hx (by simpa using hhead)
    refine forall₂_of_chainHead_eq _ _ _ _ ?_ ?_ ?_ ?_ hcx hcy hx hy ?_
    · intro e he f hf h
      refine sameRecord_of_entryHash_eq (hdx e he) (hdy f hf) hS ?_ ?_ h
      · exact List.mem_map_of_mem (List.mem_append_left _ he)
      · exact List.mem_map_of_mem (List.mem_append_right _ hf)
    · intro e f h
      exact congrArg Number.place h.seq
    · intro e f h
      exact h.previousHash
    · intro i h
      exact place_ofNat_eq_zero h
    · rw [chainHead_eq_getLast?, chainHead_eq_getLast?, hhead]

/-- A payload whose only property is `undefined`. -/
def undefinedPayload : PlainObject where
  props := [(js "x", .undefined)]
  wf := JsVal.wf_obj.mpr ⟨List.nodup_singleton _, List.forall_mem_singleton.mpr trivial⟩

/-- The first entry of a log before it is sealed, with a payload. -/
def started (payload : PlainObject) : PlainObject :=
  unsealed 0 (js "2026-01-01T00:00:00.000Z") (js "run.started") (js "user") (js "tenant") none
    payload genesisHash

/-- That entry under the hash it has with an empty payload. -/
def startedEntry (payload : PlainObject) : AuditEntry :=
  .seal 0 (js "2026-01-01T00:00:00.000Z") (js "run.started") (js "user") (js "tenant") none payload
    genesisHash (toHex (sha256 (canonicalBytes (started .empty))).bytes)

/-- The entry is accepted with any payload whose JSON form is empty, and hashes the same octets. -/
theorem verifyChain_startedEntry {payload : PlainObject}
    (hpayload : payload.toJs.jsonForm = PlainObject.empty.toJs) :
    canonicalBytes (startedEntry payload).rest = canonicalBytes (started .empty) ∧
      (verifyChain [startedEntry payload]).valid = true := by
  have hempty := PlainObject.jsonForm_empty
  have hform : (started payload).toJs.jsonForm = (started .empty).toJs.jsonForm := by
    rw [started, started, PlainObject.toJs, PlainObject.toJs, JsVal.jsonForm_obj,
      JsVal.jsonForm_obj]
    simp only [unsealed, unsealedProps, PlainObject.toJs] at hpayload hempty ⊢
    simp [JsVal.isUndefined, hpayload, hempty]
  have hbytes : canonicalBytes (started payload) = canonicalBytes (started .empty) := by
    rw [canonicalBytes, canonicalBytes, canonicalText, canonicalText, hform]
  have hjson : payload.toJs.jsonForm.IsJson := by
    rw [hpayload]
    exact JsVal.isJson_obj.mpr ⟨List.nodup_nil, List.forall_mem_nil _⟩
  refine ⟨hbytes, verifyChain_valid_iff.mpr ⟨⟨rfl, rfl, trivial⟩, ?_⟩⟩
  refine List.forall_mem_singleton.mpr (canonicalDigest_eq_ok_iff.mpr ⟨?_, ?_⟩)
  · exact isJson_unsealed _ _ _ _ _ _ (by norm_num) hjson
  · exact congrArg (fun b => toHex (sha256 b).bytes) hbytes.symm

/-- The JSON form of the payload is empty. -/
theorem jsonForm_undefinedPayload : undefinedPayload.toJs.jsonForm = PlainObject.empty.toJs :=
  JsVal.jsonForm_obj [(js "x", .undefined)]

/-- There is one preimage only. -/
theorem not_collisionIn_startedEntry : ¬ CollisionIn sha256
    (([startedEntry .empty] ++ [startedEntry undefinedPayload]).map
      fun e => canonicalBytes e.rest) := by
  rintro ⟨x, hx, y, hy, hne, -⟩
  rw [List.map_append, List.map_singleton, List.map_singleton,
    (verifyChain_startedEntry jsonForm_undefinedPayload).1] at hx hy
  have hrest : (startedEntry .empty).rest = started .empty := rfl
  rw [hrest] at hx hy
  exact hne (by simp_all)

/-- Two accepted logs with one head and no collision, whose payloads differ: one has an `undefined`
property where the other has none. -/
theorem chain_binding_undefined :
    (verifyChain [startedEntry .empty]).valid = true ∧
      (verifyChain [startedEntry undefinedPayload]).valid = true ∧
      (startedEntry .empty).entryHash = (startedEntry undefinedPayload).entryHash ∧
      ¬ CollisionIn sha256 (([startedEntry .empty] ++ [startedEntry undefinedPayload]).map
        fun e => canonicalBytes e.rest) ∧
      ¬ (startedEntry .empty).payload.toJs.SameUpToKeyOrder
        (startedEntry undefinedPayload).payload.toJs := by
  refine ⟨(verifyChain_startedEntry PlainObject.jsonForm_empty).2,
    (verifyChain_startedEntry jsonForm_undefinedPayload).2, rfl, not_collisionIn_startedEntry, ?_⟩
  intro h
  have hsort := (h.sortKeys_eq PlainObject.empty.wf).1
  cases hsort

/-- The two logs record the same event. -/
theorem chain_binding_started :
    List.Forall₂ SameRecord [startedEntry .empty] [startedEntry undefinedPayload] :=
  chain_binding _ _ (verifyChain_startedEntry PlainObject.jsonForm_empty).2
    (verifyChain_startedEntry jsonForm_undefinedPayload).2 rfl not_collisionIn_startedEntry

end AgentEval.Evidence
