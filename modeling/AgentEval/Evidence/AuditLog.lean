import AgentEval.Crypto.HashChain
import AgentEval.Evidence.Canonical
import AgentEval.Evidence.ProofCorrect

/-!
# `audit-log.ts`: the hash-chained log

An `AuditEntry` is an object with the properties its interface names, in any order and with any
others beside them. `verifyChain` and `verifyEntrySlice` check entries on their own; `AuditLog`
keeps the entries, a Merkle tree over their hashes and the head of the chain, and `append` updates
the three one after the other.

* **`verifyChain_valid_iff`**: an accepted log is a hash chain from the genesis hash, every entry of
  which carries the digest of its own properties; **`verifyEntrySlice_valid_iff`**: an accepted
  slice.
* `exists_sealEvent`, **`exists_seal_of_sealEvent`**: when an event becomes an entry, and which.
* **`runAppend_eq`**: a call throws before any update or makes all of them.
-/

namespace AgentEval.Evidence

open Js Sha256 Crypto

/-! ## Entries -/

/-- A sealed entry: the object, and what the interface says of its properties.
Source: `audit-log.ts`, `AuditEntry` -/
structure AuditEntry extends PlainObject where
  /-- Zero-based position in the log. -/
  seq : Number
  /-- When it was recorded. -/
  recordedAt : JsString
  /-- What happened. -/
  action : JsString
  /-- Who or what caused it. -/
  actor : JsString
  /-- The tenant it belongs to. -/
  tenantId : JsString
  /-- The thing acted on. -/
  subject : Option JsString
  /-- Structured detail. -/
  payload : PlainObject
  /-- Hash of the entry before this one. -/
  previousHash : JsString
  /-- SHA-256 over the canonical form of everything above. -/
  entryHash : JsString
  get_seq : toPlainObject.get (js "seq") = .num seq
  get_recordedAt : toPlainObject.get (js "recordedAt") = .str recordedAt
  get_action : toPlainObject.get (js "action") = .str action
  get_actor : toPlainObject.get (js "actor") = .str actor
  get_tenantId : toPlainObject.get (js "tenantId") = .str tenantId
  get_subject : toPlainObject.get (js "subject") = subject.elim .null .str
  get_payload : toPlainObject.get (js "payload") = payload.toJs
  get_previousHash : toPlainObject.get (js "previousHash") = .str previousHash
  get_entryHash : toPlainObject.get (js "entryHash") = .str entryHash

/-- `const { entryHash, ...rest } = entry`. -/
def AuditEntry.rest (entry : AuditEntry) : PlainObject := entry.without (js "entryHash")

/-- The hash a chain starts from.
Source: `audit-log.ts`, `GENESIS_HASH` -/
def genesisHash : JsString := List.replicate 64 48

/-- SHA-256 over the canonical form of an entry without its hash.
Source: `audit-log.ts`, `entryDigest` -/
def entryDigest (entry : PlainObject) : Except CanonicalizationError JsString :=
  canonicalDigest entry

/-! ## Verification -/

/-- Source: `audit-log.ts`, `ChainVerification` -/
structure ChainVerification where
  /-- Whether the entries were accepted. -/
  valid : Bool
  /-- Entries checked before a failure, or all of them. -/
  checked : ℕ
  /-- Sequence number of the first bad entry. -/
  brokenAt : Option Number
  /-- Why it failed. -/
  reason : Option JsString

/-- A failure at an entry. -/
def broken (i : ℕ) (entry : AuditEntry) (reason : JsString) : ChainVerification :=
  ⟨false, i, some entry.seq, some reason⟩

/-- The digest check of an entry, which the two verifiers share: nothing when it holds.
Source: `audit-log.ts`, `verifyChain`, `verifyEntrySlice` -/
def checkDigest (i : ℕ) (entry : AuditEntry) : Option ChainVerification :=
  match entryDigest entry.rest with
  | .error e => some (broken i entry
    (js "entry " ++ entry.seq.toString ++ js " cannot be canonicalized: " ++ e.message))
  | .ok recomputed =>
    if recomputed ≠ entry.entryHash then
      some (broken i entry
        (js "entry " ++ entry.seq.toString ++ js " was modified after it was written"))
    else none

/-- The loop of `verifyChain` from position `i` on.
Source: `audit-log.ts`, `verifyChain` -/
def verifyChainFrom (i : ℕ) (previousHash : JsString) : List AuditEntry → ChainVerification
  | [] => ⟨true, i, none, none⟩
  | entry :: entries =>
    if !entry.seq.eq (.ofNat i) then
      broken i entry (js "entry at position " ++ natDigits i ++ js " claims seq " ++
        entry.seq.toString ++ js "; the log is reordered or has a gap")
    else if entry.previousHash ≠ previousHash then
      broken i entry (js "entry " ++ entry.seq.toString ++ js " does not follow entry " ++
        (entry.seq.sub (.ofNat 1)).toString ++ js "; an entry was removed or replaced")
    else
      match checkDigest i entry with
      | some failure => failure
      | none => verifyChainFrom (i + 1) entry.entryHash entries

/-- Verify a chain independently of the log that produced it.
Source: `audit-log.ts`, `verifyChain` -/
def verifyChain (entries : List AuditEntry) : ChainVerification :=
  verifyChainFrom 0 genesisHash entries

/-- The loop of `verifyEntrySlice` from position `i` on.
Source: `audit-log.ts`, `verifyEntrySlice` -/
def verifyEntrySliceFrom (i : ℕ) (previousSeq : Number) : List AuditEntry → ChainVerification
  | [] => ⟨true, i, none, none⟩
  | entry :: entries =>
    if entry.seq.le previousSeq then
      broken i entry (js "entry at position " ++ natDigits i ++ js " claims seq " ++
        entry.seq.toString ++ js ", which does not follow " ++ previousSeq.toString ++
        js "; the slice is reordered or contains a duplicate")
    else
      match checkDigest i entry with
      | some failure => failure
      | none => verifyEntrySliceFrom (i + 1) entry.seq entries

/-- Verify a filtered set of entries.
Source: `audit-log.ts`, `verifyEntrySlice` -/
def verifyEntrySlice (entries : List AuditEntry) : ChainVerification :=
  verifyEntrySliceFrom 0 (.ofInt (-1)) entries

/-! ## What is accepted -/

/-- Whether the hash of an entry is its digest. -/
def Digested (entry : AuditEntry) : Prop := entryDigest entry.rest = .ok entry.entryHash

/-- Entries numbered from `i` on, each naming the hash before it, `previousHash` first. -/
abbrev Chained (i : ℕ) (previousHash : JsString) (entries : List AuditEntry) : Prop :=
  Linked (fun e : AuditEntry => e.seq.place) (fun e => e.previousHash) (fun e => e.entryHash)
    (fun k => (Number.ofNat k).place) i previousHash entries

/-- The digest check finds nothing exactly when the entry is digested. -/
theorem checkDigest_cases (i : ℕ) (entry : AuditEntry) :
    (checkDigest i entry = none ∧ Digested entry) ∨
      ∃ failure, checkDigest i entry = some failure ∧ failure.valid = false ∧ ¬ Digested entry := by
  unfold checkDigest Digested
  cases entryDigest entry.rest with
  | error e => exact Or.inr ⟨_, rfl, rfl, nofun⟩
  | ok recomputed =>
    by_cases h : recomputed = entry.entryHash
    · exact Or.inl ⟨if_neg (not_not.mpr h), by rw [h]⟩
    · exact Or.inr ⟨_, if_pos h, rfl, fun hok => h (Except.ok.inj hok)⟩

/-- What the loop accepts from a position on. -/
theorem verifyChainFrom_valid_iff {i : ℕ} {previousHash : JsString} {entries : List AuditEntry} :
    (verifyChainFrom i previousHash entries).valid = true ↔
      Chained i previousHash entries ∧ ∀ e ∈ entries, Digested e := by
  induction entries generalizing i previousHash with
  | nil => exact iff_of_true rfl ⟨trivial, List.forall_mem_nil _⟩
  | cons entry entries ih =>
    rw [verifyChainFrom, Chained, Linked, List.forall_mem_cons]
    by_cases hseq : entry.seq.eq (.ofNat i) = true
    · rw [if_neg (by rw [hseq]; simp)]
      by_cases hprev : entry.previousHash = previousHash
      · rw [if_neg (not_not.mpr hprev)]
        rcases checkDigest_cases i entry with ⟨hnone, hok⟩ | ⟨failure, hsome, hvalid, hbad⟩
        · rw [hnone]
          refine ih.trans ⟨fun h => ?_, fun h => ⟨h.1.2.2, h.2.2⟩⟩
          exact ⟨⟨Number.eq_ofNat_iff.mp hseq, hprev, h.1⟩, hok, h.2⟩
        · rw [hsome]
          exact iff_of_false (by rw [hvalid]; simp) fun h => hbad h.2.1
      · rw [if_pos hprev]
        exact iff_of_false (by simp [broken]) fun h => hprev h.1.2.1
    · rw [if_pos (by simpa using hseq)]
      exact iff_of_false (by simp [broken]) fun h => hseq (Number.eq_ofNat_iff.mpr h.1.1)

/-- **An accepted chain** starts at the genesis hash, and each of its entries carries its own
digest. -/
theorem verifyChain_valid_iff {entries : List AuditEntry} :
    (verifyChain entries).valid = true ↔
      Chained 0 genesisHash entries ∧ ∀ e ∈ entries, Digested e :=
  verifyChainFrom_valid_iff

/-- What the slice loop accepts after a sequence number. -/
theorem verifyEntrySliceFrom_valid_iff {i : ℕ} {previousSeq : Number} {entries : List AuditEntry} :
    (verifyEntrySliceFrom i previousSeq entries).valid = true ↔
      List.IsChain (fun x y => Number.le y x = false) (previousSeq :: entries.map (·.seq)) ∧
        ∀ e ∈ entries, Digested e := by
  induction entries generalizing i previousSeq with
  | nil => exact iff_of_true rfl ⟨.singleton _, List.forall_mem_nil _⟩
  | cons entry entries ih =>
    rw [verifyEntrySliceFrom, List.map_cons, List.isChain_cons_cons, List.forall_mem_cons]
    by_cases hseq : entry.seq.le previousSeq = true
    · rw [if_pos hseq]
      exact iff_of_false (by simp [broken]) fun h => by simp [hseq] at h
    · rw [if_neg hseq]
      rcases checkDigest_cases i entry with ⟨hnone, hok⟩ | ⟨failure, hsome, hvalid, hbad⟩
      · rw [hnone]
        refine ih.trans ⟨fun h => ⟨⟨by simpa using hseq, h.1⟩, hok, h.2⟩, fun h => ⟨h.1.2, h.2.2⟩⟩
      · rw [hsome]
        exact iff_of_false (by rw [hvalid]; simp) fun h => hbad h.2.1

/-- **An accepted slice** has its sequence numbers in ascending order, and each of its entries
carries its own digest. -/
theorem verifyEntrySlice_valid_iff {entries : List AuditEntry} :
    (verifyEntrySlice entries).valid = true ↔
      List.IsChain (fun x y => Number.le y x = false) (.ofInt (-1) :: entries.map (·.seq)) ∧
        ∀ e ∈ entries, Digested e :=
  verifyEntrySliceFrom_valid_iff

/-! ## The log -/

/-- Source: `audit-log.ts`, `AuditEventInput`; a property that is left out is `none`. -/
structure AuditEventInput where
  /-- What happened. -/
  action : Option JsString
  /-- Who or what caused it. -/
  actor : Option JsString
  /-- The tenant it belongs to. -/
  tenantId : Option JsString
  /-- The thing acted on. -/
  subject : Option JsString
  /-- Structured detail. -/
  payload : Option PlainObject
  /-- Overrides the clock; the date may be invalid. -/
  recordedAt : Option (Option TimeValue)

/-- Source: `audit-log.ts`, `AuditLog` -/
structure AuditLog where
  /-- The entries, in order. -/
  entries : List AuditEntry
  /-- The tree over their hashes. -/
  tree : MerkleTree
  /-- The head of the chain. -/
  lastHash : JsString

/-- `!value` on an optional string. -/
def isMissing : Option JsString → Bool
  | none => true
  | some s => s.isEmpty

/-- The properties of an entry before it is sealed.
Source: `audit-log.ts`, `AuditLog.append` -/
def unsealedProps (seq : ℕ) (recordedAt action actor tenantId : JsString)
    (subject : Option JsString) (payload : PlainObject) (previousHash : JsString) : Props :=
  [(js "seq", .num (.ofNat seq)), (js "recordedAt", .str recordedAt), (js "action", .str action),
    (js "actor", .str actor), (js "tenantId", .str tenantId),
    (js "subject", subject.elim .null .str), (js "payload", payload.toJs),
    (js "previousHash", .str previousHash)]

section sealing

variable (seq : ℕ) (recordedAt action actor tenantId : JsString) (subject : Option JsString)
  (payload : PlainObject) (previousHash entryHash : JsString)

/-- The properties and the hash are well formed. -/
theorem wf_sealed : JsVal.WF (.obj (unsealedProps seq recordedAt action actor tenantId subject
    payload previousHash ++ [(js "entryHash", .str entryHash)])) := by
  refine JsVal.wf_obj.mpr ⟨?_, ?_⟩
  · change [js "seq", js "recordedAt", js "action", js "actor", js "tenantId", js "subject",
      js "payload", js "previousHash", js "entryHash"].Nodup
    simp
  · simp only [unsealedProps, List.cons_append, List.nil_append, List.forall_mem_cons]
    refine ⟨trivial, trivial, trivial, trivial, trivial, ?_, payload.wf, trivial, trivial,
      List.forall_mem_nil _⟩
    cases subject <;> trivial

/-- The entry before it is sealed.
Source: `audit-log.ts`, `AuditLog.append` -/
def unsealed : PlainObject where
  props := unsealedProps seq recordedAt action actor tenantId subject payload previousHash
  wf := by
    have h := JsVal.wf_obj.mp
      (wf_sealed seq recordedAt action actor tenantId subject payload previousHash [])
    refine JsVal.wf_obj.mpr ⟨?_, fun p hp => h.2 p (List.mem_append_left _ hp)⟩
    exact List.Nodup.sublist (List.Sublist.map _ (List.sublist_append_left _ _)) h.1

/-- `{ ...unsealed, entryHash }`.
Source: `audit-log.ts`, `AuditLog.append` -/
def AuditEntry.seal : AuditEntry where
  props := unsealedProps seq recordedAt action actor tenantId subject payload previousHash ++
    [(js "entryHash", .str entryHash)]
  wf := wf_sealed seq recordedAt action actor tenantId subject payload previousHash entryHash
  seq := .ofNat seq
  recordedAt := recordedAt
  action := action
  actor := actor
  tenantId := tenantId
  subject := subject
  payload := payload
  previousHash := previousHash
  entryHash := entryHash
  get_seq := rfl
  get_recordedAt := rfl
  get_action := rfl
  get_actor := rfl
  get_tenantId := rfl
  get_subject := rfl
  get_payload := rfl
  get_previousHash := rfl
  get_entryHash := rfl

/-- Sealing adds the hash and nothing else. -/
theorem AuditEntry.rest_seal :
    (AuditEntry.seal seq recordedAt action actor tenantId subject payload previousHash
      entryHash).rest =
      unsealed seq recordedAt action actor tenantId subject payload previousHash := rfl

variable {seq payload}

/-- An entry can be hashed when its payload can. -/
theorem isJson_unsealed (hseq : seq < 2 ^ 53) (hpayload : payload.toJs.jsonForm.IsJson) :
    (unsealed seq recordedAt action actor tenantId subject payload
      previousHash).toJs.jsonForm.IsJson := by
  refine PlainObject.isJson_of_forall ?_
  simp only [unsealed, unsealedProps, List.forall_mem_cons]
  refine ⟨?_, trivial, trivial, trivial, trivial, ?_, hpayload, trivial, List.forall_mem_nil _⟩
  · rw [Number.ofNat_eq hseq]
    trivial
  · cases subject <;> trivial

/-- An entry that can be hashed has a payload that can. -/
theorem isJson_payload_of_unsealed (h : (unsealed seq recordedAt action actor tenantId subject
    payload previousHash).toJs.jsonForm.IsJson) : payload.toJs.jsonForm.IsJson := by
  have hprops := PlainObject.isJson_iff.mp h
  simp only [unsealed, unsealedProps, List.forall_mem_cons] at hprops
  obtain ⟨-, -, -, -, -, -, hpayload, -⟩ := hprops
  exact hpayload rfl

end sealing

namespace AuditLog

/-- `new AuditLog()`. -/
def new : AuditLog := ⟨[], .empty, genesisHash⟩

/-- `date.toISOString()`. -/
def toISOString : Option TimeValue → Except JsError JsString
  | none => .error ⟨js "RangeError", js "Invalid time value"⟩
  | some t => .ok t.toISOString

/-- Only a valid date has a text. -/
theorem toISOString_eq_ok {date : Option TimeValue} {s : JsString} :
    toISOString date = .ok s ↔ ∃ t, date = some t ∧ t.toISOString = s := by
  cases date <;> simp [toISOString]

/-- The entry an event becomes at the end of a log: everything `append` does before its first
update. `now` is what the clock reads.
Source: `audit-log.ts`, `AuditLog.append` -/
def sealEvent (log : AuditLog) (input : AuditEventInput) (now : TimeValue) :
    Except JsError AuditEntry := do
  if isMissing input.action then throw (.error (js "an audit event needs an action"))
  if isMissing input.actor then throw (.error (js "an audit event needs an actor"))
  if isMissing input.tenantId then throw (.error (js "an audit event needs a tenantId"))
  let recordedAt ← toISOString (input.recordedAt.getD (some now))
  let action := input.action.getD []
  let actor := input.actor.getD []
  let tenantId := input.tenantId.getD []
  let payload := input.payload.getD .empty
  let entryHash ← (entryDigest (unsealed log.entries.length recordedAt action actor tenantId
    input.subject payload log.lastHash)).mapError CanonicalizationError.toJsError
  return AuditEntry.seal log.entries.length recordedAt action actor tenantId input.subject payload
    log.lastHash entryHash

/-- The updates of `append`, one after the other.
Source: `audit-log.ts`, `AuditLog.append` -/
def push (entry : AuditEntry) : ExceptT JsError (StateM AuditLog) AuditEntry := do
  modify fun log => { log with entries := log.entries ++ [entry] }
  modify fun log => { log with tree := (log.tree.append (.buffer (fromHex entry.entryHash))).2 }
  modify fun log => { log with lastHash := entry.entryHash }
  return entry

/-- Append an event. An error leaves the state as it is at the throw.
Source: `audit-log.ts`, `AuditLog.append` -/
def append (input : AuditEventInput) (now : TimeValue) :
    ExceptT JsError (StateM AuditLog) AuditEntry := do
  let log ← get
  let entry ← sealEvent log input now
  push entry

/-- The number of entries.
Source: `audit-log.ts`, `AuditLog.size` -/
def size (log : AuditLog) : ℕ := log.entries.length

/-- The current Merkle root.
Source: `audit-log.ts`, `AuditLog.root` -/
def root (log : AuditLog) : JsString := log.tree.root

/-- The head of the hash chain.
Source: `audit-log.ts`, `AuditLog.head` -/
def head (log : AuditLog) : JsString := log.lastHash

/-- The entries.
Source: `audit-log.ts`, `AuditLog.all` -/
def all (log : AuditLog) : List AuditEntry := log.entries

/-- The entry at a position.
Source: `audit-log.ts`, `AuditLog.at` -/
def entryAt (log : AuditLog) (seq : ℤ) : Except JsError AuditEntry :=
  match if seq < 0 then none else log.entries[seq.toNat]? with
  | some entry => .ok entry
  | none => .error (.error (js "no audit entry at seq " ++ (Number.ofInt seq).toString))

/-- Entries for one tenant.
Source: `audit-log.ts`, `AuditLog.forTenant` -/
def forTenant (log : AuditLog) (tenantId : JsString) : List AuditEntry :=
  log.entries.filter fun e => decide (e.tenantId = tenantId)

/-- Proof that an entry is in the tree with the current root.
Source: `audit-log.ts`, `AuditLog.inclusionProof` -/
def inclusionProof (log : AuditLog) (seq : ℤ) : Except JsError InclusionProof :=
  log.tree.inclusionProof seq

/-- Proof that this log extends the one that had `previousSize` entries.
Source: `audit-log.ts`, `AuditLog.consistencyProof` -/
def consistencyProof (log : AuditLog) (previousSize : ℤ) : Except JsError ConsistencyProof :=
  log.tree.consistencyProof previousSize

/-- The leaf bytes for an entry.
Source: `audit-log.ts`, `AuditLog.leafFor` -/
def leafFor (log : AuditLog) (seq : ℤ) : Except JsError Bytes :=
  (log.entryAt seq).map fun e => fromHex e.entryHash

/-- Source: `audit-log.ts`, `AuditLog.verify` -/
def verify (log : AuditLog) : ChainVerification := verifyChain log.entries

/-! ## One call -/

/-- A call of `append`: its result and the log it leaves. -/
def runAppend (input : AuditEventInput) (now : TimeValue) (log : AuditLog) :
    Except JsError AuditEntry × AuditLog := (append input now).run.run log

/-- The log with one more entry in all three of its parts. -/
def extend (log : AuditLog) (entry : AuditEntry) : AuditLog :=
  ⟨log.entries ++ [entry], (log.tree.append (.buffer (fromHex entry.entryHash))).2,
    entry.entryHash⟩

/-- A call throws before any update or makes all of them. -/
theorem runAppend_eq (input : AuditEventInput) (now : TimeValue) (log : AuditLog) :
    runAppend input now log =
      match sealEvent log input now with
      | .error e => (.error e, log)
      | .ok entry => (.ok entry, log.extend entry) := by
  have hrun : ∀ f : AuditLog → Except JsError AuditEntry,
      (do push (← f (← get)) : ExceptT JsError (StateM AuditLog) AuditEntry).run.run log =
        match f log with
        | .error e => (.error e, log)
        | .ok entry => (.ok entry, log.extend entry) := by
    intro f
    change (liftM (f log) >>= push : ExceptT JsError (StateM AuditLog) AuditEntry).run.run log = _
    cases f log <;> rfl
  exact hrun fun log => sealEvent log input now

end AuditLog

/-- **A sealed event**: its properties at the end of the log, with their digest. -/
theorem AuditLog.exists_seal_of_sealEvent {log : AuditLog} {input : AuditEventInput}
    {now : TimeValue} {entry : AuditEntry} (h : log.sealEvent input now = .ok entry) :
    ∃ recordedAt entryHash,
      toISOString (input.recordedAt.getD (some now)) = .ok recordedAt ∧
      entryDigest (unsealed log.entries.length recordedAt (input.action.getD [])
        (input.actor.getD []) (input.tenantId.getD []) input.subject (input.payload.getD .empty)
        log.lastHash) = .ok entryHash ∧
      entry = AuditEntry.seal log.entries.length recordedAt (input.action.getD [])
        (input.actor.getD []) (input.tenantId.getD []) input.subject (input.payload.getD .empty)
        log.lastHash entryHash := by
  unfold sealEvent at h
  simp only [bind, Except.bind] at h
  repeat' split at h
  all_goals try contradiction
  rename_i recordedAt hdate _ entryHash hdigest
  exact ⟨recordedAt, entryHash, hdate, mapError_eq_ok.mp hdigest, (Except.ok.inj h).symm⟩

/-- What a sealed event says: its position, the head before it and its own digest. -/
theorem AuditLog.sealEvent_ok {log : AuditLog} {input : AuditEventInput} {now : TimeValue}
    {entry : AuditEntry} (h : log.sealEvent input now = .ok entry) :
    entry.seq = .ofNat log.entries.length ∧ entry.previousHash = log.lastHash ∧
      entryDigest entry.rest = .ok entry.entryHash := by
  obtain ⟨_, _, -, hdigest, rfl⟩ := exists_seal_of_sealEvent h
  exact ⟨rfl, rfl, hdigest⟩

/-- **When an event is sealed**: the three names are there, the date is valid and the payload can be
hashed. -/
theorem AuditLog.exists_sealEvent {log : AuditLog} {input : AuditEventInput} {now : TimeValue}
    (haction : isMissing input.action = false) (hactor : isMissing input.actor = false)
    (htenantId : isMissing input.tenantId = false) {recordedAt : JsString}
    (hdate : toISOString (input.recordedAt.getD (some now)) = .ok recordedAt)
    (hpayload : (input.payload.getD .empty).toJs.jsonForm.IsJson)
    (hsize : log.entries.length < 2 ^ 53) : ∃ entry, log.sealEvent input now = .ok entry := by
  obtain ⟨entryHash, hdigest⟩ : ∃ entryHash, entryDigest (unsealed log.entries.length recordedAt
      (input.action.getD []) (input.actor.getD []) (input.tenantId.getD []) input.subject
      (input.payload.getD .empty) log.lastHash) = .ok entryHash :=
    ⟨_, canonicalDigest_eq_ok_iff.mpr ⟨isJson_unsealed _ _ _ _ _ _ hsize hpayload, rfl⟩⟩
  refine ⟨AuditEntry.seal log.entries.length recordedAt (input.action.getD [])
    (input.actor.getD []) (input.tenantId.getD []) input.subject (input.payload.getD .empty)
    log.lastHash entryHash, ?_⟩
  rw [sealEvent, haction, hactor, htenantId, hdate]
  simp only [bind, Except.bind, hdigest, Except.mapError]
  rfl

/-- What is sealed has its three names and a payload that can be hashed. -/
theorem AuditLog.named_of_sealEvent {log : AuditLog} {input : AuditEventInput} {now : TimeValue}
    {entry : AuditEntry} (h : log.sealEvent input now = .ok entry) :
    isMissing input.action = false ∧ isMissing input.actor = false ∧
      isMissing input.tenantId = false ∧ (input.payload.getD .empty).toJs.jsonForm.IsJson := by
  obtain ⟨_, _, -, hdigest, -⟩ := exists_seal_of_sealEvent h
  obtain ⟨hjson, -⟩ := canonicalDigest_eq_ok_iff.mp hdigest
  have hpayload := isJson_payload_of_unsealed _ _ _ _ _ _ hjson
  unfold sealEvent at h
  simp only [bind, Except.bind] at h
  split at h
  · cases h
  · rename_i haction
    split at h
    · cases h
    · rename_i hactor
      split at h
      · cases h
      · rename_i htenantId
        simp only [Bool.not_eq_true] at haction hactor htenantId
        exact ⟨haction, hactor, htenantId, hpayload⟩

end AgentEval.Evidence
