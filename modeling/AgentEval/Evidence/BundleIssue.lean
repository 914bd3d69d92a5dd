import AgentEval.Evidence.BundleCorrect

/-!
# What the creator of a bundle enforces

`createBundle` and `verifyBundle` check an input on two sides. All the verifier asks for is asked for
by the creator as well, but for one thing: the creator looks whether an inclusion proof is there,
and not whether it leads to the root cited.

* `BundleInput.Passes` — the creator's checks; **`exists_createBundle_iff`**: it signs exactly the
  inputs that pass them.
* `verifyBundle_createBundle_iff` — of what it signs, the verifier accepts exactly the bundles whose
  proofs lead to the root.
-/

namespace AgentEval.Evidence

open Js Sha256

/-- What `createBundle` checks of an input. -/
structure BundleInput.Passes (keySource : KeySource) (now : TimeValue) (input : BundleInput) :
    Prop where
  /-- There is an entry. -/
  nonempty : input.entries ≠ []
  /-- The entries are an accepted slice. -/
  chain : (verifyEntrySlice input.entries).valid = true
  /-- Each has an inclusion proof. -/
  proofs : ∀ e ∈ input.entries, (input.inclusionProofs.at e.seq).isSome = true
  /-- The dates are valid and far enough apart, the manifest and the contents can be written, and
  the key signs them. -/
  signed : ∃ retainUntil generatedAt digest value,
    input.retainUntil = some retainUntil ∧ input.generatedAt.getD (some now) = some generatedAt ∧
    (daysBetween (.ofInt retainUntil.ms) (.ofInt generatedAt.ms)).lt
      (.ofNat minimumRetentionDays) = false ∧
    manifestDigest input.manifest = .ok digest ∧
    (bundleContents input digest (TimeValue.toISOString retainUntil)
      (TimeValue.toISOString generatedAt)).toJs.jsonForm.IsJson ∧
    keySource.sign (canonicalBytes (bundleContents input digest (TimeValue.toISOString retainUntil)
      (TimeValue.toISOString generatedAt)).toPlainObject) = .ok value

section

variable {keySource : KeySource} {now signedAt : TimeValue} {input : BundleInput}

/-- An input that passes is signed. -/
theorem BundleInput.Passes.exists_createBundle (h : input.Passes keySource now)
    (signedAt : TimeValue) : ∃ bundle, createBundle keySource now signedAt input = .ok bundle := by
  obtain ⟨retainUntil, generatedAt, digest, value, hretain, hgenerated, hdays, hdigest, hjson,
    hvalue⟩ := h.signed
  exact ⟨_, createBundle_eq h.nonempty h.chain h.proofs hretain hgenerated hdays hdigest
    (sign_eq hjson hvalue signedAt)⟩

/-- What is signed has passed. -/
theorem passes_of_createBundle {bundle : EvidenceBundle}
    (h : createBundle keySource now signedAt input = .ok bundle) : input.Passes keySource now := by
  obtain ⟨hne, hchain, hproofs, retainUntil, generatedAt, digest, signature, hretain, hgenerated,
    hdays, hdigest, hsign, -⟩ := createBundle_ok h
  obtain ⟨hjson, value, hvalue, -⟩ := sign_ok hsign
  exact ⟨hne, hchain, hproofs, retainUntil, generatedAt, digest, value, hretain, hgenerated, hdays,
    hdigest, hjson, hvalue⟩

/-- **The creator signs exactly what passes its checks.** -/
theorem exists_createBundle_iff (signedAt : TimeValue) :
    (∃ bundle, createBundle keySource now signedAt input = .ok bundle) ↔
      input.Passes keySource now := by
  constructor
  · rintro ⟨_, h⟩
    exact passes_of_createBundle h
  · intro h
    exact h.exists_createBundle signedAt

/-- Whether the proof given for an entry leads from the entry to the root given. -/
def BundleInput.Proves (input : BundleInput) (entry : AuditEntry) : Prop :=
  ∃ proof, input.inclusionProofs.at entry.seq = some proof ∧
    (verifyInclusion proof.proof (.buffer (fromHex entry.entryHash)) input.logRoot).valid = true

/-- **Of the bundles that are signed, those whose proofs lead to the root are accepted.** -/
theorem verifyBundle_createBundle_iff {crypto : NodeCrypto} {bundle : EvidenceBundle}
    (hkey : keySource.Sound crypto)
    (h : createBundle keySource now signedAt input = .ok bundle) (host : JsString → Number) :
    (∃ r, verifyBundle crypto host bundle keySource.publicKeyPem = .ok r ∧ r.valid = true) ↔
      ∀ e ∈ input.entries, input.Proves e := by
  obtain ⟨-, hchain, -, retainUntil, generatedAt, digest, signature, -, -, hdays, hdigest, hsign,
    rfl⟩ := createBundle_ok h
  have hsig := verifySignature_sign hkey hsign
  have hret := retention_bundleContents hdays host
  rw [verifyBundle_valid_iff]
  constructor
  · rintro ⟨-, hacc⟩
    exact hacc.inclusion
  · intro hproofs
    exact ⟨hsig, hchain, hproofs, hdigest, hret⟩

end

/-- **When the creator issues no bundle that the verifier rejects**: for every input and every sound
key, it is when an input that passes the creator's checks has proofs that lead to its root. -/
theorem issues_accepted_iff (crypto : NodeCrypto) (host : JsString → Number)
    (keySource : KeySource) (hkey : keySource.Sound crypto) (now signedAt : TimeValue)
    (input : BundleInput) :
    (∀ bundle, createBundle keySource now signedAt input = .ok bundle →
        ∃ r, verifyBundle crypto host bundle keySource.publicKeyPem = .ok r ∧ r.valid = true) ↔
      (input.Passes keySource now → ∀ e ∈ input.entries, input.Proves e) := by
  constructor
  · intro h hpasses
    obtain ⟨bundle, hbundle⟩ := hpasses.exists_createBundle signedAt
    exact (verifyBundle_createBundle_iff hkey hbundle host).mp (h bundle hbundle)
  · intro h bundle hbundle
    exact (verifyBundle_createBundle_iff hkey hbundle host).mpr (h (passes_of_createBundle hbundle))

/-- The bundles issued over a run of two calls. -/
theorem issues_accepted_started : ∃ ps, ∀ bundle,
    createBundle digestKey ⟨0, TimeValue.zero_inRange⟩ ⟨0, TimeValue.zero_inRange⟩
      (startedInput (AuditLog.run startedCalls) ps) = .ok bundle →
    ∃ r, verifyBundle digestCrypto (fun _ => .nan) bundle digestKey.publicKeyPem = .ok r ∧
      r.valid = true := by
  obtain ⟨ps, hcut, -⟩ := exists_cutFrom_startedInput
  have hlt : (AuditLog.run startedCalls).size < 2 ^ 31 := by
    rw [size_run_startedCalls]
    norm_num
  refine ⟨ps, (issues_accepted_iff digestCrypto _ digestKey genuine_digestKey.sound _ _ _).mpr
    fun hpasses => ?_⟩
  obtain ⟨retainUntil, generatedAt, digest, -, -, -, hdays, hdigest, -⟩ := hpasses.signed
  exact (accepted_bundleContents (AuditLog.coherent_run startedCalls) hlt.le hcut hdigest hdays
    fun _ => .nan).inclusion

/-- An input of one entry, with sequence number 0, over a log of size 1: the proof states index `m`
of `n` leaves. -/
def oneEntryInput (m n : ℕ) (path : List JsString) (logRoot : JsString) : BundleInput :=
  { startedInput .new [] with
    entries := [startedEntry .empty]
    inclusionProofs := .fromEntries [(js "0", .ofProof ⟨.ofNat m, .ofNat n, path⟩)]
    logRoot := logRoot
    logSize := .ofNat 1 }

section oneEntry

variable {m n : ℕ} {path : List JsString} {logRoot : JsString}

/-- Its entry carries its own digest. -/
theorem digested_oneEntryInput : ∀ e ∈ (oneEntryInput m n path logRoot).entries, Digested e :=
  (verifyChain_valid_iff.mp (verifyChain_startedEntry PlainObject.jsonForm_empty).2).2

/-- The proof found for its entry. -/
theorem at_oneEntryInput :
    (oneEntryInput m n path logRoot).inclusionProofs.at (startedEntry .empty).seq =
      some (.ofProof ⟨.ofNat m, .ofNat n, path⟩) := by
  have hkey : (startedEntry .empty).seq.toString = js "0" := by decide +kernel
  rw [ProofRecord.at, hkey]
  rfl

/-- The input passes the creator's checks. -/
theorem passes_oneEntryInput (hm : m < 2 ^ 53) (hn : n < 2 ^ 53) :
    (oneEntryInput m n path logRoot).Passes digestKey ⟨0, TimeValue.zero_inRange⟩ where
  nonempty := List.cons_ne_nil _ _
  chain := verifyEntrySlice_valid_iff.mpr
    ⟨.cons_cons (by decide +kernel) (.singleton _), digested_oneEntryInput⟩
  proofs := by
    refine List.forall_mem_singleton.mpr ?_
    rw [at_oneEntryInput]
    rfl
  signed := by
    obtain ⟨text, htext⟩ := canonicalize_empty
    have hdigest : manifestDigest (oneEntryInput m n path logRoot).manifest =
        .ok (toHex (sha256 (canonicalBytes .empty)).bytes) :=
      canonicalDigest_eq_ok_iff.mpr
        ⟨((canonicalize_eq_ok_iff PlainObject.empty.wf).mp htext).1, rfl⟩
    refine ⟨_, ⟨0, TimeValue.zero_inRange⟩, _, _, rfl, rfl,
      Number.lt_eq_false_of_le (le_daysBetween (by simp)), hdigest, ?_, rfl⟩
    refine isJson_bundleContents_of digested_oneEntryInput ?_ ?_ hdigest (fun _ h => nomatch h)
      (fun _ h => nomatch h) _ _
    · change (JsVal.num (.ofNat 1)).jsonForm.IsJson
      rw [Number.ofNat_eq (by norm_num)]
      trivial
    · exact List.forall_mem_singleton.mpr (isJson_ofProof hm hn _)

end oneEntry

/-- An input whose proof does not lead to its root. -/
def misprovedInput : BundleInput := oneEntryInput 0 1 [] (js "00")

/-- Its proof does not lead to its root. -/
theorem not_proves_misprovedInput : ¬ misprovedInput.Proves (startedEntry .empty) := by
  rintro ⟨proof, hat, hvalid⟩
  rw [misprovedInput, at_oneEntryInput, Option.some.injEq] at hat
  subst hat
  obtain ⟨-, -, -, sn, h, -, -, hroot⟩ := verifyInclusion_valid_iff.mp hvalid
  have hlength := congrArg (fun text => (fromHex text).length) hroot
  simp only [fromHex_toHex, h.length_bytes] at hlength
  exact absurd hlength (by decide)

/-- **A bundle is issued that the verifier rejects.** -/
theorem issues_rejected :
    ¬ ∀ (crypto : NodeCrypto) (host : JsString → Number) (keySource : KeySource),
      keySource.Sound crypto → ∀ (now signedAt : TimeValue) (input : BundleInput)
        (bundle : EvidenceBundle), createBundle keySource now signedAt input = .ok bundle →
      ∃ r, verifyBundle crypto host bundle keySource.publicKeyPem = .ok r ∧ r.valid = true := by
  intro h
  have hpasses : misprovedInput.Passes digestKey ⟨0, TimeValue.zero_inRange⟩ :=
    passes_oneEntryInput (by norm_num) (by norm_num)
  obtain ⟨bundle, hbundle⟩ := hpasses.exists_createBundle ⟨0, TimeValue.zero_inRange⟩
  have hvalid := h digestCrypto (fun _ => .nan) digestKey genuine_digestKey.sound _ _ _ _ hbundle
  exact not_proves_misprovedInput
    ((verifyBundle_createBundle_iff genuine_digestKey.sound hbundle _).mp hvalid _
      (List.mem_singleton_self _))

end AgentEval.Evidence
