import AgentEval.Auth.ProviderCredentials

/-!
# Credentials over whole runs

A key that is stored is sealed for its tenant and its record, and comes back from the octets of its
UTF-8 form. Those of a text with a lone surrogate are the octets of another text.

* **`credentials_sound_iff`**: in every state of a run what is revealed is the key that the same
  tenant has stored under the identifier and not revoked, nothing that is listed depends on a key but
  for its mask, a revoked record has no ciphertext, and what throws writes nothing, exactly when every
  key that is stored is well formed.
* **`surrogate_replaced`**: a key with a lone surrogate.
-/

namespace AgentEval.Auth

open Js Store Api Async ProviderCredentialStore

/-! ## What is sealed opens -/

/-- AES-256-GCM opens what was sealed under the same key, initialisation vector and associated data,
and its tags have 16 octets. -/
structure AesGcm.Opens (gcm : AesGcm) : Prop where
  decrypt : ∀ key iv aad plaintext, key.length = 32 → iv.length = 12 →
    gcm.decrypt key iv aad (gcm.encrypt key iv aad plaintext).1
      (gcm.encrypt key iv aad plaintext).2 = some plaintext
  length_tag : ∀ key iv aad plaintext, key.length = 32 → iv.length = 12 →
    (gcm.encrypt key iv aad plaintext).2.length = 16

/-- **What is sealed opens** to the text that its octets are read as. -/
theorem SecretBox.openSecret_sealSecret {gcm : AesGcm} (hgcm : gcm.Opens) (box : SecretBox)
    {iv : Bytes} (hiv : iv.length = 12) (plaintext aad : JsString) :
    box.openSecret gcm (box.sealSecret gcm iv plaintext aad) aad =
      .ok (fromUtf8 (utf8 plaintext)) := by
  have htag := hgcm.length_tag box.key iv (utf8 aad) (utf8 plaintext) box.length_key hiv
  have hopen := hgcm.decrypt box.key iv (utf8 aad) (utf8 plaintext) box.length_key hiv
  unfold openSecret sealSecret
  simp only [fromBase64_toBase64, tagBytes, htag, hopen, ne_eq, not_true_eq_false, if_false]

/-! ## What is created -/

/-- Octets of the lengths that are asked for. -/
def CredentialOp.Drawn : CredentialOp → Prop
  | .create random _ _ _ => random.id.length = 2 ∧ random.iv.length = 12
  | .list _ _ => True
  | .get _ _ => True
  | .reveal _ _ => True
  | .revoke _ _ => True
  | .tick _ => True

/-- The key that a creation is given. -/
def CreateCredentialInput.key (input : CreateCredentialInput) : Option JsString :=
  input.apiKey.filter (· ≠ [])

/-- A call creates a credential. -/
structure Creates (gcm : AesGcm) (box : Option SecretBox) (s : CredentialStore) (op : CredentialOp)
    (tenantId id : JsString) (random : Randomness) (input : CreateCredentialInput) : Prop where
  called : ∃ createdBy, op = .create random tenantId createdBy input
  id_eq : id = (newId random.id s).1
  accepted : ∃ c, (CredentialStore.apply gcm box s op).1 = .created (.ok c) ∧ c.id = id

/-- What is sealed for a record. -/
theorem sealKey_eq_ok {gcm : AesGcm} {box : Option SecretBox} {random : Randomness}
    {tenantId id : JsString} {input : CreateCredentialInput} {key : Option SealedSecret} :
    sealKey gcm box random tenantId id input = .ok key ↔
      (input.key = none ∧ key = none) ∨ ∃ apiKey b, input.key = some apiKey ∧ box = some b ∧
        key = some (b.sealSecret gcm random.iv apiKey (aad tenantId id)) := by
  unfold sealKey CreateCredentialInput.key
  cases input.apiKey.filter (· ≠ []) with
  | none => simp [eq_comm]
  | some apiKey =>
    cases box with
    | none => simp
    | some b => simp [eq_comm]

/-- **The key of a record as it was created opens** to the text that its octets are read as. -/
theorem openKey_of_sealKey {gcm : AesGcm} (hgcm : gcm.Opens) {box : Option SecretBox}
    {random : Randomness} (hiv : random.iv.length = 12) {tenantId id : JsString}
    {input : CreateCredentialInput} {c : ProviderCredentialRecord}
    (h : sealKey gcm box random tenantId id input = .ok c.sealed) :
    openKey gcm box tenantId id c = .ok (input.key.map fun key => fromUtf8 (utf8 key)) := by
  unfold openKey
  rcases sealKey_eq_ok.mp h with ⟨hnone, hsealed⟩ | ⟨apiKey, b, hkey, rfl, hsealed⟩
  · rw [hsealed, hnone]
    rfl
  · rw [hsealed, hkey]
    dsimp only
    rw [b.openSecret_sealSecret hgcm hiv]
    rfl

/-! ## Identifiers -/

/-- The identifiers so far: a time that has been, a count that has been passed, and two octets. -/
structure Counted (id : JsString) (s : CredentialStore) : Prop where
  counted : ∃ (t : ℤ) (c : ℕ) (random : Bytes), random.length = 2 ∧
    id = js "cred_" ++ toBase36 t ++ toBase36 c ++ toHex random ∧ 0 ≤ t ∧ t ≤ s.clock.ms ∧
    c < s.counter

/-- **A new identifier is not one of those.** -/
theorem Counted.ne_newId {id : JsString} {s : CredentialStore} (h : Counted id s) {random : Bytes}
    (hrandom : random.length = 2) : id ≠ (newId random s).1 := by
  obtain ⟨t, c, random', hlength, rfl, ht, htime, hc⟩ := h.counted
  unfold newId
  intro heq
  have hhex : (toHex random').length = (toHex random).length := by
    rw [length_toHex, length_toHex, hlength, hrandom]
  obtain ⟨htexts, -⟩ := List.append_inj' heq hhex
  rw [List.append_assoc, List.append_assoc] at htexts
  exact toBase36_append_ne ht htime hc (List.append_cancel_left htexts)

/-! ## What the store holds -/

section

variable {gcm : AesGcm} {box : Option SecretBox} {s : CredentialStore} {op : CredentialOp}
  {tenantId createdBy id : JsString} {random : Randomness} {input : CreateCredentialInput}
  {c : ProviderCredentialRecord}

variable (gcm box s tenantId createdBy random input) in
/-- **The cases of a creation**: it throws and writes nothing, or it writes a new record. -/
theorem create_cases : (∃ e, (CredentialStore.apply gcm box s
      (.create random tenantId createdBy input)).1 = .created (.error e) ∧
      (CredentialStore.step gcm box s (.create random tenantId createdBy input)).credentials =
        s.credentials) ∨
    ∃ key, sealKey gcm box random tenantId (newId random.id s).1 input = .ok key ∧
      (CredentialStore.apply gcm box s (.create random tenantId createdBy input)).1 =
        .created (.ok (toPublic
          (credentialRecord tenantId createdBy input (newId random.id s).1 s.clock key))) ∧
      (CredentialStore.step gcm box s (.create random tenantId createdBy input)).credentials =
        setProp s.credentials ((newId random.id s).1,
          credentialRecord tenantId createdBy input (newId random.id s).1 s.clock key) := by
  rw [CredentialStore.step, CredentialStore.apply]
  dsimp only
  unfold ProviderCredentialStore.create
  dsimp only
  split_ifs
  · exact .inl ⟨_, rfl, rfl⟩
  · cases hkey : sealKey gcm box random tenantId (newId random.id s).1 input with
    | error e => exact .inl ⟨_, rfl, rfl⟩
    | ok key => exact .inr ⟨key, rfl, rfl, rfl⟩

/-- After a revocation the record is revoked. -/
theorem revokedAt_of_mem_revoke (h : DistinctKeys s.credentials)
    (hc : (id, c) ∈ (CredentialStore.step gcm box s (.revoke tenantId id)).credentials)
    (htenant : c.tenantId = tenantId) : c.revokedAt ≠ none := by
  rw [CredentialStore.step, CredentialStore.apply] at hc
  dsimp only at hc
  unfold ProviderCredentialStore.revoke at hc
  cases hfind : ProviderCredentialStore.find tenantId id s with
  | none =>
    rw [hfind] at hc
    have hlookup := lookup_eq_some_of_mem h hc
    rw [CredentialStore.find_eq_some.mpr ⟨hlookup, htenant⟩] at hfind
    cases hfind
  | some c₀ =>
    rw [hfind] at hc
    rcases mem_setProp_cases hc with heq | ⟨-, hne⟩
    · rw [(Prod.mk.inj heq).2]
      exact Option.some_ne_none _
    · exact absurd rfl hne

/-- No step sets the counter back, and none the clock. -/
theorem step_later (hclock : ∀ now, op = .tick now → s.clock.ms ≤ now.ms) :
    s.clock.ms ≤ (CredentialStore.step gcm box s op).clock.ms ∧
      s.counter ≤ (CredentialStore.step gcm box s op).counter := by
  cases op with
  | create random tenantId createdBy input =>
    rw [CredentialStore.step, CredentialStore.apply]
    dsimp only
    unfold ProviderCredentialStore.create
    dsimp only
    split_ifs
    · exact ⟨le_rfl, le_rfl⟩
    · cases sealKey gcm box random tenantId (newId random.id s).1 input with
      | error e => exact ⟨le_rfl, Nat.le_succ _⟩
      | ok key => exact ⟨le_rfl, Nat.le_succ _⟩
  | list tenantId providerId => exact ⟨le_rfl, le_rfl⟩
  | get tenantId id => exact ⟨le_rfl, le_rfl⟩
  | reveal tenantId id =>
    rw [CredentialStore.step, CredentialStore.apply]
    dsimp only
    unfold revealForProviderCall
    cases ProviderCredentialStore.find tenantId id s with
    | none => exact ⟨le_rfl, le_rfl⟩
    | some c =>
      dsimp only
      split_ifs
      · exact ⟨le_rfl, le_rfl⟩
      · cases openKey gcm box tenantId id c with
        | error e => exact ⟨le_rfl, le_rfl⟩
        | ok key => exact ⟨le_rfl, le_rfl⟩
  | revoke tenantId id =>
    rw [CredentialStore.step, CredentialStore.apply]
    dsimp only
    unfold ProviderCredentialStore.revoke
    cases ProviderCredentialStore.find tenantId id s with
    | none => exact ⟨le_rfl, le_rfl⟩
    | some c => exact ⟨le_rfl, le_rfl⟩
  | tick now => exact ⟨hclock now rfl, le_rfl⟩

/-- What was counted stays counted. -/
theorem Counted.step (h : Counted id s) (hclock : ∀ now, op = .tick now → s.clock.ms ≤ now.ms) :
    Counted id (CredentialStore.step gcm box s op) := by
  obtain ⟨t, n, random, hlength, hid, ht, htime, hn⟩ := h.counted
  obtain ⟨hlater, hcounter⟩ := @step_later gcm box _ _ hclock
  exact ⟨t, n, random, hlength, hid, ht, htime.trans hlater, hn.trans_le hcounter⟩

/-- A creation counts. -/
theorem counted_newId (h : 0 ≤ s.clock.ms) (hrandom : random.id.length = 2) {key : Option SealedSecret}
    (hcreated : (CredentialStore.apply gcm box s (.create random tenantId createdBy input)).1 =
      .created (.ok (toPublic
        (credentialRecord tenantId createdBy input (newId random.id s).1 s.clock key)))) :
    Counted (newId random.id s).1
      (CredentialStore.step gcm box s (.create random tenantId createdBy input)) := by
  refine ⟨s.clock.ms, s.counter, random.id, hrandom, rfl, h, ?_⟩
  rw [CredentialStore.apply] at hcreated
  rw [CredentialStore.step, CredentialStore.apply]
  dsimp only at hcreated ⊢
  unfold ProviderCredentialStore.create at hcreated ⊢
  dsimp only at hcreated ⊢
  split_ifs at hcreated ⊢
  · cases hcreated
  · cases hkey : sealKey gcm box random tenantId (newId random.id s).1 input with
    | error e =>
      rw [hkey] at hcreated
      cases hcreated
    | ok key => exact ⟨le_rfl, Nat.lt_succ_self _⟩

end

/-! ## Runs -/

/-- The store after the calls of a run. -/
def CredentialStore.after (gcm : AesGcm) (box : Option SecretBox) (clock : TimeValue)
    (past : List CredentialOp) : CredentialStore :=
  CredentialStore.run gcm box (CredentialStore.start clock) past

/-- What is given about a run: the clock is not before the epoch and does not go back, and `randomBytes`
gives as many octets as it is asked for. -/
structure Genuine (gcm : AesGcm) (box : Option SecretBox) (clock : TimeValue)
    (ops : List CredentialOp) : Prop where
  epoch : 0 ≤ clock.ms
  forward : ∀ past now later, ops = past ++ .tick now :: later →
    (CredentialStore.after gcm box clock past).clock.ms ≤ now.ms
  drawn : ∀ op ∈ ops, op.Drawn

/-- Every record is that of a creation, with its key until the tenant revokes it and without any from
then on. -/
structure Sealed (gcm : AesGcm) (box : Option SecretBox) (clock : TimeValue)
    (past : List CredentialOp) (s : CredentialStore) : Prop where
  epoch : 0 ≤ s.clock.ms
  distinct : DistinctKeys s.credentials
  counted : ∀ p ∈ s.credentials, Counted p.1 s
  stored : ∀ p ∈ s.credentials, ∃ before op later random input, past = before ++ op :: later ∧
    Creates gcm box (CredentialStore.after gcm box clock before) op p.2.tenantId p.1 random input ∧
    random.iv.length = 12 ∧
    (p.2.revokedAt = none → sealKey gcm box random p.2.tenantId p.1 input = .ok p.2.sealed ∧
      .revoke p.2.tenantId p.1 ∉ later) ∧
    (p.2.revokedAt ≠ none → p.2.sealed = none)

section run

variable {gcm : AesGcm} {box : Option SecretBox} {clock : TimeValue} {past : List CredentialOp}
  {op : CredentialOp}

/-- The store after one more call. -/
theorem after_concat : CredentialStore.after gcm box clock (past ++ [op]) =
    CredentialStore.step gcm box (CredentialStore.after gcm box clock past) op := by
  unfold CredentialStore.after CredentialStore.run
  rw [List.foldl_append]
  rfl

/-- What is given about a run is given about its beginning. -/
theorem Genuine.of_concat (h : Genuine gcm box clock (past ++ [op])) :
    Genuine gcm box clock past ∧ op.Drawn ∧
      ∀ now, op = .tick now → (CredentialStore.after gcm box clock past).clock.ms ≤ now.ms := by
  refine ⟨⟨h.epoch, fun before now later hpast => ?_, fun op' hop' => ?_⟩, ?_, ?_⟩
  · refine h.forward before now (later ++ [op]) ?_
    rw [hpast, List.append_assoc, List.cons_append]
  · exact h.drawn op' (List.mem_append_left _ hop')
  · exact h.drawn op (List.mem_append_right _ (List.mem_singleton_self op))
  · rintro now rfl
    exact h.forward past now [] rfl

/-- What is given about a run is given about each beginning. -/
theorem Genuine.of_append {later : List CredentialOp} (h : Genuine gcm box clock (past ++ later)) :
    Genuine gcm box clock past := by
  refine ⟨h.epoch, fun before now rest hpast => ?_, fun op' hop' => ?_⟩
  · refine h.forward before now (rest ++ later) ?_
    rw [hpast, List.append_assoc, List.cons_append]
  · exact h.drawn op' (List.mem_append_left _ hop')

variable {s : CredentialStore} {p : JsString × ProviderCredentialRecord}

/-- A record that was there stays that of its creation. -/
theorem Sealed.keep (h : Sealed gcm box clock past s) (hp : p ∈ s.credentials)
    {c : ProviderCredentialRecord} (htenant : c.tenantId = p.2.tenantId)
    (hsealed : c.revokedAt = none → c.sealed = p.2.sealed ∧ p.2.revokedAt = none ∧
      op ≠ .revoke c.tenantId p.1)
    (hdropped : c.revokedAt ≠ none → c.sealed = none ∨ c.sealed = p.2.sealed ∧ p.2.revokedAt ≠ none) :
    ∃ before op' later random input, past ++ [op] = before ++ op' :: later ∧
      Creates gcm box (CredentialStore.after gcm box clock before) op' c.tenantId p.1 random input ∧
      random.iv.length = 12 ∧
      (c.revokedAt = none → sealKey gcm box random c.tenantId p.1 input = .ok c.sealed ∧
        .revoke c.tenantId p.1 ∉ later) ∧
      (c.revokedAt ≠ none → c.sealed = none) := by
  obtain ⟨before, op', later, random, input, rfl, hcreates, hiv, hlive, hdead⟩ := h.stored p hp
  refine ⟨before, op', later ++ [op], random, input, ?_, ?_, hiv, fun hnone => ?_, fun hsome => ?_⟩
  · rw [List.append_assoc, List.cons_append]
  · rw [htenant]
    exact hcreates
  · obtain ⟨hsame, hlive', hop⟩ := hsealed hnone
    obtain ⟨hseal, hnot⟩ := hlive hlive'
    rw [htenant, hsame]
    refine ⟨hseal, fun hmem => ?_⟩
    rcases List.mem_append.mp hmem with hmem | hmem
    · exact hnot hmem
    · rw [htenant] at hop
      exact hop (List.mem_singleton.mp hmem).symm
  · rcases hdropped hsome with hnone | ⟨hsame, hrevoked⟩
    · exact hnone
    · rw [hsame]
      exact hdead hrevoked

/-- A call that writes nothing. -/
theorem Sealed.same (h : Sealed gcm box clock past s)
    (hclock : ∀ now, op = .tick now → s.clock.ms ≤ now.ms)
    (hcredentials : (CredentialStore.step gcm box s op).credentials = s.credentials) :
    Sealed gcm box clock (past ++ [op]) (CredentialStore.step gcm box s op) := by
  refine ⟨h.epoch.trans (step_later hclock).1, ?_, fun p hp => ?_, fun p hp => ?_⟩
  · rw [hcredentials]
    exact h.distinct
  · rw [hcredentials] at hp
    exact (h.counted p hp).step hclock
  · have hthere := hp
    rw [hcredentials] at hp
    refine h.keep hp rfl (fun hnone => ⟨rfl, hnone, ?_⟩) fun hsome => .inr ⟨rfl, hsome⟩
    rintro rfl
    exact revokedAt_of_mem_revoke h.distinct hthere rfl hnone

/-- A call that writes a record of one that was there. -/
theorem Sealed.rewrite (h : Sealed gcm box clock past s)
    (hclock : ∀ now, op = .tick now → s.clock.ms ≤ now.ms) {id : JsString}
    {c c' : ProviderCredentialRecord} (hlookup : s.credentials.lookup id = some c)
    (hcredentials : (CredentialStore.step gcm box s op).credentials =
      setProp s.credentials (id, c')) (htenant : c'.tenantId = c.tenantId)
    (hsealed : c'.revokedAt = none → c'.sealed = c.sealed ∧ c.revokedAt = none)
    (hdropped : c'.revokedAt ≠ none → c'.sealed = none) :
    Sealed gcm box clock (past ++ [op]) (CredentialStore.step gcm box s op) := by
  have hmem := mem_of_lookup hlookup
  have hlive : ∀ p ∈ (CredentialStore.step gcm box s op).credentials, p.2.revokedAt = none →
      op ≠ .revoke p.2.tenantId p.1 := by
    rintro p hp hnone rfl
    exact revokedAt_of_mem_revoke h.distinct hp rfl hnone
  refine ⟨h.epoch.trans (step_later hclock).1, ?_, fun p hp => ?_, fun p hp => ?_⟩
  · rw [hcredentials]
    exact h.distinct.setProp _
  · rw [hcredentials] at hp
    rcases mem_of_mem_setProp hp with rfl | hp
    · exact (h.counted _ hmem).step hclock
    · exact (h.counted p hp).step hclock
  · have hthere := hp
    rw [hcredentials] at hp
    rcases mem_of_mem_setProp hp with rfl | hp
    · refine h.keep hmem htenant (fun hnone => ?_) fun hsome => .inl (hdropped hsome)
      exact ⟨(hsealed hnone).1, (hsealed hnone).2, hlive _ hthere hnone⟩
    · exact h.keep hp rfl (fun hnone => ⟨rfl, hnone, hlive p hthere hnone⟩)
        fun hsome => .inr ⟨rfl, hsome⟩

/-- **What a call keeps.** -/
theorem Sealed.step (h : Sealed gcm box clock past (CredentialStore.after gcm box clock past))
    (hdrawn : op.Drawn)
    (hclock : ∀ now, op = .tick now → (CredentialStore.after gcm box clock past).clock.ms ≤ now.ms) :
    Sealed gcm box clock (past ++ [op])
      (CredentialStore.step gcm box (CredentialStore.after gcm box clock past) op) := by
  cases op with
  | create random tenantId createdBy input =>
    rcases create_cases gcm box (CredentialStore.after gcm box clock past) tenantId createdBy random
      input with ⟨e, -, hsame⟩ | ⟨key, hkey, hcreated, hcredentials⟩
    · exact h.same hclock hsame
    · refine ⟨h.epoch.trans (step_later hclock).1, ?_, fun p hp => ?_, fun p hp => ?_⟩
      · rw [hcredentials]
        exact h.distinct.setProp _
      · rw [hcredentials] at hp
        rcases mem_of_mem_setProp hp with rfl | hp
        · exact counted_newId h.epoch hdrawn.1 hcreated
        · exact (h.counted p hp).step hclock
      · rw [hcredentials] at hp
        rcases mem_of_mem_setProp hp with rfl | hp
        · refine ⟨past, _, [], random, input, rfl, ⟨⟨createdBy, rfl⟩, rfl, _, hcreated, rfl⟩,
            hdrawn.2, fun _ => ⟨hkey, List.not_mem_nil⟩, fun hsome => absurd rfl hsome⟩
        · refine h.keep hp rfl (fun hnone => ⟨rfl, hnone, ?_⟩) fun hsome => .inr ⟨rfl, hsome⟩
          rintro ⟨⟩
  | list tenantId providerId => exact h.same hclock rfl
  | get tenantId id => exact h.same hclock rfl
  | reveal tenantId id =>
    rcases @CredentialStore.step_cases gcm box (CredentialStore.after gcm box clock past)
      (.reveal tenantId id) with hsame | ⟨id', c, hwrites, hcredentials⟩
    · exact h.same hclock hsame
    · cases hwrites with
      | @reveal _ _ c key hfind hrevoked hkey =>
        obtain ⟨hlookup, htenant⟩ := CredentialStore.find_eq_some.mp hfind
        exact h.rewrite hclock hlookup hcredentials rfl (fun hnone => ⟨rfl, hnone⟩)
          fun hsome => absurd hrevoked hsome
  | revoke tenantId id =>
    rcases @CredentialStore.step_cases gcm box (CredentialStore.after gcm box clock past)
      (.revoke tenantId id) with hsame | ⟨id', c, hwrites, hcredentials⟩
    · exact h.same hclock hsame
    · cases hwrites with
      | @revoke _ _ c hfind =>
        obtain ⟨hlookup, htenant⟩ := CredentialStore.find_eq_some.mp hfind
        refine h.rewrite hclock hlookup hcredentials rfl ?_ fun _ => rfl
        rintro ⟨⟩
  | tick now => exact h.same hclock rfl

/-- **What every run keeps.** -/
theorem run_sealed (h : Genuine gcm box clock past) :
    Sealed gcm box clock past (CredentialStore.after gcm box clock past) := by
  induction past using List.reverseRecOn with
  | nil =>
    refine ⟨h.epoch, List.nodup_nil, fun p hp => ?_, fun p hp => ?_⟩
    · exact absurd hp List.not_mem_nil
    · exact absurd hp List.not_mem_nil
  | append_singleton past op ih =>
    obtain ⟨hpast, hdrawn, hclock⟩ := h.of_concat
    rw [after_concat]
    exact (ih hpast).step hdrawn hclock

end run

/-! ## What is listed -/

/-- What a read path sees of the records. -/
def CredentialStore.publicView (s : CredentialStore) : List (JsString × ProviderCredentialPublic) :=
  s.credentials.map (Prod.map id toPublic)

/-- The same call, but for the key of a creation, which has the same mask. -/
inductive CredentialOp.SameButKeys : CredentialOp → CredentialOp → Prop where
  /-- Of a creation. -/
  | create {random tenantId createdBy providerId name baseUrl apiKey apiKey'}
      (hmask : (apiKey.filter (· ≠ [])).map maskSecret = (apiKey'.filter (· ≠ [])).map maskSecret) :
      SameButKeys (.create random tenantId createdBy ⟨providerId, name, apiKey, baseUrl⟩)
        (.create random tenantId createdBy ⟨providerId, name, apiKey', baseUrl⟩)
  /-- Of every other call. -/
  | same {op} : SameButKeys op op

/-- Every key of a record that is not revoked opens. -/
def CredentialStore.AllOpen (gcm : AesGcm) (box : Option SecretBox) (s : CredentialStore) : Prop :=
  ∀ p ∈ s.credentials, p.2.revokedAt = none →
    ∃ key, openKey gcm box p.2.tenantId p.1 p.2 = .ok key

section view

variable {gcm : AesGcm} {box : Option SecretBox} {s s' : CredentialStore} {op op' : CredentialOp}
  {tenantId id : JsString}

/-- A credential that is found, in the view. -/
theorem map_find : (ProviderCredentialStore.find tenantId id s).map toPublic =
    (s.publicView.lookup id).filter (·.tenantId = tenantId) := by
  unfold ProviderCredentialStore.find CredentialStore.publicView
  rw [lookup_map, Option.filter_map]
  rfl

/-- **What `list` gives is in the view.** -/
theorem list_eq_of_publicView (hview : s.publicView = s'.publicView) (providerId : Option JsString) :
    ProviderCredentialStore.list tenantId providerId s =
      ProviderCredentialStore.list tenantId providerId s' := by
  have hlist : ∀ s : CredentialStore, ProviderCredentialStore.list tenantId providerId s =
      (((s.publicView.map Prod.snd).filter (·.tenantId = tenantId)).filter fun c =>
        ((providerId.filter (· ≠ [])).map (decide <| c.providerId = ·)).getD true).mergeSort
          (fun a b => decide (b.createdAt.ms ≤ a.createdAt.ms)) := by
    intro s
    have hsnd : s.publicView.map Prod.snd = (s.credentials.map Prod.snd).map toPublic := by
      unfold CredentialStore.publicView
      rw [List.map_map, List.map_map]
      rfl
    unfold ProviderCredentialStore.list
    rw [hsnd, List.filter_map (f := toPublic), List.filter_map (f := toPublic)]
    exact List.map_mergeSort (f := toPublic) fun _ _ _ _ => rfl
  rw [hlist, hlist, hview]

/-- **What `get` gives is in the view.** -/
theorem get_eq_of_publicView (hview : s.publicView = s'.publicView) :
    ProviderCredentialStore.get tenantId id s = ProviderCredentialStore.get tenantId id s' := by
  unfold ProviderCredentialStore.get
  rw [map_find, map_find, hview]

/-- The view after a record was written. -/
theorem publicView_setProp {n : ℕ} {t : TimeValue} {c : ProviderCredentialRecord} :
    (CredentialStore.mk (setProp s.credentials (id, c)) n t).publicView =
      setProp s.publicView (id, toPublic c) := by
  unfold CredentialStore.publicView
  exact map_setProp toPublic s.credentials (id, c)

/-- Whether a key is sealed depends on whether there is one. -/
theorem sealKey_cases (random : Randomness) (input : CreateCredentialInput) :
    (box = none ∧ input.key ≠ none ∧ ∃ e, sealKey gcm box random tenantId id input = .error e) ∨
      (¬ (box = none ∧ input.key ≠ none) ∧
        ∃ key, sealKey gcm box random tenantId id input = .ok key) := by
  unfold sealKey CreateCredentialInput.key
  cases input.apiKey.filter (· ≠ []) with
  | none => exact .inr ⟨fun h => h.2 rfl, none, rfl⟩
  | some apiKey =>
    cases box with
    | none => exact .inl ⟨rfl, Option.some_ne_none _, _, rfl⟩
    | some b => exact .inr ⟨fun h => Option.some_ne_none _ h.1, _, rfl⟩

/-- **What a creation writes into the view** depends on the mask of its key. -/
theorem publicView_create (random : Randomness) (tenantId createdBy : JsString)
    (input : CreateCredentialInput) :
    let s' := CredentialStore.step gcm box s (.create random tenantId createdBy input)
    let record := toPublic
      (credentialRecord tenantId createdBy input (newId random.id s).1 s.clock none)
    s'.clock = s.clock ∧
      s'.counter = (if trim input.name = [] then s.counter else s.counter + 1) ∧
      s'.publicView = if trim input.name = [] ∨ (box = none ∧ input.key ≠ none) then s.publicView
        else setProp s.publicView ((newId random.id s).1, record) := by
  dsimp only
  rw [CredentialStore.step, CredentialStore.apply]
  dsimp only
  unfold ProviderCredentialStore.create
  by_cases hname : trim input.name = []
  · rw [if_pos hname, if_pos hname, if_pos (.inl hname)]
    exact ⟨rfl, rfl, rfl⟩
  · rw [if_neg hname, if_neg hname]
    dsimp only
    rcases @sealKey_cases gcm box tenantId (newId random.id s).1 random input with
      ⟨hbox, hkey, e, hseal⟩ | ⟨hnot, key, hseal⟩
    · rw [hseal, if_pos (.inr ⟨hbox, hkey⟩)]
      exact ⟨rfl, rfl, rfl⟩
    · rw [hseal, if_neg (not_or.mpr ⟨hname, hnot⟩)]
      exact ⟨rfl, rfl, publicView_setProp⟩

/-- **What a use writes into the view** is the time, when every key opens. -/
theorem publicView_reveal (hopen : s.AllOpen gcm box) (tenantId id : JsString) :
    let s' := CredentialStore.step gcm box s (.reveal tenantId id)
    s'.clock = s.clock ∧ s'.counter = s.counter ∧
      s'.publicView = ((s.publicView.lookup id).filter (·.tenantId = tenantId)).elim s.publicView
        fun c => if c.revokedAt.isSome = true then s.publicView
          else setProp s.publicView (id, { c with lastUsedAt := some s.clock }) := by
  dsimp only
  rw [CredentialStore.step, CredentialStore.apply, ← map_find]
  dsimp only
  unfold revealForProviderCall
  cases hfind : ProviderCredentialStore.find tenantId id s with
  | none => exact ⟨rfl, rfl, rfl⟩
  | some c =>
    rw [Option.map_some, Option.elim_some]
    dsimp only
    by_cases hrevoked : c.revokedAt.isSome = true
    · have hpublic : (toPublic c).revokedAt.isSome = true := hrevoked
      rw [if_pos hrevoked, if_pos hpublic]
      exact ⟨rfl, rfl, rfl⟩
    · obtain ⟨hlookup, htenant⟩ := CredentialStore.find_eq_some.mp hfind
      obtain ⟨key, hkey⟩ :=
        hopen _ (mem_of_lookup hlookup) (Option.not_isSome_iff_eq_none.mp hrevoked)
      have hpublic : ¬ (toPublic c).revokedAt.isSome = true := hrevoked
      rw [if_neg hrevoked, if_neg hpublic, ← htenant, hkey]
      exact ⟨rfl, rfl, publicView_setProp⟩

/-- **What a revocation writes into the view.** -/
theorem publicView_revoke (tenantId id : JsString) :
    let s' := CredentialStore.step gcm box s (.revoke tenantId id)
    s'.clock = s.clock ∧ s'.counter = s.counter ∧
      s'.publicView = ((s.publicView.lookup id).filter (·.tenantId = tenantId)).elim s.publicView
        fun c => setProp s.publicView
          (id, { c with revokedAt := some s.clock, updatedAt := s.clock }) := by
  dsimp only
  rw [CredentialStore.step, CredentialStore.apply, ← map_find]
  dsimp only
  unfold ProviderCredentialStore.revoke
  cases hfind : ProviderCredentialStore.find tenantId id s with
  | none => exact ⟨rfl, rfl, rfl⟩
  | some c => exact ⟨rfl, rfl, publicView_setProp⟩

/-- **Calls that are the same but for keys** write the same into the view. -/
theorem publicView_step (hop : op.SameButKeys op') (hview : s.publicView = s'.publicView)
    (hcounter : s.counter = s'.counter) (hclock : s.clock = s'.clock) (hopen : s.AllOpen gcm box)
    (hopen' : s'.AllOpen gcm box) :
    (CredentialStore.step gcm box s op).publicView =
        (CredentialStore.step gcm box s' op').publicView ∧
      (CredentialStore.step gcm box s op).counter = (CredentialStore.step gcm box s' op').counter ∧
      (CredentialStore.step gcm box s op).clock = (CredentialStore.step gcm box s' op').clock := by
  cases hop with
  | @create random tenantId createdBy providerId name baseUrl apiKey apiKey' hmask =>
    obtain ⟨h₁, h₂, h₃⟩ := @publicView_create gcm box s random tenantId createdBy
      ⟨providerId, name, apiKey, baseUrl⟩
    obtain ⟨h₁', h₂', h₃'⟩ := @publicView_create gcm box s' random tenantId createdBy
      ⟨providerId, name, apiKey', baseUrl⟩
    have hnone : CreateCredentialInput.key ⟨providerId, name, apiKey, baseUrl⟩ ≠ none ↔
        CreateCredentialInput.key ⟨providerId, name, apiKey', baseUrl⟩ ≠ none := by
      have h := congrArg Option.isNone hmask
      rw [Option.isNone_map, Option.isNone_map] at h
      unfold CreateCredentialInput.key
      rw [ne_eq, ne_eq, ← Option.isNone_iff_eq_none, ← Option.isNone_iff_eq_none, h]
    have hrecord : ∀ id, toPublic (credentialRecord tenantId createdBy
          ⟨providerId, name, apiKey, baseUrl⟩ id s.clock none) =
        toPublic (credentialRecord tenantId createdBy
          ⟨providerId, name, apiKey', baseUrl⟩ id s'.clock none) := by
      intro id
      unfold credentialRecord toPublic
      simp only [hmask, hclock]
    have hid : (newId random.id s).1 = (newId random.id s').1 := by
      unfold newId
      rw [hclock, hcounter]
    refine ⟨?_, ?_, ?_⟩
    · rw [h₃, h₃', hview, hid, hrecord]
      simp only [hnone]
    · rw [h₂, h₂', hcounter]
    · rw [h₁, h₁', hclock]
  | same =>
    cases op with
    | create random tenantId createdBy input =>
      obtain ⟨h₁, h₂, h₃⟩ := @publicView_create gcm box s random tenantId createdBy input
      obtain ⟨h₁', h₂', h₃'⟩ := @publicView_create gcm box s' random tenantId createdBy input
      have hid : (newId random.id s).1 = (newId random.id s').1 := by
        unfold newId
        rw [hclock, hcounter]
      rw [h₁, h₁', h₂, h₂', h₃, h₃', hview, hcounter, hclock, hid]
      exact ⟨rfl, rfl, rfl⟩
    | list tenantId providerId => exact ⟨hview, hcounter, hclock⟩
    | get tenantId id => exact ⟨hview, hcounter, hclock⟩
    | reveal tenantId id =>
      obtain ⟨h₁, h₂, h₃⟩ := publicView_reveal hopen tenantId id
      obtain ⟨h₁', h₂', h₃'⟩ := publicView_reveal hopen' tenantId id
      rw [h₁, h₁', h₂, h₂', h₃, h₃', hview, hcounter, hclock]
      exact ⟨rfl, rfl, rfl⟩
    | revoke tenantId id =>
      obtain ⟨h₁, h₂, h₃⟩ := @publicView_revoke gcm box s tenantId id
      obtain ⟨h₁', h₂', h₃'⟩ := @publicView_revoke gcm box s' tenantId id
      rw [h₁, h₁', h₂, h₂', h₃, h₃', hview, hcounter, hclock]
      exact ⟨rfl, rfl, rfl⟩
    | tick now => exact ⟨hview, hcounter, rfl⟩

end view

/-! ## What holds in every state -/

/-- A call throws. -/
def CredentialResult.Throws : CredentialResult → Prop
  | created r => ∃ e, r = .error e
  | listed _ => False
  | got _ => False
  | revealed r => ∃ e, r = .error e
  | revoked _ => False
  | passed => False

/-- A call stores a key. -/
def CredentialOp.StoresKey (box : Option SecretBox) (op : CredentialOp) (key : JsString) : Prop :=
  ∃ random tenantId createdBy input, op = .create random tenantId createdBy input ∧
    trim input.name ≠ [] ∧ box ≠ none ∧ input.key = some key

/-- The store is sound after the calls of a run: a key comes back to the tenant that has stored it and
not revoked it, what is listed does not depend on keys but for their masks, a revoked record has no
ciphertext, and what throws writes no record. -/
structure Sound (gcm : AesGcm) (box : Option SecretBox) (clock : TimeValue)
    (past : List CredentialOp) : Prop where
  revealed : ∀ tenantId id r apiKey, (revealForProviderCall gcm box tenantId id
      (CredentialStore.after gcm box clock past)).1 = .ok (some r) → r.apiKey = some apiKey →
    ∃ before op later random input, past = before ++ op :: later ∧
      Creates gcm box (CredentialStore.after gcm box clock before) op tenantId id random input ∧
      .revoke tenantId id ∉ later ∧ input.key = some apiKey
  hidden : ∀ past', List.Forall₂ CredentialOp.SameButKeys past past' → ∀ tenantId,
    (∀ providerId, ProviderCredentialStore.list tenantId providerId
        (CredentialStore.after gcm box clock past) =
      ProviderCredentialStore.list tenantId providerId
        (CredentialStore.after gcm box clock past')) ∧
    ∀ id, ProviderCredentialStore.get tenantId id (CredentialStore.after gcm box clock past) =
      ProviderCredentialStore.get tenantId id (CredentialStore.after gcm box clock past')
  dropped : ∀ before tenantId id later c, past = before ++ .revoke tenantId id :: later →
    (CredentialStore.apply gcm box (CredentialStore.after gcm box clock before)
      (.revoke tenantId id)).1 = .revoked (some c) →
    ∀ p ∈ (CredentialStore.after gcm box clock past).credentials, p.1 = id → p.2.sealed = none
  unchanged : ∀ op, (CredentialStore.apply gcm box (CredentialStore.after gcm box clock past)
      op).1.Throws → (CredentialStore.step gcm box (CredentialStore.after gcm box clock past)
        op).credentials = (CredentialStore.after gcm box clock past).credentials

section sound

variable {gcm : AesGcm} {box : Option SecretBox} {clock : TimeValue} {past past' : List CredentialOp}
  {op op' : CredentialOp} {s : CredentialStore} {tenantId id : JsString}

/-- A key that is not revoked opens. -/
theorem Sealed.allOpen (hgcm : gcm.Opens) (h : Sealed gcm box clock past s) : s.AllOpen gcm box := by
  intro p hp hnone
  obtain ⟨before, op, later, random, input, -, -, hiv, hlive, -⟩ := h.stored p hp
  exact ⟨_, openKey_of_sealKey hgcm hiv (hlive hnone).1⟩

/-- One more call of a run. -/
theorem Genuine.concat (h : Genuine gcm box clock past) (hdrawn : op.Drawn)
    (hclock : ∀ now, op = .tick now → (CredentialStore.after gcm box clock past).clock.ms ≤ now.ms) :
    Genuine gcm box clock (past ++ [op]) := by
  refine ⟨h.epoch, fun before now later hpast => ?_, fun op' hop' => ?_⟩
  · rcases List.eq_nil_or_concat later with rfl | ⟨later, last, rfl⟩
    · obtain ⟨rfl, hop⟩ := List.append_inj' hpast rfl
      exact hclock now (List.singleton_inj.mp hop)
    · rw [List.concat_eq_append, ← List.cons_append, ← List.append_assoc] at hpast
      exact h.forward before now later (List.append_inj' hpast rfl).1
  · rcases List.mem_append.mp hop' with hop' | hop'
    · exact h.drawn op' hop'
    · rw [List.mem_singleton.mp hop']
      exact hdrawn

/-- The octets that are drawn are those of the same call. -/
theorem CredentialOp.SameButKeys.drawn (h : op.SameButKeys op') (hdrawn : op.Drawn) : op'.Drawn := by
  cases h with
  | create hmask => exact hdrawn
  | same => exact hdrawn

/-- **Two runs that are the same but for keys** have the same view. -/
theorem after_view (hgcm : gcm.Opens) (h : Genuine gcm box clock past)
    (hsame : List.Forall₂ CredentialOp.SameButKeys past past') :
    Genuine gcm box clock past' ∧
      (CredentialStore.after gcm box clock past).publicView =
        (CredentialStore.after gcm box clock past').publicView ∧
      (CredentialStore.after gcm box clock past).counter =
        (CredentialStore.after gcm box clock past').counter ∧
      (CredentialStore.after gcm box clock past).clock =
        (CredentialStore.after gcm box clock past').clock := by
  induction past using List.reverseRecOn generalizing past' with
  | nil =>
    obtain rfl := List.forall₂_nil_left_iff.mp hsame
    exact ⟨h, rfl, rfl, rfl⟩
  | append_singleton past op ih =>
    rcases List.eq_nil_or_concat past' with rfl | ⟨past', op', rfl⟩
    · exact absurd (List.forall₂_nil_right_iff.mp hsame) (List.concat_ne_nil op past)
    · rw [List.concat_eq_append] at hsame ⊢
      have hlength : past.length = past'.length := by
        have hlength := hsame.length_eq
        rw [List.length_append, List.length_append] at hlength
        exact Nat.add_right_cancel hlength
      have hpast := List.forall₂_take_append _ past' [op'] hsame
      have hlast := List.forall₂_drop_append _ past' [op'] hsame
      rw [← hlength, List.take_left] at hpast
      rw [← hlength, List.drop_left, List.forall₂_cons] at hlast
      obtain ⟨hgenuine, hdrawn, hforward⟩ := h.of_concat
      obtain ⟨hgenuine', hview, hcounter, hclock⟩ := ih hgenuine hpast
      refine ⟨hgenuine'.concat (hlast.1.drawn hdrawn) fun now hnow => ?_, ?_⟩
      · rw [← hclock]
        refine hforward now ?_
        subst hnow
        cases hlast.1
        rfl
      · rw [after_concat, after_concat]
        exact publicView_step hlast.1 hview hcounter hclock ((run_sealed hgenuine).allOpen hgcm)
          ((run_sealed hgenuine').allOpen hgcm)

/-- A creation that is accepted stores its key. -/
theorem Creates.storesKey {random : Randomness} {input : CreateCredentialInput} {key : JsString}
    (h : Creates gcm box s op tenantId id random input) (hkey : input.key = some key) :
    op.StoresKey box key := by
  obtain ⟨⟨createdBy, rfl⟩, -, c, haccepted, -⟩ := h
  refine ⟨random, tenantId, createdBy, input, rfl, ?_⟩
  rw [CredentialStore.apply] at haccepted
  dsimp only at haccepted
  unfold ProviderCredentialStore.create at haccepted
  by_cases hname : trim input.name = []
  · rw [if_pos hname] at haccepted
    cases haccepted
  · rw [if_neg hname] at haccepted
    dsimp only at haccepted
    refine ⟨hname, ?_, hkey⟩
    rintro rfl
    rcases @sealKey_cases gcm none tenantId (newId random.id s).1 random input with
      ⟨-, -, e, hseal⟩ | ⟨hnot, -⟩
    · rw [hseal] at haccepted
      cases haccepted
    · exact hnot ⟨rfl, by rw [hkey]; exact Option.some_ne_none key⟩

/-- A call that stores a key creates a credential. -/
theorem CredentialOp.StoresKey.creates {key : JsString} (h : op.StoresKey box key) :
    ∃ tenantId id random createdBy input sealed, input.key = some key ∧
      Creates gcm box s op tenantId id random input ∧
      sealKey gcm box random tenantId id input = .ok sealed ∧
      (CredentialStore.step gcm box s op).credentials = setProp s.credentials
        (id, credentialRecord tenantId createdBy input id s.clock sealed) := by
  obtain ⟨random, tenantId, createdBy, input, rfl, hname, hbox, hkey⟩ := h
  rcases create_cases gcm box s tenantId createdBy random input with
    ⟨e, hthrows, -⟩ | ⟨sealed, hseal, hcreated, hcredentials⟩
  · exfalso
    rw [CredentialStore.apply] at hthrows
    dsimp only at hthrows
    unfold ProviderCredentialStore.create at hthrows
    rw [if_neg hname] at hthrows
    dsimp only at hthrows
    rcases @sealKey_cases gcm box tenantId (newId random.id s).1 random input with
      ⟨hnone, -⟩ | ⟨-, sealed, hseal⟩
    · exact hbox hnone
    · rw [hseal] at hthrows
      cases hthrows
  · exact ⟨tenantId, _, random, createdBy, input, sealed, hkey,
      ⟨⟨createdBy, rfl⟩, rfl, _, hcreated, rfl⟩, hseal, hcredentials⟩

/-- **What is revealed** is what the octets of the stored key are read as. -/
theorem Sealed.revealed (hgcm : gcm.Opens) (h : Sealed gcm box clock past s)
    {r : Revealed JsString} {apiKey : JsString}
    (hreveal : (revealForProviderCall gcm box tenantId id s).1 = .ok (some r))
    (hkey : r.apiKey = some apiKey) :
    ∃ before op later random input key, past = before ++ op :: later ∧
      Creates gcm box (CredentialStore.after gcm box clock before) op tenantId id random input ∧
      .revoke tenantId id ∉ later ∧ input.key = some key ∧ fromUtf8 (utf8 key) = apiKey := by
  rcases revealForProviderCall_eq_ok.mp hreveal with ⟨-, hnone⟩ | ⟨c, opened, hfind, hnone, hopen, hr⟩
  · cases hnone
  · obtain ⟨hlookup, rfl⟩ := CredentialStore.find_eq_some.mp hfind
    obtain ⟨before, op, later, random, input, hpast, hcreates, hiv, hlive, -⟩ :=
      h.stored _ (mem_of_lookup hlookup)
    obtain ⟨hseal, hnot⟩ := hlive hnone
    rw [openKey_of_sealKey hgcm hiv hseal] at hopen
    obtain rfl := Option.some.inj hr
    obtain rfl := Except.ok.inj hopen
    obtain ⟨key, hinput, hread⟩ := Option.map_eq_some_iff.mp (Option.filter_eq_some_iff.mp hkey).1
    exact ⟨before, op, later, random, input, key, hpast, hcreates, hnot, hinput, hread⟩

/-- A creation that was accepted was counted, and stays so. -/
theorem Creates.counted {before later : List CredentialOp} {random : Randomness}
    {input : CreateCredentialInput}
    (h : Creates gcm box (CredentialStore.after gcm box clock before) op tenantId id random input)
    (hgenuine : Genuine gcm box clock (before ++ op :: later)) :
    Counted id (CredentialStore.after gcm box clock (before ++ op :: later)) := by
  induction later using List.reverseRecOn with
  | nil =>
    obtain ⟨hbefore, hdrawn, -⟩ := hgenuine.of_concat
    obtain ⟨⟨createdBy, rfl⟩, rfl, c, haccepted, hid⟩ := h
    rw [after_concat]
    rcases create_cases gcm box (CredentialStore.after gcm box clock before) tenantId createdBy random
      input with ⟨e, hthrows, -⟩ | ⟨sealed, -, hcreated, -⟩
    · rw [haccepted] at hthrows
      cases hthrows
    · exact counted_newId (run_sealed hbefore).epoch hdrawn.1 hcreated
  | append_singleton later last ih =>
    rw [← List.cons_append, ← List.append_assoc] at hgenuine ⊢
    obtain ⟨hpast, -, hclock⟩ := hgenuine.of_concat
    rw [after_concat]
    exact (ih hpast).step hclock

/-- A text has units if its octets are read as units. -/
theorem fromUtf8_utf8_ne_nil {key : JsString} (h : key ≠ []) : fromUtf8 (utf8 key) ≠ [] := by
  rw [fromUtf8_utf8]
  intro hnil
  have hunits : ∀ c : Char, utf16 c ≠ [] := by
    intro c
    unfold utf16
    split_ifs <;> exact List.cons_ne_nil _ _
  obtain ⟨c, hc⟩ := List.exists_mem_of_ne_nil _ (toChars_ne_nil h)
  exact hunits c (List.flatMap_eq_nil_iff.mp hnil c hc)

/-- **A key that comes back is well formed.** -/
theorem wellFormed_of_sound (hgcm : gcm.Opens) (h : Genuine gcm box clock (past ++ [op]))
    (hsound : Sound gcm box clock (past ++ [op])) {key : JsString} (hstores : op.StoresKey box key) :
    WellFormed key := by
  obtain ⟨hpast, hdrawn, -⟩ := h.of_concat
  obtain ⟨tenantId, id, random, createdBy, input, sealed, hkey, hcreates, hseal, hcredentials⟩ :=
    @CredentialOp.StoresKey.creates gcm box op (CredentialStore.after gcm box clock past) key hstores
  have hfind : ProviderCredentialStore.find tenantId id
      (CredentialStore.after gcm box clock (past ++ [op])) =
      some (credentialRecord tenantId createdBy input id
        (CredentialStore.after gcm box clock past).clock sealed) := by
    refine CredentialStore.find_eq_some.mpr ⟨?_, rfl⟩
    rw [after_concat, hcredentials, lookup_setProp, if_pos rfl]
  have hempty : key ≠ [] := by
    have hne := (Option.filter_eq_some_iff.mp hkey).2
    exact of_decide_eq_true hne
  obtain ⟨⟨createdBy', rfl⟩, rfl, -⟩ := hcreates
  have hopen := openKey_of_sealKey (c := credentialRecord tenantId createdBy input
    (newId random.id (CredentialStore.after gcm box clock past)).1
    (CredentialStore.after gcm box clock past).clock sealed) hgcm hdrawn.2 hseal
  have hreads : ((input.key.map fun key => fromUtf8 (utf8 key)).filter (· ≠ [])) =
      some (fromUtf8 (utf8 key)) := by
    rw [hkey, Option.map_some]
    exact Option.filter_eq_some_iff.mpr ⟨rfl, decide_eq_true (fromUtf8_utf8_ne_nil hempty)⟩
  obtain ⟨before, op', later, random', input', hpast', hcreates', -, hkey'⟩ :=
    hsound.revealed _ _ _ _
      (revealForProviderCall_eq_ok.mpr (.inr ⟨_, _, hfind, rfl, hopen, rfl⟩)) hreads
  rcases List.eq_nil_or_concat later with rfl | ⟨later, last, rfl⟩
  · -- the creation is this one
    obtain ⟨rfl, hop⟩ := List.append_inj' hpast' rfl
    obtain ⟨⟨createdBy'', heq⟩, -⟩ := hcreates'
    rw [← (List.cons.inj hop).1] at heq
    obtain ⟨-, -, -, rfl⟩ := CredentialOp.create.inj heq
    rw [hkey] at hkey'
    exact fromUtf8_utf8_eq_self_iff.mp (Option.some.inj hkey').symm
  · -- no earlier creation has given the same identifier
    exfalso
    rw [List.concat_eq_append, ← List.cons_append, ← List.append_assoc] at hpast'
    obtain ⟨rfl, -⟩ := List.append_inj' hpast' rfl
    exact (hcreates'.counted hpast).ne_newId hdrawn.1 rfl

/-- **A revoked record stays revoked.** -/
theorem Sealed.revoked_step (h : Sealed gcm box clock past s) (hdrawn : op.Drawn)
    (hrevoked : ∃ c, s.credentials.lookup id = some c ∧ c.revokedAt ≠ none) :
    ∃ c, (CredentialStore.step gcm box s op).credentials.lookup id = some c ∧
      c.revokedAt ≠ none := by
  obtain ⟨c, hlookup, hsome⟩ := hrevoked
  rcases @CredentialStore.step_cases gcm box s op with hsame | ⟨id', c', hwrites, hcredentials⟩
  · rw [hsame]
    exact ⟨c, hlookup, hsome⟩
  · rw [hcredentials, lookup_setProp]
    by_cases hid : id = id'
    · rw [if_pos hid]
      refine ⟨c', rfl, ?_⟩
      subst hid
      cases hwrites with
      | create hkey => exact absurd rfl ((h.counted _ (mem_of_lookup hlookup)).ne_newId hdrawn.1)
      | reveal hfind hnone hkey =>
        have hfound := (CredentialStore.find_eq_some.mp hfind).1
        rw [hlookup] at hfound
        obtain rfl := Option.some.inj hfound
        exact hsome
      | revoke hfind => exact Option.some_ne_none _
    · rw [if_neg hid]
      exact ⟨c, hlookup, hsome⟩

/-- **A record that was revoked** is revoked in every later state. -/
theorem after_revoke {before later : List CredentialOp} {c : ProviderCredentialPublic}
    (hrevokes : (CredentialStore.apply gcm box (CredentialStore.after gcm box clock before)
      (.revoke tenantId id)).1 = .revoked (some c))
    (h : Genuine gcm box clock (before ++ .revoke tenantId id :: later)) :
    ∃ c, (CredentialStore.after gcm box clock
      (before ++ .revoke tenantId id :: later)).credentials.lookup id = some c ∧
      c.revokedAt ≠ none := by
  induction later using List.reverseRecOn with
  | nil =>
    rw [after_concat, CredentialStore.step, CredentialStore.apply]
    rw [CredentialStore.apply] at hrevokes
    dsimp only at hrevokes ⊢
    unfold ProviderCredentialStore.revoke at hrevokes ⊢
    cases hfind : ProviderCredentialStore.find tenantId id
        (CredentialStore.after gcm box clock before) with
    | none =>
      rw [hfind] at hrevokes
      cases hrevokes
    | some c =>
      dsimp only
      rw [lookup_setProp, if_pos rfl]
      exact ⟨_, rfl, Option.some_ne_none _⟩
  | append_singleton later last ih =>
    rw [← List.cons_append, ← List.append_assoc] at h ⊢
    obtain ⟨hpast, hdrawn, -⟩ := h.of_concat
    rw [after_concat]
    exact (run_sealed hpast).revoked_step hdrawn (ih hpast)

/-- **A call that throws writes no record.** -/
theorem credentials_of_throws (h : (CredentialStore.apply gcm box s op).1.Throws) :
    (CredentialStore.step gcm box s op).credentials = s.credentials := by
  cases op with
  | create random tenantId createdBy input =>
    rcases create_cases gcm box s tenantId createdBy random input with
      ⟨e, -, hsame⟩ | ⟨sealed, -, hcreated, -⟩
    · exact hsame
    · rw [hcreated] at h
      obtain ⟨e, he⟩ := h
      cases he
  | list tenantId providerId => rfl
  | get tenantId id => rfl
  | reveal tenantId id =>
    obtain ⟨e, he⟩ := h
    rw [CredentialStore.step, CredentialStore.apply]
    dsimp only
    unfold revealForProviderCall at he ⊢
    cases hfind : ProviderCredentialStore.find tenantId id s with
    | none => rfl
    | some c =>
      rw [hfind] at he
      dsimp only at he ⊢
      by_cases hrevoked : c.revokedAt.isSome = true
      · rw [if_pos hrevoked]
      · rw [if_neg hrevoked] at he ⊢
        cases hopen : openKey gcm box tenantId id c with
        | error e => rfl
        | ok apiKey =>
          rw [hopen] at he
          cases he
  | revoke tenantId id => exact h.elim
  | tick now => rfl

/-- **The store is sound exactly when every key that is stored is well formed.** -/
theorem credentials_sound_iff {ops : List CredentialOp} (hgcm : gcm.Opens)
    (h : Genuine gcm box clock ops) :
    (∀ past later, ops = past ++ later → Sound gcm box clock past) ↔
      ∀ op ∈ ops, ∀ key, op.StoresKey box key → WellFormed key := by
  constructor
  · intro hsound op hop key hstores
    obtain ⟨past, later, rfl⟩ := List.append_of_mem hop
    rw [← List.singleton_append, ← List.append_assoc] at h hsound
    exact wellFormed_of_sound hgcm h.of_append (hsound _ later rfl) hstores
  · rintro hwell past later rfl
    have hpast := h.of_append
    have hsealed := run_sealed hpast
    refine ⟨fun tenantId id r apiKey hreveal hkey => ?_, fun past' hsame tenantId => ?_, ?_, ?_⟩
    · obtain ⟨before, op, rest, random, input, key, rfl, hcreates, hnot, hinput, hread⟩ :=
        hsealed.revealed hgcm hreveal hkey
      have hstores := hcreates.storesKey hinput
      have hop : op ∈ before ++ op :: rest ++ later := by simp
      rw [fromUtf8_utf8_eq_self_iff.mpr (hwell op hop key hstores)] at hread
      exact ⟨before, op, rest, random, input, rfl, hcreates, hnot, hread ▸ hinput⟩
    · obtain ⟨-, hview, -⟩ := after_view hgcm hpast hsame
      exact ⟨list_eq_of_publicView hview, fun id => get_eq_of_publicView hview⟩
    · rintro before tenantId id rest c rfl hrevokes p hp rfl
      obtain ⟨c', hlookup, hsome⟩ := after_revoke hrevokes hpast
      rw [lookup_eq_some_of_mem hsealed.distinct hp] at hlookup
      obtain rfl := Option.some.inj hlookup
      obtain ⟨-, -, -, -, -, -, -, -, -, hdead⟩ := hsealed.stored p hp
      exact hdead hsome
    · exact fun op => credentials_of_throws

end sound

/-! ## A key with a lone surrogate -/

section examples

/-- A key, an initialisation vector and the associated data of the record `cred_000102` of `t`. -/
def recordedFor (key iv aad : Bytes) : Bool :=
  key = List.replicate 32 7 ∧ iv = List.replicate 12 9 ∧
    aad = utf8 (js "agent-eval:provider-credential:t:cred_000102")

/-- What AES-256-GCM makes of `sk-1` under these. -/
def recordedKey : Bytes × Bytes := ([84, 238, 169, 165],
  [38, 61, 173, 96, 23, 127, 38, 128, 209, 75, 56, 74, 99, 155, 48, 195])

/-- What it makes of U+FFFD. -/
def recordedReplacement : Bytes × Bytes := ([200, 58, 57],
  [40, 138, 236, 106, 219, 21, 82, 53, 245, 170, 27, 23, 146, 12, 47, 190])

/-- AES-256-GCM where it was recorded, and elsewhere a copy with a tag of zeros. -/
def recordedGcm : AesGcm where
  encrypt key iv aad plaintext :=
    if recordedFor key iv aad ∧ plaintext = utf8 (js "sk-1") then recordedKey
    else if recordedFor key iv aad ∧ plaintext = [0xEF, 0xBF, 0xBD] then recordedReplacement
    else (plaintext, List.replicate 16 0)
  decrypt key iv aad ciphertext tag :=
    if recordedFor key iv aad ∧ (ciphertext, tag) = recordedKey then some (utf8 (js "sk-1"))
    else if recordedFor key iv aad ∧ (ciphertext, tag) = recordedReplacement then
      some [0xEF, 0xBF, 0xBD]
    else if tag = List.replicate 16 0 then some ciphertext else none

/-- What was recorded opens. -/
theorem recordedGcm_opens : recordedGcm.Opens := by
  have hzeros : List.replicate 16 0 ≠ recordedKey.2 ∧
      List.replicate 16 0 ≠ recordedReplacement.2 := by decide
  have hne : recordedReplacement ≠ recordedKey := by decide
  refine ⟨fun key iv aad plaintext _ _ => ?_, fun key iv aad plaintext _ _ => ?_⟩
  · unfold recordedGcm
    dsimp only
    by_cases hkey : recordedFor key iv aad ∧ plaintext = utf8 (js "sk-1")
    · rw [if_pos hkey, if_pos ⟨hkey.1, rfl⟩, hkey.2]
    · rw [if_neg hkey]
      by_cases hreplacement : recordedFor key iv aad ∧ plaintext = [0xEF, 0xBF, 0xBD]
      · rw [if_pos hreplacement, if_neg fun h => hne h.2, if_pos ⟨hreplacement.1, rfl⟩,
          hreplacement.2]
      · rw [if_neg hreplacement, if_neg fun h => hzeros.1 (congrArg Prod.snd h.2),
          if_neg fun h => hzeros.2 (congrArg Prod.snd h.2), if_pos rfl]
  · unfold recordedGcm
    dsimp only
    split_ifs <;> rfl

/-- The master key of the records. -/
def recordedBox : SecretBox := ⟨List.replicate 32 7, rfl⟩

/-- A creation in the tenant `t` at the epoch. -/
def createsKey (apiKey : JsString) : CredentialOp :=
  .create ⟨[1, 2], List.replicate 12 9⟩ (js "t") (js "u")
    ⟨js "openai", js "main", some apiKey, none⟩

/-- The run of one creation. -/
theorem genuine_createsKey (apiKey : JsString) :
    Genuine recordedGcm (some recordedBox) ⟨0, TimeValue.zero_inRange⟩ [createsKey apiKey] := by
  refine ⟨le_rfl, fun past now later hpast => ?_, fun op hop => ?_⟩
  · have htick : CredentialOp.tick now ∈ [createsKey apiKey] := by
      rw [hpast]
      exact List.mem_append_right _ (List.mem_cons_self ..)
    cases List.mem_singleton.mp htick
  · rw [List.mem_singleton.mp hop]
    exact ⟨rfl, rfl⟩

/-- The store is sound after the creation of a credential with the key `sk-1`. -/
theorem credentials_sound_well_formed :
    (createsKey (js "sk-1")).StoresKey (some recordedBox) (js "sk-1") ∧
    Sound recordedGcm (some recordedBox) ⟨0, TimeValue.zero_inRange⟩ [createsKey (js "sk-1")] := by
  refine ⟨⟨_, _, _, _, rfl, by decide, Option.some_ne_none _, by decide⟩, ?_⟩
  refine (credentials_sound_iff recordedGcm_opens (genuine_createsKey _)).mpr ?_ _ [] rfl
  rintro op hop key ⟨random, tenantId, createdBy, input, rfl, -, -, hkey⟩
  cases List.mem_singleton.mp hop
  obtain rfl := Option.some.inj hkey
  exact ⟨"sk-1".toList, rfl⟩

/-- **A lone surrogate comes back as U+FFFD.** -/
theorem surrogate_replaced :
    recordedGcm.Opens ∧
    Genuine recordedGcm (some recordedBox) ⟨0, TimeValue.zero_inRange⟩ [createsKey [0xD800]] ∧
    ¬ Sound recordedGcm (some recordedBox) ⟨0, TimeValue.zero_inRange⟩ [createsKey [0xD800]] := by
  refine ⟨recordedGcm_opens, genuine_createsKey _, fun hsound => ?_⟩
  have hstores : (createsKey [0xD800]).StoresKey (some recordedBox) [0xD800] :=
    ⟨_, _, _, _, rfl, by decide, Option.some_ne_none _, by decide⟩
  have hwell := @wellFormed_of_sound recordedGcm (some recordedBox) _ [] _ recordedGcm_opens
    (genuine_createsKey _) hsound _ hstores
  rw [← fromUtf8_utf8_eq_self_iff] at hwell
  revert hwell
  decide

end examples

end AgentEval.Auth
