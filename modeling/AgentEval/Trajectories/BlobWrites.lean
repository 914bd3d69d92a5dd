import AgentEval.Async.Calls
import AgentEval.Crypto.Collision
import AgentEval.Trajectories.BlobStore

/-!
# Blobs that are put at the same time

Any number of calls of `put` in one process, of which several may have the same bytes. The temporary
file of a call is named by the address, the process and the millisecond, so two calls with the same
bytes in the same millisecond have one temporary file; the one that comes second removes the file of
the first.

* **`blobs_put`**: as long as no call that cleans up finds a file to remove, every call that is
  resumed six times has returned the address of its bytes, and they are in the file of that address.
* **`blob_lost`**: two calls in one millisecond, both of which are refused. Nothing is stored.
-/

namespace AgentEval.Trajectories

open Js Sha256 Async Crypto

/-! ## The paths -/

namespace FileBlobStore

variable {store : FileBlobStore} {a b : Bytes} {now now' : TimeValue}

/-- The file of the address of some bytes. -/
def target (store : FileBlobStore) (bytes : Bytes) : JsString := store.pathFor (computeAddress bytes)

/-- The name of a file ends in the digits of the digest. -/
theorem target_eq (bytes : Bytes) : store.target bytes = store.root ++
    ((toHex (sha256 bytes).bytes).take 2 ++ js "/" ++ toHex (sha256 bytes).bytes) := by
  have hdrop : (computeAddress bytes).drop 7 = toHex (sha256 bytes).bytes :=
    @List.drop_left _ (js "sha256:") _
  unfold target pathFor
  rw [hdrop]

/-- The names of the files are equally long. -/
theorem length_target (bytes : Bytes) : (store.target bytes).length = store.root.length + 67 := by
  have hslash : (js "/").length = 1 := rfl
  rw [target_eq, List.length_append, List.length_append, List.length_append, List.length_take,
    length_toHex, (sha256 bytes).length_bytes, hslash]
  rfl

/-- A file is that of one address. -/
theorem sha256_eq_of_target (h : store.target a = store.target b) : sha256 a = sha256 b := by
  rw [target_eq, target_eq] at h
  refine Digest.ext (toHex_injective (List.append_inj_right' (List.append_cancel_left h) ?_))
  rw [length_toHex, length_toHex, (sha256 a).length_bytes, (sha256 b).length_bytes]

/-- A temporary file belongs to one file. -/
theorem target_eq_of_tmp (h : store.tmp (store.target a) now = store.tmp (store.target b) now') :
    store.target a = store.target b :=
  (List.append_inj h ((length_target a).trans (length_target b).symm)).1

/-- A temporary file is none of the files. -/
theorem tmp_ne_target : store.tmp (store.target a) now ≠ store.target b := by
  intro h
  have hlength := congrArg List.length h
  unfold tmp at hlength
  rw [List.length_append, length_target, length_target, Nat.add_eq_left, List.length_append] at hlength
  exact absurd (Nat.eq_zero_of_add_eq_zero hlength).2 (by simp)

end FileBlobStore

/-! ## The script of a call -/

/-- How far a call has come. -/
inductive BlobPhase where
  /-- It looks for the blob. -/
  | idle
  /-- It makes the directory. -/
  | making
  /-- It writes the temporary file. -/
  | writing (tmp : JsString)
  /-- It renames the temporary file. -/
  | moving (tmp : JsString)
  /-- It removes the temporary file. -/
  | unlinking (tmp : JsString)
  /-- It looks again. -/
  | rechecking
  /-- The blob is there. -/
  | stored (metadata : BlobMetadata)
  /-- The blob is not there. -/
  | lost

/-- What the call for an image does to the disk. -/
inductive BlobOp (store : FileBlobStore) (image : Image) :
    BlobPhase → BlobPoint → (Disk → Disk) → Disk → BlobPhase → Prop
  /-- The blob is there. -/
  | found {phase point update s} (hphase : phase = .idle ∨ phase = .rechecking) (hsame : update s = s)
      (h : (s.files (store.target image.bytes)).isSome) :
      BlobOp store image phase point update s (.stored image.metadata)
  /-- The blob is not there. -/
  | absent {point update s} (hsame : update s = s) :
      BlobOp store image .idle point update s .making
  /-- The directory is made, and the temporary file is named. -/
  | mkdir {point update s} (hsame : update s = s) : BlobOp store image .making point update s
      (.writing (store.tmp (store.target image.bytes) s.clock))
  /-- The temporary file is written. -/
  | write {tmp point update s} (hfree : s.files tmp = none)
      (hupdate : update s = { s with files := Function.update s.files tmp (some image.bytes) }) :
      BlobOp store image (.writing tmp) point update s (.moving tmp)
  /-- The temporary file exists. -/
  | taken {tmp point update s} (hsame : update s = s) (h : (s.files tmp).isSome) :
      BlobOp store image (.writing tmp) point update s (.unlinking tmp)
  /-- The temporary file is renamed. -/
  | rename {tmp bytes point update s} (h : s.files tmp = some bytes)
      (hupdate : update s = { s with
        files := Function.update (Function.update s.files tmp none) (store.target image.bytes)
          (some bytes) }) :
      BlobOp store image (.moving tmp) point update s (.stored image.metadata)
  /-- The temporary file is gone. -/
  | gone {tmp point update s} (hsame : update s = s) (h : s.files tmp = none) :
      BlobOp store image (.moving tmp) point update s (.unlinking tmp)
  /-- The temporary file is removed. -/
  | unlink {tmp update s} (hupdate : update s = s.unlink tmp) :
      BlobOp store image (.unlinking tmp) (.unlink tmp) update s .rechecking
  /-- The blob is still not there. -/
  | lost {point update s} (hsame : update s = s) (h : s.files (store.target image.bytes) = none) :
      BlobOp store image .rechecking point update s .lost

/-- What a call has answered. -/
def BlobAnswered (phase : BlobPhase) (r : Except JsError BlobMetadata) : Prop :=
  (∃ metadata, phase = .stored metadata ∧ r = .ok metadata) ∨ phase = .lost

section

variable {store : FileBlobStore} {image : Image} {α : Type}

/-- The blob is looked for. -/
theorem follows_has {phase phase' : BlobPhase} {fin : BlobPhase → α → Prop}
    {k : Bool → Task Disk BlobPoint α} (hphase : phase = .idle ∨ phase = .rechecking)
    (habsent : ∀ s : Disk, s.files (store.target image.bytes) = none →
      BlobOp store image phase (.stat (store.target image.bytes)) (fun s => s) s phase')
    (hfound : (k true).Follows (fun _ => True) (BlobOp store image) fin (.stored image.metadata))
    (hnext : (k false).Follows (fun _ => True) (BlobOp store image) fin phase') :
    (store.has (computeAddress image.bytes) >>= k).Follows (fun _ => True) (BlobOp store image) fin
      phase := by
  rw [FileBlobStore.has_computeAddress]
  apply Task.Follows.await
  intro s _
  unfold Disk.isFile
  change ∃ phase', BlobOp store image phase _ (fun s => s) s phase' ∧
    (k (s.files (store.target image.bytes)).isSome).Follows _ _ fin phase'
  cases hfile : s.files (store.target image.bytes) with
  | none => exact ⟨phase', habsent s hfile, hnext⟩
  | some bytes => exact ⟨.stored image.metadata, .found hphase rfl (by rw [hfile]; rfl), hfound⟩

/-- The temporary file is written and renamed. -/
theorem follows_write {tmp : JsString} :
    (FileBlobStore.write tmp (store.target image.bytes) image.bytes).Follows (fun _ => True)
      (BlobOp store image)
      (fun phase r => phase = .stored image.metadata ∧ r = .ok () ∨
        phase = .unlinking tmp ∧ ∃ message, r = .error message) (.writing tmp) := by
  unfold FileBlobStore.write
  apply Task.Follows.await
  intro s _
  unfold Disk.writeFile
  cases hfree : s.files tmp with
  | some bytes =>
    exact ⟨.unlinking tmp, .taken (by rw [hfree]; rfl) (by rw [hfree]; rfl), .inr ⟨rfl, _, rfl⟩⟩
  | none =>
    refine ⟨.moving tmp, .write hfree (by rw [hfree]; rfl), ?_⟩
    apply Task.Follows.await_self
    intro s _
    unfold Disk.rename
    cases hfile : s.files tmp with
    | none => exact ⟨.unlinking tmp, .gone (by rw [hfile]) hfile, .inr ⟨rfl, _, rfl⟩⟩
    | some bytes =>
      exact ⟨.stored image.metadata, .rename hfile (by rw [hfile]), .inl ⟨rfl, rfl⟩⟩

/-- **What `put` does.**
Source: `blob-store.ts`, `FileBlobStore.put` -/
theorem follows_put : (store.put image.bytes).Follows (fun _ => True) (BlobOp store image)
    BlobAnswered .idle := by
  have hstored : ∀ {phase}, phase = .stored image.metadata →
      BlobAnswered phase (.ok image.metadata) := fun h => .inl ⟨_, h, rfl⟩
  unfold FileBlobStore.put
  rw [image.detected]
  refine follows_has (.inl rfl) (fun s _ => .absent rfl) (hstored rfl) ?_
  apply Task.Follows.await
  refine fun s _ => ⟨.writing (store.tmp (store.target image.bytes) s.clock), .mkdir rfl, ?_⟩
  apply Task.Follows.bind follows_write
  rintro phase r (⟨rfl, rfl⟩ | ⟨rfl, message, rfl⟩)
  · exact hstored rfl
  · apply Task.Follows.await
    refine fun s _ => ⟨.rechecking, .unlink rfl, ?_⟩
    exact follows_has (.inr rfl) (fun s h => .lost rfl h) (hstored rfl) (.inr rfl)

/-- Looking for a blob waits once at most. -/
theorem within_has (address : JsString) : (store.has address).Within 1 := by
  unfold FileBlobStore.has
  split_ifs
  · exact Task.Within.await fun _ => trivial
  · trivial

/-- Writing a blob waits twice at most. -/
theorem within_write (tmp target : JsString) (bytes : Bytes) :
    (FileBlobStore.write tmp target bytes).Within 2 := by
  unfold FileBlobStore.write
  apply Task.Within.await
  intro r
  cases r with
  | error message => trivial
  | ok u => exact Task.Within.await fun _ => trivial

/-- **How often `put` waits.** -/
theorem within_put (bytes : Bytes) : (store.put bytes).Within 6 := by
  unfold FileBlobStore.put
  cases detectFormat bytes with
  | none => trivial
  | some format =>
    apply Task.Within.bind (within_has _)
    intro found
    cases found with
    | true => trivial
    | false =>
      apply Task.Within.await
      intro tmp
      apply Task.Within.bind (within_write _ _ _)
      intro r
      cases r with
      | ok u => trivial
      | error message =>
        apply Task.Within.await
        intro u
        apply Task.Within.bind (within_has _)
        intro found
        cases found <;> trivial

end

/-! ## A process with its disk -/

/-- What can happen. -/
inductive BlobEvent where
  /-- An image is put. -/
  | put (image : Image)
  /-- A call goes on. -/
  | resume (i : ℕ)
  /-- Time passes. -/
  | tick (now : TimeValue)

namespace BlobEvent

/-- As an event of the pool. -/
def toAsync (store : FileBlobStore) :
    BlobEvent → Event Disk BlobPoint (Except JsError BlobMetadata)
  | put image => .spawn (store.put image.bytes)
  | resume i => .resume i
  | tick now => .other fun s => { s with clock := now }

/-- What an event does to the disk, if it is a call. -/
def Op (store : FileBlobStore) :
    BlobEvent → BlobPhase → BlobPoint → (Disk → Disk) → Disk → BlobPhase → Prop
  | put image => BlobOp store image
  | resume _ => fun _ _ _ _ _ => False
  | tick _ => fun _ _ _ _ _ => False

end BlobEvent

/-- The disk and the calls. -/
abbrev BlobServer := Pool Disk BlobPoint (Except JsError BlobMetadata)

namespace BlobServer

/-- No call yet. -/
def start (disk : Disk) : BlobServer := ⟨disk, []⟩

/-- A run. -/
def run (store : FileBlobStore) (server : BlobServer) (events : List BlobEvent) : BlobServer :=
  server.runBy (BlobEvent.toAsync store) events

end BlobServer

/-! ## What every step keeps -/

/-- Every file is the blob of its address, and no temporary file is left over. -/
structure Disk.Clean (store : FileBlobStore) (s : Disk) : Prop where
  target : ∀ a b, s.files (store.target a) = some b → sha256 b = sha256 a
  tmp : ∀ a now, s.files (store.tmp (store.target a) now) = none

/-- What a call knows in its phase. -/
def BlobPhase.Holds (store : FileBlobStore) (image : Image) (s : Disk) : BlobPhase → Prop
  | idle => True
  | making => True
  | writing tmp => ∃ now, tmp = store.tmp (store.target image.bytes) now
  | moving tmp => (∃ now, tmp = store.tmp (store.target image.bytes) now) ∧
      s.files tmp = some image.bytes
  | unlinking tmp => (∃ now, tmp = store.tmp (store.target image.bytes) now) ∧
      (s.files tmp = none → (s.files (store.target image.bytes)).isSome)
  | rechecking => (s.files (store.target image.bytes)).isSome
  | stored metadata => metadata = image.metadata ∧ (s.files (store.target image.bytes)).isSome
  | lost => False

/-- The files and the calls fit together: every temporary file is that of one call. -/
structure Orderly (store : FileBlobStore) (phases : List (BlobEvent × BlobPhase)) (s : Disk) :
    Prop where
  target : ∀ a b, s.files (store.target a) = some b → sha256 b = sha256 a
  tmp : ∀ a now, (s.files (store.tmp (store.target a) now)).isSome →
    ∃ (i : ℕ) (e : BlobEvent), phases[i]? = some (e, .moving (store.tmp (store.target a) now))
  unique : ∀ (i j : ℕ) (e e' : BlobEvent) (tmp : JsString), phases[i]? = some (e, .moving tmp) →
    phases[j]? = some (e', .moving tmp) → i = j
  holds : ∀ (i : ℕ) (e : BlobEvent) (phase : BlobPhase), phases[i]? = some (e, phase) →
    ∃ image, e = .put image ∧ phase.Holds store image s

section

variable {store : FileBlobStore} {phases : List (BlobEvent × BlobPhase)} {s s' : Disk} {image : Image}
  {phase phase' : BlobPhase} {tmp : JsString} {i : ℕ} {e : BlobEvent}

/-- What a call knows stays true when the blobs stay and no temporary file of its own is touched, or
its blob is there. -/
theorem BlobPhase.Holds.keep (h : phase.Holds store image s)
    (hblob : (s.files (store.target image.bytes)).isSome →
      (s'.files (store.target image.bytes)).isSome)
    (hmoving : ∀ tmp, phase = .moving tmp → s'.files tmp = s.files tmp)
    (hunlinking : ∀ tmp, phase = .unlinking tmp → s'.files tmp = none → s.files tmp = none ∨
      (s'.files (store.target image.bytes)).isSome) : phase.Holds store image s' := by
  cases phase with
  | idle => trivial
  | making => trivial
  | writing tmp => exact h
  | moving tmp => exact ⟨h.1, (hmoving tmp rfl).trans h.2⟩
  | unlinking tmp =>
    refine ⟨h.1, fun hnone => ?_⟩
    rcases hunlinking tmp rfl hnone with hbefore | hthere
    · exact hblob (h.2 hbefore)
    · exact hthere
  | rechecking => exact hblob h
  | stored metadata => exact ⟨h.1, hblob h.2⟩
  | lost => exact h

/-- What the call of an image knows. -/
theorem Orderly.holds_put (h : Orderly store phases s)
    (hi : phases[i]? = some (.put image, phase)) : phase.Holds store image s := by
  obtain ⟨image', heq, hholds⟩ := h.holds i _ phase hi
  obtain rfl := BlobEvent.put.inj heq
  exact hholds

/-- A call that goes on and leaves the files as they are. -/
theorem Orderly.set (h : Orderly store phases s) (hi : phases[i]? = some (.put image, phase))
    (hphase : ∀ tmp, phase ≠ .moving tmp) (hphase' : ∀ tmp, phase' ≠ .moving tmp)
    (hholds : phase'.Holds store image s) : Orderly store (phases.set i (.put image, phase')) s := by
  refine ⟨h.target, fun a now hfile => ?_, fun j k e e' tmp hj hk => ?_, fun j e ph hj => ?_⟩
  · obtain ⟨j, e, hj⟩ := h.tmp a now hfile
    refine ⟨j, e, ?_⟩
    rw [List.getElem?_set_ne]
    · exact hj
    · rintro rfl
      rw [hi, Option.some.injEq, Prod.mk.injEq] at hj
      exact hphase _ hj.2
  · rcases getElem?_set_cases hj with ⟨-, heq⟩ | ⟨-, hj⟩
    · exact absurd (Prod.mk.inj heq).2.symm (hphase' tmp)
    · rcases getElem?_set_cases hk with ⟨-, heq⟩ | ⟨-, hk⟩
      · exact absurd (Prod.mk.inj heq).2.symm (hphase' tmp)
      · exact h.unique j k e e' tmp hj hk
  · rcases getElem?_set_cases hj with ⟨-, heq⟩ | ⟨-, hj⟩
    · obtain ⟨rfl, rfl⟩ := Prod.mk.inj heq
      exact ⟨image, rfl, hholds⟩
    · exact h.holds j e ph hj

/-- **A temporary file is written.** -/
theorem Orderly.write (h : Orderly store phases s)
    (hi : phases[i]? = some (.put image, .writing tmp)) (hfree : s.files tmp = none) :
    Orderly store (phases.set i (.put image, .moving tmp))
      { s with files := Function.update s.files tmp (some image.bytes) } := by
  obtain ⟨now, htmp⟩ := h.holds_put hi
  have hself : (phases.set i (.put image, .moving tmp))[i]? = some (.put image, .moving tmp) :=
    List.getElem?_set_self (List.getElem?_eq_some_iff.mp hi).1
  have htarget : ∀ a, Function.update s.files tmp (some image.bytes) (store.target a) =
      s.files (store.target a) := by
    intro a
    apply Function.update_of_ne
    rw [htmp]
    exact fun heq => FileBlobStore.tmp_ne_target heq.symm
  have hfresh : ∀ (j : ℕ) (e : BlobEvent), phases[j]? ≠ some (e, .moving tmp) := by
    intro j e hj
    obtain ⟨image', -, -, hfile⟩ := h.holds j e _ hj
    rw [hfree] at hfile
    cases hfile
  refine ⟨fun a b hb => h.target a b ((htarget a).symm.trans hb), fun a now' hfile => ?_,
    fun j k e e' tmp' hj hk => ?_, fun j e ph hj => ?_⟩
  · by_cases heq : store.tmp (store.target a) now' = tmp
    · rw [heq]
      exact ⟨i, _, hself⟩
    · dsimp only at hfile
      rw [Function.update_of_ne heq] at hfile
      obtain ⟨j, e, hj⟩ := h.tmp a now' hfile
      refine ⟨j, e, ?_⟩
      rw [List.getElem?_set_ne]
      · exact hj
      · rintro rfl
        rw [hi] at hj
        cases hj
  · rcases getElem?_set_cases hj with ⟨rfl, heq⟩ | ⟨-, hj⟩
    · obtain rfl := BlobPhase.moving.inj (Prod.mk.inj heq).2
      rcases getElem?_set_cases hk with ⟨hk, -⟩ | ⟨-, hk⟩
      · exact hk
      · exact absurd hk (hfresh k e')
    · rcases getElem?_set_cases hk with ⟨-, heq⟩ | ⟨-, hk⟩
      · rw [BlobPhase.moving.inj (Prod.mk.inj heq).2] at hj
        exact absurd hj (hfresh j e)
      · exact h.unique j k e e' tmp' hj hk
  · rcases getElem?_set_cases hj with ⟨-, heq⟩ | ⟨-, hj⟩
    · obtain ⟨rfl, rfl⟩ := Prod.mk.inj heq
      exact ⟨image, rfl, ⟨now, htmp⟩, Function.update_self ..⟩
    · obtain ⟨image', rfl, hholds⟩ := h.holds j e ph hj
      refine ⟨image', rfl, hholds.keep ?_ ?_ ?_⟩
      · dsimp only
        rw [htarget]
        exact id
      · rintro tmp' rfl
        apply Function.update_of_ne
        intro heq
        rw [heq] at hj
        exact hfresh j _ hj
      · rintro tmp' rfl hnone
        left
        by_cases heq : tmp' = tmp
        · rw [heq]
          exact hfree
        · exact (Function.update_of_ne heq ..).symm.trans hnone

/-- **A temporary file is renamed.** -/
theorem Orderly.rename (h : Orderly store phases s)
    (hi : phases[i]? = some (.put image, .moving tmp)) :
    Orderly store (phases.set i (.put image, .stored image.metadata))
      { s with files := Function.update (Function.update s.files tmp none)
                 (store.target image.bytes) (some image.bytes) } := by
  obtain ⟨⟨now, htmp⟩, hfile⟩ := h.holds_put hi
  have hthere : (Function.update (Function.update s.files tmp none) (store.target image.bytes)
      (some image.bytes) (store.target image.bytes)).isSome := by
    rw [Function.update_self]
    rfl
  have hother : ∀ path, path ≠ tmp → path ≠ store.target image.bytes →
      Function.update (Function.update s.files tmp none) (store.target image.bytes)
        (some image.bytes) path = s.files path := by
    intro path hpath hpath'
    rw [Function.update_of_ne hpath', Function.update_of_ne hpath]
  have htarget : ∀ a, store.target a ≠ tmp := by
    intro a
    rw [htmp]
    exact fun heq => FileBlobStore.tmp_ne_target heq.symm
  have htmps : ∀ a now', store.tmp (store.target a) now' ≠ store.target image.bytes :=
    fun a now' => FileBlobStore.tmp_ne_target
  refine ⟨fun a b hb => ?_, fun a now' hsome => ?_, fun j k e e' tmp' hj hk => ?_,
    fun j e ph hj => ?_⟩
  · dsimp only at hb
    by_cases heq : store.target a = store.target image.bytes
    · rw [heq, Function.update_self, Option.some.injEq] at hb
      rw [← hb]
      exact (FileBlobStore.sha256_eq_of_target heq).symm
    · rw [hother _ (htarget a) heq] at hb
      exact h.target a b hb
  · dsimp only at hsome
    have hne : store.tmp (store.target a) now' ≠ tmp := by
      intro heq
      have hne := htmps a now'
      rw [heq] at hsome hne
      rw [Function.update_of_ne hne, Function.update_self] at hsome
      cases hsome
    rw [hother _ hne (htmps a now')] at hsome
    obtain ⟨j, e, hj⟩ := h.tmp a now' hsome
    refine ⟨j, e, ?_⟩
    rw [List.getElem?_set_ne]
    · exact hj
    · rintro rfl
      rw [hi, Option.some.injEq, Prod.mk.injEq] at hj
      exact hne (BlobPhase.moving.inj hj.2).symm
  · rcases getElem?_set_cases hj with ⟨-, heq⟩ | ⟨-, hj⟩
    · cases heq
    · rcases getElem?_set_cases hk with ⟨-, heq⟩ | ⟨-, hk⟩
      · cases heq
      · exact h.unique j k e e' tmp' hj hk
  · rcases getElem?_set_cases hj with ⟨-, heq⟩ | ⟨hij, hj⟩
    · obtain ⟨rfl, rfl⟩ := Prod.mk.inj heq
      exact ⟨image, rfl, rfl, hthere⟩
    · obtain ⟨image', rfl, hholds⟩ := h.holds j e ph hj
      have hblob : (s.files (store.target image'.bytes)).isSome →
          (Function.update (Function.update s.files tmp none) (store.target image.bytes)
            (some image.bytes) (store.target image'.bytes)).isSome := by
        intro hsome
        by_cases heq : store.target image'.bytes = store.target image.bytes
        · rw [heq]
          exact hthere
        · rw [hother _ (htarget _) heq]
          exact hsome
      refine ⟨image', rfl, hholds.keep hblob ?_ ?_⟩
      · rintro tmp' rfl
        obtain ⟨⟨now', htmp'⟩, -⟩ := hholds
        apply hother
        · rintro rfl
          exact hij (h.unique i j _ _ _ hi hj)
        · rw [htmp']
          exact htmps _ _
      · rintro tmp' rfl hnone
        obtain ⟨⟨now', htmp'⟩, -⟩ := hholds
        by_cases heq : tmp' = tmp
        · right
          rw [htmp', htmp] at heq
          rw [FileBlobStore.target_eq_of_tmp heq]
          exact hthere
        · left
          dsimp only at hnone
          rw [hother _ heq] at hnone
          · exact hnone
          · rw [htmp']
            exact htmps _ _

/-- **What every operation keeps**, where no call that cleans up finds a file to remove. -/
theorem Orderly.step (h : Orderly store phases s) {point : BlobPoint} {update : Disk → Disk}
    (hi : phases[i]? = some (.put image, phase))
    (hop : BlobOp store image phase point update s phase')
    (hspares : ∀ tmp, point = .unlink tmp → s.files tmp = none) :
    Orderly store (phases.set i (.put image, phase')) (update s) := by
  have hholds := h.holds_put hi
  cases hop with
  | found hphase hsame hfile =>
    rw [hsame]
    refine h.set hi ?_ (by simp) ⟨rfl, hfile⟩
    rintro tmp rfl
    simp at hphase
  | absent hsame =>
    rw [hsame]
    exact h.set hi (by simp) (by simp) trivial
  | mkdir hsame =>
    rw [hsame]
    exact h.set hi (by simp) (by simp) ⟨s.clock, rfl⟩
  | write hfree hupdate =>
    rw [hupdate]
    exact h.write hi hfree
  | taken hsame hfile =>
    rw [hsame]
    refine h.set hi (by simp) (by simp) ⟨hholds, fun hnone => ?_⟩
    rw [hnone] at hfile
    cases hfile
  | rename hfile hupdate =>
    obtain rfl := Option.some.inj (hholds.2.symm.trans hfile)
    rw [hupdate]
    exact h.rename hi
  | gone hsame hnone =>
    rw [hholds.2] at hnone
    cases hnone
  | @unlink tmp _ _ hupdate =>
    have hnone := hspares tmp rfl
    have hsame : s.unlink tmp = s := by
      unfold Disk.unlink
      rw [← hnone, Function.update_eq_self]
    rw [hupdate, hsame]
    exact h.set hi (by simp) (by simp) (hholds.2 hnone)
  | lost hsame hnone =>
    change (s.files (store.target image.bytes)).isSome at hholds
    rw [hnone] at hholds
    cases hholds

/-- A new call. -/
theorem Orderly.spawn (h : Orderly store phases s) :
    Orderly store (phases ++ [(.put image, .idle)]) s := by
  refine ⟨h.target, fun a now hfile => ?_, fun j k e e' tmp hj hk => ?_, fun j e ph hj => ?_⟩
  · obtain ⟨j, e, hj⟩ := h.tmp a now hfile
    exact ⟨j, e, (List.getElem?_append_left (List.getElem?_eq_some_iff.mp hj).1).trans hj⟩
  · rcases getElem?_concat_cases hj with hj | heq
    · rcases getElem?_concat_cases hk with hk | heq
      · exact h.unique j k e e' tmp hj hk
      · cases heq
    · cases heq
  · rcases getElem?_concat_cases hj with hj | heq
    · exact h.holds j e ph hj
    · obtain ⟨rfl, rfl⟩ := Prod.mk.inj heq
      exact ⟨image, rfl, trivial⟩

/-- The clock is not looked at. -/
theorem Orderly.tick (h : Orderly store phases s) (now : TimeValue) :
    Orderly store phases { s with clock := now } :=
  ⟨h.target, h.tmp, h.unique, fun i e phase hi => by
    obtain ⟨image, he, hholds⟩ := h.holds i e phase hi
    exact ⟨image, he, hholds.keep id (fun _ _ => rfl) fun _ _ hnone => .inl hnone⟩⟩

end

/-! ## Every run -/

namespace BlobServer

/-- No call that cleans up finds a file to remove. -/
def Spares (server : BlobServer) : BlobEvent → Prop
  | .put _ => True
  | .resume i => ∀ tmp, server.Waits i (.unlink tmp) → server.shared.files tmp = none
  | .tick _ => True

variable {store : FileBlobStore} {disk : Disk} {events : List BlobEvent}

/-- **What every run keeps**, where no call that cleans up finds a file to remove. -/
theorem run_orderly (hdisk : disk.Clean store)
    (hspares : ∀ past e later, events = past ++ e :: later → ((start disk).run store past).Spares e) :
    ∃ phases, ((start disk).run store events).Follows (fun _ => True)
        (Task.Tagged (BlobEvent.Op store)) (fun p => BlobAnswered p.2) phases ∧
      phases.map Prod.fst = calls (BlobEvent.toAsync store) events ∧
      Orderly store phases ((start disk).run store events).shared := by
  refine Pool.run_calls .idle (I := fun _ => True)
    (J := fun _ phases s => Orderly store phases s) ?_ (fun _ _ _ _ => trivial) ?_ ?_ ?_ ?_ events ?_
  · intro e t ht
    cases e with
    | put image =>
      obtain rfl := Event.spawn.inj ht
      exact follows_put
    | resume i => cases ht
    | tick now => cases ht
  · refine ⟨hdisk.target, fun a now hfile => ?_, fun i j e e' tmp hi _ => ?_, fun i e ph hi => ?_⟩
    · rw [hdisk.tmp] at hfile
      cases hfile
    · cases hi
    · cases hi
  · intro past phases e t s he h
    cases e with
    | put image => exact h.spawn
    | resume i => cases he
    | tick now => cases he
  · exact fun _ _ _ _ _ _ h => h
  · intro past phases e update s he h
    cases e with
    | put image => cases he
    | resume i => cases he
    | tick now =>
      obtain rfl := Event.other.inj he
      exact h.tick now
  · intro past e later i call phases phase phase' point update next hevents he ht _ hi hQ h
    obtain ⟨image, rfl, -⟩ := h.holds i call phase hi
    refine h.step hi hQ fun tmp hpoint => ?_
    have hspare := hspares past e later hevents
    cases e with
    | put image => cases he
    | tick now => cases he
    | resume j =>
      obtain rfl := Event.resume.inj he
      exact hspare tmp ⟨_, ht, congrArg some hpoint⟩

end BlobServer

/-- **Blobs that are put at the same time are stored**, as long as no call that cleans up finds a file
to remove: every call that is resumed six times has returned, and what it has returned is the address
of its bytes, which are in the file of that address. -/
theorem blobs_put (store : FileBlobStore) (disk : Disk) (events : List BlobEvent)
    (hdisk : disk.Clean store)
    (hspares : ∀ past e later, events = past ++ e :: later →
      ((BlobServer.start disk).run store past).Spares e) :
    let server := (BlobServer.start disk).run store events
    (∀ (past later : List BlobEvent) (i : ℕ), events = past ++ later →
        i < (calls (BlobEvent.toAsync store) past).length →
        6 ≤ (later.countP fun e => (BlobEvent.toAsync store e).resumes i) →
        ∃ r, server.tasks[i]? = some (.done r)) ∧
      ∀ (i : ℕ) (image : Image) (r : Except JsError BlobMetadata),
        (calls (BlobEvent.toAsync store) events)[i]? = some (.put image) →
        server.tasks[i]? = some (.done r) →
        r = .ok ⟨computeAddress image.bytes, image.bytes.length, image.format⟩ ∧
          ∃ bytes, server.shared.files (store.pathFor (computeAddress image.bytes)) = some bytes ∧
            (bytes = image.bytes ∨ CollisionIn sha256 [bytes, image.bytes]) := by
  intro server
  constructor
  · intro past later i hevents hi hcount
    have hwithin : ((BlobServer.start disk).run store past).Within i 6 := by
      refine Pool.within_runBy (fun e t ht => ?_) hi
      cases e with
      | put image =>
        obtain rfl := Event.spawn.inj ht
        exact within_put image.bytes
      | resume i => cases ht
      | tick now => cases ht
    have hrun : server = ((BlobServer.start disk).run store past).runBy (BlobEvent.toAsync store)
        later := by
      unfold server BlobServer.run Pool.runBy
      rw [hevents, List.foldl_append]
    rw [hrun]
    exact Pool.exists_done_runBy hwithin hcount
  · intro i image r hcall hr
    obtain ⟨phases, hfollows, hcalls, horderly⟩ := BlobServer.run_orderly hdisk hspares
    obtain ⟨⟨e, phase⟩, hi, hanswered⟩ := hfollows.getElem? hr
    obtain rfl : e = .put image := by
      rw [← hcalls, List.getElem?_map, hi] at hcall
      exact Option.some.inj hcall
    have hholds := horderly.holds_put hi
    rcases hanswered with ⟨metadata, rfl, rfl⟩ | rfl
    · obtain ⟨rfl, hthere⟩ := hholds
      obtain ⟨bytes, hbytes⟩ := Option.isSome_iff_exists.mp hthere
      refine ⟨rfl, bytes, hbytes, ?_⟩
      by_cases heq : bytes = image.bytes
      · exact .inl heq
      · exact .inr ⟨bytes, by simp, image.bytes, by simp, heq, horderly.target _ _ hbytes⟩
    · exact hholds.elim

/-! ## Two calls in one millisecond -/

section examples

/-- The signature of a PNG. -/
def signature : Image := ⟨[0x89, 0x50, 0x4e, 0x47, 0x0d, 0x0a, 0x1a, 0x0a], .png, rfl⟩

/-- A store. -/
def blobStore : FileBlobStore := ⟨js "/blobs/", 7⟩

/-- An empty disk. -/
def emptyDisk : Disk := ⟨fun _ => none, ⟨0, TimeValue.zero_inRange⟩⟩

/-- The same bytes are put twice. The first call has written its temporary file when the second one
fails to, and removes it. -/
def twoPuts : List BlobEvent :=
  [.put signature, .put signature, .resume 0, .resume 1, .resume 0, .resume 1, .resume 0, .resume 1,
    .resume 1, .resume 0, .resume 0, .resume 0, .resume 1]

/-- An empty disk is clean. -/
theorem clean_emptyDisk : emptyDisk.Clean blobStore where
  target _ _ h := by cases h
  tmp _ _ := rfl

/-- The file of the two calls. -/
def sharedTarget : JsString := blobStore.target signature.bytes

/-- The temporary file of the two calls. -/
def sharedTmp : JsString := blobStore.tmp sharedTarget emptyDisk.clock

/-- The disk with the temporary file. -/
def tmpDisk : Disk :=
  { emptyDisk with files := Function.update emptyDisk.files sharedTmp (some signature.bytes) }

/-- A call that could not write the blob looks again. -/
def recheck (message : JsString) : Task Disk BlobPoint (Except JsError BlobMetadata) := do
  if ← blobStore.has (computeAddress signature.bytes) then return .ok signature.metadata
  return .error (blobError (js "Could not store blob " ++ computeAddress signature.bytes ++ js ": " ++
    message))

/-- A call that has written its temporary file, or not. -/
def cleanUp (tmp : JsString) :
    Except JsString Unit → Task Disk BlobPoint (Except JsError BlobMetadata)
  | .ok () => return .ok signature.metadata
  | .error message => do
    Task.await (.unlink tmp) fun s => ((), s.unlink tmp)
    recheck message

/-- A call that writes its temporary file. -/
def writeSignature (tmp : JsString) : Task Disk BlobPoint (Except JsError BlobMetadata) :=
  FileBlobStore.write tmp sharedTarget signature.bytes >>= cleanUp tmp

/-- A call that renames its temporary file. -/
def renameSignature : Task Disk BlobPoint (Except JsError BlobMetadata) :=
  Task.await (.rename sharedTmp sharedTarget) (Disk.rename sharedTmp sharedTarget) >>= cleanUp sharedTmp

/-- A call that makes the directory. -/
def mkdirSignature : Task Disk BlobPoint (Except JsError BlobMetadata) :=
  Task.await .mkdir (fun s => (blobStore.tmp sharedTarget s.clock, s)) >>= writeSignature

/-- A call finds no blob. -/
theorem resume_put : (blobStore.put signature.bytes).resume emptyDisk = (mkdirSignature, emptyDisk) := by
  unfold FileBlobStore.put
  rw [signature.detected]
  dsimp only
  rw [FileBlobStore.has_computeAddress]
  refine Prod.ext ?_ rfl
  refine congrArg (Task.await BlobPoint.mkdir (fun s : Disk => (blobStore.tmp sharedTarget s.clock, s))
    >>= ·) (funext fun tmp => ?_)
  refine congrArg (FileBlobStore.write tmp sharedTarget signature.bytes >>= ·) (funext fun r => ?_)
  cases r with
  | ok u => rfl
  | error message =>
    unfold cleanUp recheck
    rw [FileBlobStore.has_computeAddress]
    rfl

/-- The second call does not write it. -/
theorem resume_write_taken : ∃ message, (writeSignature sharedTmp).resume tmpDisk =
    (cleanUp sharedTmp (.error message), tmpDisk) := by
  have htaken : (tmpDisk.files sharedTmp).isSome = true := by
    change (Function.update emptyDisk.files sharedTmp (some signature.bytes) sharedTmp).isSome = true
    rw [Function.update_self]
    rfl
  unfold writeSignature FileBlobStore.write
  rw [Task.bind_assoc, Task.resume_await_bind]
  unfold Disk.writeFile
  rw [if_pos htaken]
  exact ⟨_, rfl⟩

/-- The first call removes nothing. -/
theorem resume_cleanUp_empty (message : JsString) :
    (cleanUp sharedTmp (.error message)).resume emptyDisk = (recheck message, emptyDisk) := by
  have hunlink : emptyDisk.unlink sharedTmp = emptyDisk :=
    congrArg (Disk.mk · emptyDisk.clock) (Function.update_eq_self sharedTmp emptyDisk.files)
  unfold cleanUp
  rw [Task.resume_await_bind, hunlink]

/-- The second call removes the file of the first. -/
theorem resume_cleanUp (message : JsString) :
    (cleanUp sharedTmp (.error message)).resume tmpDisk = (recheck message, emptyDisk) := by
  have hunlink : tmpDisk.unlink sharedTmp = emptyDisk.unlink sharedTmp := by
    change Disk.mk (Function.update (Function.update emptyDisk.files sharedTmp _) sharedTmp none) _ = _
    rw [Function.update_idem]
    rfl
  unfold cleanUp
  rw [Task.resume_await_bind, hunlink]
  exact resume_cleanUp_empty message

/-- No call finds the blob. -/
theorem resume_recheck (message : JsString) :
    ∃ e, (recheck message).resume emptyDisk = (.done (.error e), emptyDisk) := by
  unfold recheck
  rw [FileBlobStore.has_computeAddress]
  exact ⟨_, rfl⟩

section

variable {s s' : Disk} {ts : List (Task Disk BlobPoint (Except JsError BlobMetadata))}
  {t t' : Task Disk BlobPoint (Except JsError BlobMetadata)} {i : ℕ} {events : List BlobEvent}

/-- A run that begins with a call that goes on. -/
theorem run_resume (hi : ts[i]? = some t) (ht : t.resume s = (t', s')) :
    BlobServer.run blobStore ⟨s, ts⟩ (.resume i :: events) =
      BlobServer.run blobStore ⟨s', ts.set i t'⟩ events :=
  congrArg (BlobServer.run blobStore · events) (Pool.step_resume_of hi ht)

/-- A call that goes on and removes nothing. -/
theorem spares_resume (h : ∀ tmp, t.point ≠ some (.unlink tmp)) :
    BlobServer.Spares ⟨s, [t]⟩ (.resume 0) := by
  rintro tmp ⟨t', ht', hpoint⟩
  obtain rfl := Option.some.inj ht'
  exact absurd hpoint (h tmp)

end

/-- One image is put. -/
def onePut : List BlobEvent := [.put signature, .resume 0, .resume 0, .resume 0, .resume 0]

/-- The call has made the directory. -/
theorem run_made :
    BlobServer.run blobStore (.start emptyDisk) [.put signature, .resume 0, .resume 0] =
      ⟨emptyDisk, [writeSignature sharedTmp]⟩ :=
  (run_resume rfl resume_put).trans
    (@run_resume _ emptyDisk _ _ (writeSignature sharedTmp) _ _ rfl rfl)

/-- The call has written its temporary file. -/
theorem run_written :
    BlobServer.run blobStore (.start emptyDisk) [.put signature, .resume 0, .resume 0, .resume 0] =
      ⟨tmpDisk, [renameSignature]⟩ :=
  congrArg (BlobServer.run blobStore · [.resume 0]) run_made

/-- One call meets no other. -/
theorem spares_onePut : ∀ past e later, onePut = past ++ e :: later →
    ((BlobServer.start emptyDisk).run blobStore past).Spares e := by
  have hfound := @run_resume _ _ [blobStore.put signature.bytes] _ _ 0 [] rfl resume_put
  refine forall_steps_cons trivial (forall_steps_cons ?_ (forall_steps_cons ?_ (forall_steps_cons ?_
    (forall_steps_cons ?_ ?_))))
  · apply spares_resume
    unfold FileBlobStore.put
    rw [signature.detected]
    dsimp only
    rw [FileBlobStore.has_computeAddress]
    rintro tmp ⟨⟩
  · change BlobServer.Spares (BlobServer.run blobStore
      ⟨emptyDisk, [blobStore.put signature.bytes]⟩ [.resume 0]) _
    rw [hfound]
    apply spares_resume
    rintro tmp ⟨⟩
  · rw [run_made]
    apply spares_resume
    rintro tmp ⟨⟩
  · rw [run_written]
    apply spares_resume
    rintro tmp ⟨⟩
  · intro past e later h
    cases past <;> cases h

/-- One image that is put. -/
theorem blobs_put_one :
    let server := (BlobServer.start emptyDisk).run blobStore onePut
    server.tasks[0]? = some (.done (.ok ⟨computeAddress signature.bytes, 8, .png⟩)) ∧
      ∃ bytes, server.shared.files (blobStore.pathFor (computeAddress signature.bytes)) = some bytes ∧
        (bytes = signature.bytes ∨ CollisionIn sha256 [bytes, signature.bytes]) := by
  intro server
  have hrename : ∃ s, renameSignature.resume tmpDisk = (.done (.ok signature.metadata), s) := by
    have hfile : tmpDisk.files sharedTmp = some signature.bytes :=
      Function.update_self sharedTmp _ emptyDisk.files
    unfold renameSignature
    rw [Task.resume_await_bind]
    unfold Disk.rename
    rw [hfile]
    exact ⟨_, rfl⟩
  obtain ⟨s, hrename⟩ := hrename
  have hserver : server = ⟨s, [.done (.ok signature.metadata)]⟩ :=
    (congrArg (BlobServer.run blobStore · [.resume 0]) run_written).trans (run_resume rfl hrename)
  have hdone : server.tasks[0]? = some (.done (.ok signature.metadata)) := by rw [hserver]; rfl
  have h := (blobs_put blobStore emptyDisk onePut clean_emptyDisk spares_onePut).2 0 signature _ rfl
    hdone
  exact ⟨hdone, h.2⟩

/-- **Nothing is stored**, and both calls are refused. -/
theorem blob_lost : let server := (BlobServer.start emptyDisk).run blobStore twoPuts
    (∃ e, server.tasks[0]? = some (.done (.error e))) ∧
      (∃ e, server.tasks[1]? = some (.done (.error e))) ∧
      server.shared.files (blobStore.target signature.bytes) = none := by
  obtain ⟨taken, htaken⟩ := resume_write_taken
  obtain ⟨gone, hgone⟩ : ∃ message,
      renameSignature.resume emptyDisk = (cleanUp sharedTmp (.error message), emptyDisk) := ⟨_, rfl⟩
  obtain ⟨e, he⟩ := resume_recheck gone
  obtain ⟨e', he'⟩ := resume_recheck taken
  have hrun : (BlobServer.start emptyDisk).run blobStore twoPuts =
      ⟨emptyDisk, [.done (.error e), .done (.error e')]⟩ := by
    change BlobServer.run blobStore ⟨emptyDisk, [blobStore.put signature.bytes,
      blobStore.put signature.bytes]⟩ (twoPuts.drop 2) = _
    refine (run_resume rfl resume_put).trans ((run_resume rfl resume_put).trans ?_)
    -- both directories are made in one millisecond
    refine (@run_resume _ emptyDisk _ _ (writeSignature sharedTmp) _ _ rfl rfl).trans ?_
    refine (@run_resume _ emptyDisk _ _ (writeSignature sharedTmp) _ _ rfl rfl).trans ?_
    refine (@run_resume _ tmpDisk _ _ renameSignature _ _ rfl rfl).trans ?_
    refine (run_resume rfl htaken).trans ((run_resume rfl (resume_cleanUp taken)).trans ?_)
    refine (run_resume rfl hgone).trans ((run_resume rfl (resume_cleanUp_empty gone)).trans ?_)
    exact (run_resume rfl he).trans ((run_resume rfl he').trans rfl)
  rw [hrun]
  exact ⟨⟨e, rfl⟩, ⟨e', rfl⟩, rfl⟩

end examples

end AgentEval.Trajectories
