import AgentEval.Async.Runs
import AgentEval.Evidence.Manifest
import AgentEval.Js.Date
import Mathlib.Logic.Function.Basic

/-!
# `trajectories/blob-store.ts`: blobs under their content address

A screenshot is stored in a file that is named by the SHA-256 of its bytes. `put` looks whether that
file exists, writes the bytes to a temporary file that no other call has, and renames it; where that
fails it removes the temporary file and looks again. Each file operation waits.

* `isContentAddress_computeAddress`: what is computed is an address.
* **`get_of_stored`**: an image that is in the file of its address is read back.
-/

namespace AgentEval.Trajectories

open Js Sha256 Async Evidence

/-! ## Images -/

/-- Source: `blob-store.ts`, `ImageFormat` -/
inductive ImageFormat where
  /-- `image/webp` -/
  | webp
  /-- `image/avif` -/
  | avif
  /-- `image/png` -/
  | png
  deriving DecidableEq

/-- `buf.toString('ascii', start, end)`, which drops the highest bit of each octet. -/
def ascii (bytes : Bytes) (start stop : ℕ) : JsString :=
  ((bytes.take stop).drop start).map fun b => (b &&& 0x7f).toUInt16

/-- The format by the first octets.
Source: `blob-store.ts`, `detectFormat` -/
def detectFormat (bytes : Bytes) : Option ImageFormat :=
  if 8 ≤ bytes.length ∧ bytes[0]? = some 0x89 ∧ bytes[1]? = some 0x50 ∧ bytes[2]? = some 0x4e ∧
      bytes[3]? = some 0x47 then some .png
  else if 12 ≤ bytes.length ∧ ascii bytes 0 4 = js "RIFF" ∧ ascii bytes 8 12 = js "WEBP" then
    some .webp
  else if 12 ≤ bytes.length ∧ ascii bytes 4 8 = js "ftyp" ∧
      (ascii bytes 8 12 = js "avif" ∨ ascii bytes 8 12 = js "avis") then some .avif
  else none

/-- Octets that begin as an image does. -/
structure Image where
  /-- The octets. -/
  bytes : Bytes
  /-- The format. -/
  format : ImageFormat
  detected : detectFormat bytes = some format

/-! ## Addresses -/

/-- Source: `blob-store.ts`, `computeAddress` -/
def computeAddress (bytes : Bytes) : JsString := js "sha256:" ++ toHex (sha256 bytes).bytes

/-- Source: `blob-store.ts`, `isContentAddress` -/
def isContentAddress (value : JsString) : Bool := isSha256Digest value

/-- What is computed is an address. -/
theorem isContentAddress_computeAddress (bytes : Bytes) :
    isContentAddress (computeAddress bytes) = true := by
  unfold isContentAddress isSha256Digest computeAddress
  have hlength : (js "sha256:").length = 7 := rfl
  rw [← hlength, List.take_left, List.drop_left, isHex64_toHex, decide_eq_true rfl]
  rfl

/-- The address determines the digest. -/
theorem sha256_eq_of_computeAddress {a b : Bytes} (h : computeAddress a = computeAddress b) :
    sha256 a = sha256 b := by
  unfold computeAddress at h
  exact Digest.ext (toHex_injective (List.append_cancel_left h))

/-- Source: `blob-store.ts`, `BlobMetadata` -/
structure BlobMetadata where
  /-- The address. -/
  address : JsString
  /-- The length. -/
  bytes : ℕ
  /-- The format. -/
  format : ImageFormat
  deriving DecidableEq

/-- What is answered about an image that is stored. -/
def Image.metadata (image : Image) : BlobMetadata :=
  ⟨computeAddress image.bytes, image.bytes.length, image.format⟩

/-- Source: `blob-store.ts`, `BlobError` -/
def blobError (message : JsString) : JsError := ⟨js "BlobError", message⟩

/-! ## The file system -/

/-- The files by their paths, and the clock. The directories are made before they are used and are
never removed, so they are not looked at. -/
structure Disk where
  /-- What is in the file at a path. -/
  files : JsString → Option Bytes
  /-- What `Date.now()` reads. -/
  clock : TimeValue

/-- Where a call waits. -/
inductive BlobPoint where
  | stat (path : JsString)
  | mkdir
  | writeFile (path : JsString) (bytes : Bytes)
  | rename (oldPath newPath : JsString)
  | unlink (path : JsString)
  | readFile (path : JsString)
  deriving DecidableEq

namespace Disk

/-- `(await stat(path)).isFile()`, false where it throws. -/
def isFile (path : JsString) (s : Disk) : Bool := (s.files path).isSome

/-- `writeFile(path, bytes, { flag: 'wx' })`, or the message of what it throws. -/
def writeFile (path : JsString) (bytes : Bytes) (s : Disk) : Except JsString Unit × Disk :=
  if (s.files path).isSome then
    (.error (js "EEXIST: file already exists, open '" ++ path ++ js "'"), s)
  else (.ok (), { s with files := Function.update s.files path (some bytes) })

/-- `rename(oldPath, newPath)`, or the message of what it throws. -/
def rename (oldPath newPath : JsString) (s : Disk) : Except JsString Unit × Disk :=
  match s.files oldPath with
  | none => (.error (js "ENOENT: no such file or directory, rename '" ++ oldPath ++ js "' -> '" ++
      newPath ++ js "'"), s)
  | some bytes => (.ok (), { s with
      files := Function.update (Function.update s.files oldPath none) newPath (some bytes) })

/-- `unlink(path).catch(() => undefined)`. -/
def unlink (path : JsString) (s : Disk) : Disk :=
  { s with files := Function.update s.files path none }

end Disk

/-! ## The store -/

/-- A store on the disk, in a process.
Source: `blob-store.ts`, `FileBlobStore` -/
structure FileBlobStore where
  /-- The directory as `resolve` has it, with the separator at its end. -/
  root : JsString
  /-- `process.pid` -/
  pid : ℕ

namespace FileBlobStore

variable (store : FileBlobStore)

/-- Source: `blob-store.ts`, `FileBlobStore.pathFor` -/
def pathFor (address : JsString) : JsString :=
  store.root ++ ((address.drop 7).take 2 ++ js "/" ++ address.drop 7)

/-- Source: `blob-store.ts`, `FileBlobStore.has` -/
def has (address : JsString) : Task Disk BlobPoint Bool :=
  if isContentAddress address then
    Task.await (.stat (store.pathFor address)) fun s => (s.isFile (store.pathFor address), s)
  else pure false

/-- The name of the temporary file.
Source: `blob-store.ts`, `FileBlobStore.put` -/
def tmp (target : JsString) (now : TimeValue) : JsString :=
  target ++ (js "." ++ (Number.ofNat store.pid).toString ++ js "." ++ (Number.ofInt now.ms).toString ++
    js ".tmp")

/-- The temporary file is written, and renamed.
Source: `blob-store.ts`, `FileBlobStore.put` -/
def write (tmp target : JsString) (bytes : Bytes) : Task Disk BlobPoint (Except JsString Unit) := do
  match ← Task.await (.writeFile tmp bytes) (Disk.writeFile tmp bytes) with
  | .error message => return .error message
  | .ok () => Task.await (.rename tmp target) (Disk.rename tmp target)

/-- Source: `blob-store.ts`, `FileBlobStore.put` -/
def put (bytes : Bytes) : Task Disk BlobPoint (Except JsError BlobMetadata) :=
  match detectFormat bytes with
  | none => return .error (blobError (js "Unrecognized image format. Screenshots must be WebP, " ++
      js "AVIF or PNG; the format is detected from the file header, not from a caller-supplied " ++
      js "label."))
  | some format => do
    let address := computeAddress bytes
    let target := store.pathFor address
    if ← store.has address then return .ok ⟨address, bytes.length, format⟩
    let tmp ← Task.await .mkdir fun s => (store.tmp target s.clock, s)
    match ← write tmp target bytes with
    | .ok () => return .ok ⟨address, bytes.length, format⟩
    | .error message =>
      Task.await (.unlink tmp) fun s => ((), s.unlink tmp)
      if ← store.has address then return .ok ⟨address, bytes.length, format⟩
      return .error (blobError (js "Could not store blob " ++ address ++ js ": " ++ message))

/-- Source: `blob-store.ts`, `FileBlobStore.get` -/
def get (address : JsString) :
    Task Disk BlobPoint (Except JsError (Option (Bytes × ImageFormat))) := do
  if !isContentAddress address then
    return .error (blobError (js "Not a content address: " ++ address))
  match ← Task.await (.readFile (store.pathFor address)) fun s =>
    (s.files (store.pathFor address), s) with
  | none => return .ok none
  | some bytes =>
    if computeAddress bytes ≠ address then
      return .error (blobError (js "Blob integrity failure: " ++ address ++
        js " contains bytes hashing to " ++ computeAddress bytes ++
        js ". The store has been corrupted or tampered with."))
    match detectFormat bytes with
    | none =>
      return .error (blobError (js "Stored blob " ++ address ++ js " is not a recognized image."))
    | some format => return .ok (some (bytes, format))

section

variable {store}

/-- Looking for a blob. -/
theorem has_computeAddress (bytes : Bytes) : store.has (computeAddress bytes) =
    Task.await (.stat (store.pathFor (computeAddress bytes))) fun s =>
      (s.isFile (store.pathFor (computeAddress bytes)), s) := by
  unfold has
  rw [if_pos (isContentAddress_computeAddress bytes)]

/-- Bytes that are no image are refused before anything is looked at. -/
theorem put_of_detectFormat {bytes : Bytes} (h : detectFormat bytes = none) :
    ∃ e, store.put bytes = .done (.error e) := by
  unfold put
  rw [h]
  exact ⟨_, rfl⟩

/-- **An image that is in the file of its address is read back.** -/
theorem get_of_stored {image : Image} {s : Disk}
    (h : s.files (store.pathFor (computeAddress image.bytes)) = some image.bytes) :
    (store.get (computeAddress image.bytes)).resume s =
      (.done (.ok (some (image.bytes, image.format))), s) := by
  have haddress : ¬ (!isContentAddress (computeAddress image.bytes)) = true := by
    rw [isContentAddress_computeAddress]
    exact Bool.false_ne_true
  unfold get
  rw [if_neg haddress, Task.resume_await_bind, h]
  dsimp only
  rw [if_neg (not_not.mpr rfl), image.detected]
  rfl

end

end FileBlobStore

end AgentEval.Trajectories
