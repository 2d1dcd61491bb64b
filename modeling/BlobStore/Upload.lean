import BlobStore.Storage

/-!
# Uploads

A save whose content arrives piece by piece while other requests are answered. It ends when the
content does, or before that if the storage or the content fails; then it keeps its result.

## Main definitions

* `Upload`: a save that waits for its content, or its result
* `Upload.start`, `Upload.feed`, `Upload.finish`, `Upload.cancel`: the life of an upload
-/

namespace BlobStore

/-- How far an upload has come. -/
inductive UploadStage
  | receiving (draft : Draft)
  | ended (result : Except StorageError Unit)

/-- A save whose content comes piece by piece. -/
structure Upload where
  key : Key
  /-- The size that was declared. -/
  size : Option Nat
  stage : UploadStage

namespace Upload

variable {σ : Type}

/-- A new upload; it ends at once if the storage refuses it before the first piece. -/
def start (S : Storage σ) (key : Key) (size : Option Nat) (now : Time) (s : σ) :
    List Event × Upload × σ :=
  let (reply, s) := S.intake.start key size now s
  match reply.result with
  | .ok draft => (reply.events, ⟨key, size, .receiving draft⟩, s)
  | .error e => (reply.events, ⟨key, size, .ended (.error e)⟩, s)

/-- One piece more; a failure ends the upload. -/
def feed (u : Upload) (S : Storage σ) (piece : Item) (now : Time) (s : σ) :
    List Event × Upload × σ :=
  match u.stage, piece with
  | .ended _, _ => ([], u, s)
  | .receiving draft, .chunk bytes =>
    let (draft, s) := S.intake.append draft bytes now s
    ([], { u with stage := .receiving draft }, s)
  | .receiving draft, .failure cause =>
    let (reply, s) := S.intake.fail u.key u.size draft cause now s
    (reply.events, { u with stage := .ended reply.result }, s)

/-- The end of the content, and the result of the save. -/
def finish (u : Upload) (S : Storage σ) (now : Time) (s : σ) : Reply Unit × σ :=
  match u.stage with
  | .ended result => (⟨result, []⟩, s)
  | .receiving draft => S.intake.finish u.key u.size draft now s

/-- The upload given up, if it has not ended. -/
def cancel (u : Upload) (S : Storage σ) (s : σ) : List Event × σ :=
  match u.stage with
  | .ended _ => ([], s)
  | .receiving draft => S.intake.abandon draft s

/-- Whether the save has ended. -/
def ended (u : Upload) : Bool :=
  match u.stage with
  | .ended _ => true
  | .receiving _ => false

end Upload

end BlobStore
