import Mathlib.Data.List.Basic

namespace Yeah.Backup

/-- Where a backup can be: a file on a server, or an object in the bucket of an S3 storage. -/
inductive Place
  | file (serverId path : String)
  | object (storageId key : String)
  deriving DecidableEq

def denote (serverId : String) (s3StorageId : Option String) (filePath : String) : Place :=
  match s3StorageId with
  | none => .file serverId filePath
  | some storage => .object storage filePath

@[simp] theorem denote_none (server path : String) : denote server none path = .file server path := rfl

@[simp] theorem denote_some (server storage path : String) :
    denote server (some storage) path = .object storage path := rfl

/-- Where the file of a row is looked for, given the storages there are: nowhere
without a recorded file, and nowhere when its storage is gone. -/
def access (storages : List String) (serverId : String) (s3StorageId filePath : Option String) :
    Option Place :=
  filePath.bind fun f =>
    match s3StorageId with
    | none => some (denote serverId none f)
    | some storage => if storage ∈ storages then some (denote serverId (some storage) f) else none

theorem access_eq_some {storages : List String} {server : String} {s3StorageId filePath : Option String}
    {p : Place} (h : access storages server s3StorageId filePath = some p) :
    ∃ f, filePath = some f ∧ p = denote server s3StorageId f := by
  obtain ⟨f, hf, hp⟩ := Option.bind_eq_some_iff.mp h
  refine ⟨f, hf, ?_⟩
  cases s3StorageId with
  | none => exact (Option.some.inj hp).symm
  | some storage =>
      dsimp only at hp
      split_ifs at hp
      exact (Option.some.inj hp).symm

end Yeah.Backup
