import WaSSH.Files.Request

/-!
# Copying files

One block loop moves every byte of a source file to a target. A Local tab copies in place; over SFTP
a file goes down to a scratch file on this machine and back up. Copies do not continue what is
there; transfers that do are the subject of `Resume`.

* `copy`, `stream`: the loop, and the file transfer around it;
* `copy_file`, `download`, `upload` and the two implementations of `CopyMany`.
-/

namespace WaSSH.Files

open FileMap

/-! ## The block loop -/

/-- One turn of the loop: whether a stop is noticed, how many bytes beyond the first a read may
return (`none` when it fails), and after how many bytes the write fails, if it does. -/
structure Block where
  stopped : Bool
  read : Option ℕ
  write : Option ℕ

/-- Which side of a transfer failed. `unfinished` is the model's: the loop ran out of fuel. -/
inductive TransferError
  | read (error : IoError)
  | write (error : IoError)
  | stopped
  | unfinished
  deriving DecidableEq, Repr

section Loop

variable {P : Type} [DecidableEq P]

/-- Stream every byte of `src` from `pos` on into `dst`, returning the count. -/
def copy (blocks : ℕ → Block) (flush : Bool) (src dst : P) :
    (fuel turn pos bytes : ℕ) → FsM P TransferError ℕ
  | 0, _, _, _ => throw .unfinished
  | fuel + 1, turn, pos, bytes => do
    if (blocks turn).stopped then throw .stopped
    else match (blocks turn).read with
      | none => throw (.read .denied)
      | some more => do
        let block := ((((← get) src).getD []).drop pos).take (more + 1)
        if block = [] then do
          map_err .write (pass flush)
          pure bytes
        else do
          map_err .write (write_all (blocks turn).write dst block)
          copy blocks flush src dst fuel (turn + 1) (pos + block.length) (bytes + block.length)

end Loop

/-! ## One file -/

/-- Why a copy failed. -/
inductive CopyError (P : Type)
  | stopped
  | opening (file : P) (error : IoError)
  | reading (file : P) (error : IoError)
  | creating (file : P) (error : IoError)
  | writing (file : P) (error : IoError)
  | moving (src dst : P) (error : IoError)
  | unfinished
  deriving DecidableEq, Repr

/-- Which steps of one transfer succeed. -/
structure CopyFaults where
  stopped : Bool
  open_source : Bool
  create_dir_all : Bool
  open_target : Bool
  blocks : ℕ → Block
  flush : Bool

section OneFile

variable {P : Type} [DecidableEq P]

def CopyError.of_transfer (src dst : P) : TransferError → CopyError P
  | .read error => .reading src error
  | .write error => .writing dst error
  | .stopped => .stopped
  | .unfinished => .unfinished

def size_of (fs : Fs P) (p : P) : ℕ := ((fs p).getD []).length

/-- A transfer from the start: open the source, make the target's directory, create the target and
run the loop. -/
def stream (opening : IoError → CopyError P) (f : CopyFaults) (src dst : P) :
    FsM P (CopyError P) ℕ := do
  map_err opening (open_file f.open_source src)
  map_err (.creating dst) (pass f.create_dir_all)
  map_err (.writing dst) (create f.open_target dst)
  let fs ← get
  map_err (.of_transfer src dst)
    (copy f.blocks f.flush src dst (size_of fs src + 1) 0 0 0)

/-- Nobody asks this transfer to stop. -/
def CopyFaults.unstoppable (f : CopyFaults) : CopyFaults :=
  { f with blocks := fun i => { f.blocks i with stopped := false } }

/-- Copy one file on this machine. -/
def copy_file (f : CopyFaults) (source target : P) : FsM P (CopyError P) ℕ :=
  if f.stopped then throw .stopped else stream (.reading source) f source target

/-- Fetch a remote file. -/
def download (f : CopyFaults) (remote loc : P) : FsM P (CopyError P) ℕ :=
  stream (.opening remote) f.unstoppable remote loc

/-- Send a local file; the remote directory must exist already. -/
def upload (f : CopyFaults) (loc remote : P) : FsM P (CopyError P) ℕ :=
  stream (.reading loc) { f.unstoppable with create_dir_all := true } loc remote

end OneFile

/-! ## `CopyMany` -/

/-- What one pair of a `CopyMany` meets. -/
structure PairFaults where
  stopped : Bool
  first : CopyFaults
  second : CopyFaults
  rename : Bool

section CopyMany

variable {File : Type} [DecidableEq File] (resolve : String → File) (faults : ℕ → PairFaults)

/-- On this machine: each pair is copied in place, in order. `resolve` is the file a path text
denotes. -/
def copy_many_local (move_items : Bool) :
    (items : List (String × String)) → (turn bytes : ℕ) → FsM File (CopyError File) SftpOutcome
  | [], _, bytes => pure (.transferred bytes)
  | (src, dst) :: items, turn, bytes => do
    let f := faults turn
    if f.stopped then throw .stopped
    else if move_items then do
      map_err (.moving (resolve src) (resolve dst)) (rename f.rename (resolve src) (resolve dst))
      copy_many_local move_items items (turn + 1) bytes
    else do
      let moved ← copy_file f.first (resolve src) (resolve dst)
      copy_many_local move_items items (turn + 1) (bytes + moved)

/-- The files of the host, and the scratch file on this machine. -/
abbrev WithScratch (File : Type) := File ⊕ Unit

/-- The scratch file. -/
def scratch : WithScratch File := .inr ()

/-- The pairs of an SFTP `CopyMany`: down to the scratch file, then up. -/
def copy_pairs_sftp (move_items : Bool) :
    (items : List (String × String)) → (turn bytes : ℕ) →
      FsM (WithScratch File) (CopyError (WithScratch File)) ℕ
  | [], _, bytes => pure bytes
  | (src, dst) :: items, turn, bytes => do
    let f := faults turn
    if move_items then do
      map_err (.moving (.inl (resolve src)) (.inl (resolve dst)))
        (rename f.rename (.inl (resolve src)) (.inl (resolve dst)))
      copy_pairs_sftp move_items items (turn + 1) bytes
    else do
      let moved ← download f.first (.inl (resolve src)) scratch
      let _ ← upload f.second scratch (.inl (resolve dst))
      copy_pairs_sftp move_items items (turn + 1) (bytes + moved)

/-- Over SFTP. -/
def copy_many_sftp (move_items remove_scratch : Bool) (items : List (String × String)) :
    FsM (WithScratch File) (CopyError (WithScratch File)) SftpOutcome := do
  let bytes ← copy_pairs_sftp resolve faults move_items items 0 0
  let _ ← attempt (remove_file remove_scratch scratch)
  pure (.transferred bytes)

end CopyMany

end WaSSH.Files
