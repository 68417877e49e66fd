import Mathlib.Tactic
import WaSSH.Lib.FileMap

/-!
# Requests of the file browser

What a caller asks of the file worker, what the worker answers, and how the panel describes the
request it is waiting for.

* `SftpRequest`, `SftpOutcome`, `SftpProgress`: the worker's side;
* `FileJob`, `QueuedTransfer`, `TransferRow`: the panel's side;
* `format_size`: the size in the status line of a finished transfer.
-/

namespace WaSSH.Files

open FileMap

/-! ## The worker's side -/

/-- A request to the file worker. -/
inductive SftpRequest
  | list (path : String)
  | real_path (path : String)
  | download (remote loc : String) (resume : Bool)
  | upload (loc remote : String) (resume : Bool)
  | write (path : String) (content : Bytes)
  | mkdir (path : String)
  | rename (src dst : String)
  | remove (path : String) (is_dir : Bool)
  | chmod (path : String) (mode : ℕ)
  | read (path : String) (max_bytes : ℕ)
  | upload_many (items : List (String × String)) (resume : Bool)
  | download_many (items : List (String × String)) (resume : Bool)
  | download_tree (items : List String) (dir : String)
  | copy_many (items : List (String × String)) (scratch : String) (move_items : Bool)
  deriving DecidableEq, Repr

/-- One entry of a listing. -/
structure SftpEntry where
  name : String
  path : String
  is_dir : Bool
  is_link : Bool
  size : ℕ
  modified : Option ℕ
  permissions : Option ℕ
  deriving DecidableEq, Repr

/-- What a request produced. -/
inductive SftpOutcome
  | listed (entries : List SftpEntry)
  | transferred (bytes : ℕ)
  | done
  | real_path (path : String)
  | content (data : Bytes) (truncated : Bool)
  deriving DecidableEq, Repr

/-- Kind of work a progress report is about. -/
inductive SftpProgressPhase
  | transfer
  | scanning
  | packing
  | writing
  deriving DecidableEq, Repr

/-- How far a request has got. -/
structure SftpProgress where
  done : ℕ
  total : Option ℕ
  phase : SftpProgressPhase
  items : Option ℕ
  deriving DecidableEq, Repr

/-- What `try_recv` finds on a channel. -/
inductive TryRecv (α : Type)
  | ok (a : α)
  | empty
  | disconnected
  deriving DecidableEq, Repr

/-! ## The panel's side -/

/-- Which way a transfer goes. -/
inductive TransferDirection
  | upload
  | download
  | zip
  | copy
  deriving DecidableEq, Repr

/-- What the request in flight is for. -/
inductive FileJob
  | transfer (done : String)
  | action (done : String)
  | resolve
  | read (path : String) (max_bytes : ℕ)
  | zip (dir archive : String)
  deriving DecidableEq, Repr

/-- Number of a request, counting the accepted ones. It stands for the channel the request is
answered on; the code keeps no such number. -/
abbrev Ticket := ℕ

/-- One transfer waiting its turn. -/
structure QueuedTransfer where
  ticket : Ticket
  request : SftpRequest
  direction : TransferDirection
  path : String
  done : String
  deriving DecidableEq, Repr

/-- A row kept for a failed transfer. -/
structure TransferRow where
  direction : TransferDirection
  path : String
  done : ℕ
  total : Option ℕ
  progress_text : Option String
  deriving DecidableEq, Repr

/-! ## Sizes -/

/-- The nearest multiple of `2 ^ k`, ties to the even one. -/
def round_half_even (n k : ℕ) : ℕ :=
  let q := n / 2 ^ k
  let r := n % 2 ^ k
  if 2 * r < 2 ^ k ∨ (2 * r = 2 ^ k ∧ q % 2 = 0) then q else q + 1

/-- `bytes as f64`: 53 significant bits. -/
def to_f64 (bytes : ℕ) : ℕ :=
  let k := bytes.log2 + 1 - 53
  round_half_even bytes k * 2 ^ k

/-- Names of the units. -/
def UNITS : List String := ["B", "KB", "MB", "GB", "TB"]

/-- The unit a size ends in. Dividing by 1024 is exact, so the loop compares with powers of it. -/
def size_unit (size : ℕ) : ℕ := min (size.log2 / 10) (UNITS.length - 1)

/-- Size as the panel shows it. -/
def format_size (bytes : ℕ) : String :=
  let unit := size_unit (to_f64 bytes)
  if unit = 0 then s!"{bytes} B"
  else
    let tenths := round_half_even (to_f64 bytes * 10) (10 * unit)
    let suffix := UNITS.getD unit ""
    s!"{tenths / 10}.{tenths % 10} {suffix}"

example : format_size 1023 = "1023 B" ∧ format_size 1536 = "1.5 KB" := by decide

end WaSSH.Files
