import WaSSH.Lib.Text
import WaSSH.Files.Request

/-!
# The file panel of a session

A session's file panel has a queue of transfers, one slot for the request in flight and the results
the pane shows. A request accepted from a caller gets the next `Ticket`; the model writes down, next
to the source's fields, which descriptions were accepted and which answers were taken.

* `RemoteFiles`, `Session`: the state;
* `poll`, `poll_pack`, `finish_pack`, `finish_cancelled`: collecting answers;
* `adopt_job`, `enqueue_transfer_with_done`, `start_next_transfer`, `start_file_action`,
  `start_zip`: starting work;
* the methods of `SftpAccess`, and `step` over all of them.
-/

namespace WaSSH.Files

open FileMap

/-- The transports of a session. -/
inductive Backend
  | local_pty
  | ssh
  | telnet
  | serial
  | closed
  deriving DecidableEq, Repr

/-- Listing shown by the pane. -/
structure SftpListing where
  path : String
  entries : List SftpEntry
  deriving DecidableEq, Repr

/-- Prefix of a file, and whether it was cut. -/
structure FileContent where
  data : Bytes
  truncated : Bool
  deriving DecidableEq, Repr

/-- File-browsing state of one session. -/
structure RemoteFiles where
  listing_pending : Option String := none
  listing_error : Option String := none
  pending : Option Ticket := none
  job : Option FileJob := none
  requested : Option String := none
  listing : Option SftpListing := none
  listing_revision : ℕ := 0
  error : Option String := none
  status : Option String := none
  resolved : Option String := none
  content : Option (String × ℕ × FileContent) := none
  pack : Option (Ticket × String × String) := none
  progress : Option Ticket := none
  moved : Option SftpProgress := none
  stop : Option Ticket := none
  stop_requested : Bool := false
  queue : List QueuedTransfer := []
  active : Option (TransferDirection × String) := none
  failed : List TransferRow := []
  retryable : Option (SftpRequest × TransferDirection × String) := none
  request : Option SftpRequest := none
  /-- Descriptions of the accepted requests, in order. -/
  accepted : List FileJob := []
  /-- Answers taken, each with the description it was applied with. -/
  answered : List (Ticket × Option FileJob) := []
  deriving DecidableEq, Repr

def FAILED_TRANSFERS : ℕ := 6

def FILES_TRANSPORT_ERROR : String := "Files are available for SSH and Local sessions"

/-- What the channels hold when a frame polls: the listing, the progress reports, the request in
flight, the archive being packed, and the reports that arrive with its answer. -/
structure Answers where
  listing : TryRecv (Except String SftpOutcome) := .empty
  progress : List SftpProgress := []
  answer : TryRecv (Except String SftpOutcome) := .empty
  pack : TryRecv (Except String String) := .empty
  late_progress : List SftpProgress := []

namespace RemoteFiles

variable (f : RemoteFiles)

def forget_content : RemoteFiles := { f with content := none }

/-- The answer for `ticket` was taken and applied with the description `job`. -/
def log (ticket : Ticket) (job : Option FileJob) : RemoteFiles :=
  { f with answered := f.answered ++ [(ticket, job)] }

/-! ## Collecting answers -/

def poll_listing (answer : TryRecv (Except String SftpOutcome)) : RemoteFiles :=
  match f.listing_pending with
  | none => f
  | some path =>
    match answer with
    | .ok (.ok (.listed entries)) =>
      { f with
        listing_pending := none
        listing := some ⟨path, entries⟩
        listing_revision := (f.listing_revision + 1) % 2 ^ 64
        requested := some path
        listing_error := none }
    | .ok (.ok _) =>
      { f with
        listing_pending := none
        listing_error := some "the listing request returned an unexpected result" }
    | .ok (.error error) => { f with listing_pending := none, listing_error := some error }
    | .empty => f
    | .disconnected =>
      { f with
        listing_pending := none
        listing_error := some "the listing ended without a response" }

/-- Collect what the progress channel last reported. -/
def take_progress (values : List SftpProgress) : RemoteFiles :=
  match f.progress with
  | none => f
  | some _ => { f with moved := values.getLast?.or f.moved }

def scan_progress_text : Option String :=
  f.moved.bind fun progress =>
    if progress.phase = .scanning then progress.items.map fun items => s!"{items} items inspected"
    else none

/-- Remember how a transfer ended, keeping the last few rows. -/
def record : RemoteFiles :=
  match f.active with
  | none => f
  | some (direction, path) =>
    let row : TransferRow :=
      { direction, path
        done := (f.moved.map (·.done)).getD 0
        total := f.moved.bind (·.total)
        progress_text := f.scan_progress_text }
    let rows := f.failed ++ [row]
    { f with failed := rows.drop (rows.length - FAILED_TRANSFERS) }

/-- Close the archive's row and its bar, keeping a row when it failed. -/
def finish_pack (failure : Option String) : RemoteFiles :=
  let f := if failure.isSome then f.record else f
  { f with
    active := none, progress := none, moved := none, stop := none, stop_requested := false
    job := none, request := none, error := failure }

def finish_cancelled : RemoteFiles :=
  let direction := f.active.map Prod.fst
  { f.finish_pack none with
    status := some <|
      match direction with
      | some .upload => "Upload stopped"
      | some .download => "Download stopped"
      | some .zip => "ZIP download stopped"
      | some .copy => "Copy stopped"
      | none => "Transfer stopped" }

/-- Take the answer of the thread packing an archive. -/
def poll_pack (ticket : Ticket) (dir archive : String) (a : Answers) : RemoteFiles :=
  let f := f.take_progress a.late_progress
  match a.pack with
  | .empty => f
  | .ok (.ok saved) =>
    let f := { f with pack := none }.log ticket (some (.zip dir archive))
    { f.finish_pack none with status := some saved }
  | .ok (.error reason) =>
    let f := { f with pack := none }.log ticket (some (.zip dir archive))
    if f.stop_requested then f.finish_cancelled else f.finish_pack (some reason)
  | .disconnected =>
    let f := { f with pack := none }.log ticket (some (.zip dir archive))
    if f.stop_requested then f.finish_cancelled
    else f.finish_pack (some "the archive was not written")

/-- A successful answer. The tree of an archive goes on to be packed; every other request is over. -/
def apply_outcome (ticket : Ticket) (outcome : SftpOutcome) : Option String × RemoteFiles :=
  let job := f.job
  let f := { f with job := none, error := none }
  match outcome, job with
  | .transferred _, some (.zip dir archive) =>
    (none, { f with pack := some (ticket, dir, archive), progress := some ticket, moved := none })
  | .real_path path, job => (none, { f with resolved := some path }.log ticket job)
  | .content data truncated, some (.read path max_bytes) =>
    (none, { f with content := some (path, max_bytes, ⟨data, truncated⟩) }.log ticket job)
  | .done, job =>
    let status := match job with
      | some (.action done) => some done
      | _ => f.status
    (f.requested, { f with status }.forget_content.log ticket job)
  | .transferred bytes, job =>
    let done := match job with
      | some (.transfer done) | some (.action done) => done
      | _ => "Transfer finished"
    (f.requested,
      { f with
        status := some s!"{done} ({format_size bytes})"
        active := none, stop := none, stop_requested := false
        request := none }.forget_content.log ticket job)
  | _, job => (none, f.log ticket job)

/-- A failed answer. -/
def apply_error (ticket : Ticket) (error : String) : RemoteFiles :=
  let job := f.job
  let f := { f with error := some error }
  let f :=
    if f.active.isSome then
      let f := f.record
      let f := match job, f.request, f.failed.getLast? with
        | some (.transfer _), some request, some failed =>
          { f with retryable := some (request, failed.direction, failed.path) }
        | _, _, _ => f
      { f with active := none }
    else f
  { f.forget_content with
    request := none, job := none, stop := none, stop_requested := false }.log ticket job

/-- Whether an answer counts as finished although a stop was requested. -/
def completed_before_stop (answer : TryRecv (Except String SftpOutcome)) : Bool :=
  match answer, f.job with
  | .ok (.ok _), some (.zip _ _) => false
  | .ok (.ok _), _ => true
  | _, _ => false

/-- Take the answer of the request in flight. -/
def poll_pending (ticket : Ticket) (answer : TryRecv (Except String SftpOutcome)) :
    Option String × RemoteFiles :=
  if answer = .empty then (none, f)
  else
    let f := { f with pending := none, progress := none, moved := none }
    if f.stop_requested && !f.completed_before_stop answer then
      (none, (f.log ticket f.job).finish_cancelled)
    else match answer with
      | .ok (.ok outcome) => f.apply_outcome ticket outcome
      | .ok (.error error) => (none, f.apply_error ticket error)
      | .empty => (none, f)
      | .disconnected =>
        (none, { f.log ticket f.job with
          error := some "the file operation ended without a response"
          job := none })

/-- Take the answer of a finished request; the directory to list again when a transfer landed. -/
def poll (a : Answers) : Option String × RemoteFiles :=
  let f := f.take_progress a.progress
  match f.pack, f.pending with
  | some (ticket, dir, archive), _ => (none, f.poll_pack ticket dir archive a)
  | none, none => (none, f)
  | none, some ticket => f.poll_pending ticket a.answer

end RemoteFiles

/-- A session, as far as its files go. -/
structure Session where
  backend : Backend
  files : RemoteFiles := {}
  deriving DecidableEq, Repr

namespace Session

variable (s : Session)

/-! ## Starting work -/

/-- Whether this session has a filesystem to browse; `file_job` starts a job exactly then. -/
def can_browse_files : Bool :=
  match s.backend with
  | .ssh | .local_pty => true
  | _ => false

/-- Take the slot for a started job. -/
def adopt_job (ticket : Ticket) : Session :=
  { s with files := { s.files with
      pending := some ticket, progress := some ticket, stop := some ticket
      moved := none, stop_requested := false } }

/-- Note that a request was accepted; its ticket is the number of those before it. -/
def accept (job : FileJob) : Session :=
  { s with files := { s.files with accepted := s.files.accepted ++ [job] } }

def report_problem (message : String) : Session :=
  { s with files := { s.files with error := some message } }

/-- Start the next queued transfer, if nothing is running. -/
def start_next_transfer : Session :=
  if s.files.pending.isSome || s.files.pack.isSome then s
  else match s.files.queue with
    | [] => s
    | next :: queue =>
      let s := { s with files := { s.files with queue } }
      if s.can_browse_files then
        let s := s.adopt_job next.ticket
        { s with files := { s.files with
            request := some next.request
            active := some (next.direction, next.path)
            job := some (.transfer next.done)
            error := none } }
      else s

def enqueue_transfer_with_done (request : SftpRequest) (direction : TransferDirection)
    (path done : String) : Session :=
  if s.can_browse_files then
    let next : QueuedTransfer := ⟨s.files.accepted.length, request, direction, path, done⟩
    let s := s.accept (.transfer done)
    let s := { s with files := { s.files with
      queue := s.files.queue ++ [next], status := none, content := none } }
    s.start_next_transfer
  else s.report_problem FILES_TRANSPORT_ERROR

def enqueue_transfer (request : SftpRequest) (direction : TransferDirection) (path : String) :
    Session :=
  s.enqueue_transfer_with_done request direction path path

/-- Fetch a tree and pack it, instead of reloading the listing afterwards. The request itself plays
no part here: it goes to the worker. -/
def start_zip (_request : SftpRequest) (dir archive : String) : Session :=
  if s.can_browse_files then
    let s := (s.adopt_job s.files.accepted.length).accept (.zip dir archive)
    { s with files := { s.files with
        active := some (.zip, archive), job := some (.zip dir archive)
        error := none, status := none } }
  else s.report_problem FILES_TRANSPORT_ERROR

/-- Run a change on the browsed filesystem, reloading the listing after it. -/
def start_file_action (_request : SftpRequest) (done : String) : Session :=
  if s.can_browse_files then
    let s := (s.adopt_job s.files.accepted.length).accept (.action done)
    { s with files := { s.files with job := some (.action done), content := none } }
  else s.report_problem FILES_TRANSPORT_ERROR

def start_file_request (path : String) : Session :=
  if s.can_browse_files then
    { s with files := { s.files with
        listing_pending := some path, requested := some path, listing_error := none } }
  else s.report_problem FILES_TRANSPORT_ERROR

/-- Handle one file-request cycle. -/
def poll_files (a : Answers) : Session :=
  let (landed, files) := (s.files.poll_listing a.listing).poll a
  let s := { s with files }.start_next_transfer
  match landed with
  | none => s
  | some path =>
    if s.files.pending.isNone && s.files.listing_pending ≠ some path then s.start_file_request path
    else { s with files := { s.files with requested := some path } }

/-! ## The methods of `SftpAccess` -/

def request_listing (path : String) : Session :=
  if s.files.requested = some path then s else s.start_file_request path

def refresh (path : String) : Session :=
  { s with files := { s.files with requested := none }.forget_content }.start_file_request path

/-- `str::trim`. -/
def trim (t : String) : String := String.ofList (Text.trim t.toList)

def upload (loc remote : String) : Session :=
  if trim loc = "" then s.report_problem "Type the path of a local file to upload."
  else s.enqueue_transfer (.upload (trim loc) remote false) .upload remote

def write_file (remote : String) (content : Bytes) : Session :=
  s.enqueue_transfer (.write remote content) .upload remote

def download (remote loc : String) : Session :=
  if trim loc = "" then s.report_problem "Type where the download should land."
  else s.enqueue_transfer (.download remote (trim loc) false) .download remote

def is_transferring : Bool :=
  if !s.files.queue.isEmpty || s.files.pack.isSome then true
  else s.files.pending.isSome &&
    match s.files.job with
    | some (.transfer _) | some (.action _) | some (.zip _ _) => true
    | _ => false

def transfer_status : Option String := s.files.status

/-- `resolve`; on this machine the answer is `home` for the login directory and `canonical`
otherwise. -/
def resolve (path home : String) (canonical : Except String String) : Option String × Session :=
  match s.files.resolved with
  | some resolved => (some resolved, s)
  | none =>
    if s.files.pending.isSome then (none, s)
    else if s.backend = .local_pty then
      match if path = "." then .ok home else canonical with
      | .ok resolved => (some resolved, { s with files := { s.files with resolved := some resolved } })
      | .error error => (none, s.report_problem error)
    else if s.can_browse_files then
      let s := (s.adopt_job s.files.accepted.length).accept .resolve
      (none, { s with files := { s.files with job := some .resolve } })
    else (none, s.report_problem FILES_TRANSPORT_ERROR)

def mkdir (path : String) : Session := s.start_file_action (.mkdir path) s!"Created {path}"

def rename (src dst : String) : Session :=
  s.start_file_action (.rename src dst) s!"Renamed to {dst}"

def remove (path : String) (is_dir : Bool) : Session :=
  s.start_file_action (.remove path is_dir) s!"Deleted {path}"

/-- `{mode:03o}`. -/
def octal (mode : ℕ) : String :=
  let digits := Nat.toDigits 8 mode
  String.ofList (List.replicate (3 - digits.length) '0' ++ digits)

def chmod (path : String) (mode : ℕ) : Session :=
  s.start_file_action (.chmod path mode) s!"Mode {octal mode} on {path}"

def read (path : String) (max_bytes : ℕ) : Option FileContent × Session :=
  match s.files.content.filter fun c => c.1 = path ∧ max_bytes ≤ c.2.1 with
  | some (_, _, content) => (some content, s)
  | none =>
    if s.files.pending.isSome || s.files.pack.isSome then (none, s)
    else if s.can_browse_files then
      let s := (s.adopt_job s.files.accepted.length).accept (.read path max_bytes)
      (none, { s with files := { s.files with job := some (.read path max_bytes) } })
    else (none, s)

def upload_many (items : List (String × String)) : Session :=
  items.foldl (fun s (loc, remote) =>
    s.enqueue_transfer (.upload loc remote false) .upload remote) s

def download_many (items : List (String × String)) : Session :=
  items.foldl (fun s (remote, loc) =>
    s.enqueue_transfer (.download remote loc false) .download remote) s

def stop_transfer : Session :=
  if s.files.active.isSome && s.files.stop.isSome then
    { s with files := { s.files with stop_requested := true } }
  else s

/-- Continue where it stopped instead of starting over. -/
def resumed : SftpRequest → SftpRequest
  | .upload loc remote _ => .upload loc remote true
  | .download remote loc _ => .download remote loc true
  | .upload_many items _ => .upload_many items true
  | .download_many items _ => .download_many items true
  | request => request

def retry : Session :=
  match s.files.retryable with
  | none => s
  | some (request, direction, path) =>
    { s with files := { s.files with retryable := none } }.enqueue_transfer
      (resumed request) direction path

def download_tree (items : List String) (dir : String) : Session :=
  s.enqueue_transfer (.download_tree items dir) .download dir

def download_zip (temp_dir : String) (items : List String) (archive : String) : Session :=
  let dir := s!"{temp_dir}/wassh-zip-{items.length}"
  s.start_zip (.download_tree items dir) dir archive

def copy_many (temp_dir : String) (items : List (String × String)) (move_items : Bool) : Session :=
  let count := items.length
  s.enqueue_transfer_with_done
    (.copy_many items s!"{temp_dir}/wassh-copy-{count}.tmp" move_items) .copy
    (if move_items then s!"Moving {count} item(s)" else s!"Copying {count} item(s)")
    (if move_items then s!"Moved {count} item(s)" else s!"Copied {count} item(s)")

end Session

/-! ## Steps -/

/-- What may happen to a session's files: a method of `SftpAccess`, a frame that polls, or a change
of transport. -/
inductive Step
  | request_listing (path : String)
  | refresh (path : String)
  | upload (loc remote : String)
  | write_file (remote : String) (content : Bytes)
  | download (remote loc : String)
  | upload_many (items : List (String × String))
  | download_many (items : List (String × String))
  | download_tree (items : List String) (dir : String)
  | copy_many (temp_dir : String) (items : List (String × String)) (move_items : Bool)
  | retry
  | mkdir (path : String)
  | rename (src dst : String)
  | remove (path : String) (is_dir : Bool)
  | chmod (path : String) (mode : ℕ)
  | download_zip (temp_dir : String) (items : List String) (archive : String)
  | resolve (path home : String) (canonical : Except String String)
  | read (path : String) (max_bytes : ℕ)
  | report_problem (message : String)
  | stop_transfer
  | poll_files (a : Answers)
  | transport (backend : Backend)

/-- The session after one step. -/
def step (s : Session) : Step → Session
  | .request_listing path => s.request_listing path
  | .refresh path => s.refresh path
  | .upload loc remote => s.upload loc remote
  | .write_file remote content => s.write_file remote content
  | .download remote loc => s.download remote loc
  | .upload_many items => s.upload_many items
  | .download_many items => s.download_many items
  | .download_tree items dir => s.download_tree items dir
  | .copy_many temp_dir items move_items => s.copy_many temp_dir items move_items
  | .retry => s.retry
  | .mkdir path => s.mkdir path
  | .rename src dst => s.rename src dst
  | .remove path is_dir => s.remove path is_dir
  | .chmod path mode => s.chmod path mode
  | .download_zip temp_dir items archive => s.download_zip temp_dir items archive
  | .resolve path home canonical => (s.resolve path home canonical).2
  | .read path max_bytes => (s.read path max_bytes).2
  | .report_problem message => s.report_problem message
  | .stop_transfer => s.stop_transfer
  | .poll_files a => s.poll_files a
  | .transport backend => { s with backend }

end WaSSH.Files
