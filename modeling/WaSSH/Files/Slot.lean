import WaSSH.Lib.Run
import WaSSH.Files.Ledger
import WaSSH.Files.Panel

/-!
# Where every accepted request is

The panel of a session, seen as a ledger.

* `poll_ledger`, `start_next_transfer_ledger`, `poll_files_ledger` and their siblings: what each
  operation of the panel does to the ledger;
* `Safe`: what a step must not do;
* **`step_accounted_iff`**: a step keeps the balance exactly when it is safe;
* **`run_accounted_iff`**: every state of a run is balanced exactly when all its steps are safe.
-/

namespace WaSSH.Files

/-! ## The panel on the ledger -/

namespace RemoteFiles

def ledger (f : RemoteFiles) : Ledger :=
  ⟨f.accepted, f.answered, f.pack, f.pending, f.job, f.queue.map fun q => (q.ticket, q.done)⟩

variable (f : RemoteFiles)

@[simp] theorem poll_listing_ledger (answer : TryRecv (Except String SftpOutcome)) :
    (f.poll_listing answer).ledger = f.ledger := by
  unfold poll_listing
  split
  · rfl
  · split <;> rfl

@[simp] theorem take_progress_ledger (values : List SftpProgress) :
    (f.take_progress values).ledger = f.ledger := by
  unfold take_progress
  split <;> rfl

@[simp] theorem record_ledger : f.record.ledger = f.ledger := by
  unfold record
  split <;> rfl

theorem finish_pack_ledger (failure : Option String) :
    (f.finish_pack failure).ledger = { f.ledger with job := none } := by
  cases failure with
  | none => rfl
  | some reason =>
    rw [← f.record_ledger]
    rfl

/-- The tree of an archive has landed and nobody asked to stop. -/
def tree_landed (answer : TryRecv (Except String SftpOutcome)) : Bool :=
  match answer, f.job with
  | .ok (.ok (.transferred _)), some (.zip _ _) => !f.stop_requested
  | _, _ => false

/-- What a poll takes, given what the channels hold. -/
def taken (a : Answers) : Taken :=
  if f.pack.isSome then
    if a.pack = .empty then .nothing else .pack
  else if f.pending.isSome ∧ a.answer ≠ .empty then
    if f.tree_landed a.answer then .tree else .answer
  else .nothing

theorem poll_pack_ledger {ticket : Ticket} {dir archive : String}
    (hp : f.pack = some (ticket, dir, archive)) (a : Answers) :
    (f.poll_pack ticket dir archive a).ledger =
      f.ledger.take (if a.pack = .empty then .nothing else .pack) := by
  have hl := f.take_progress_ledger a.late_progress
  unfold poll_pack
  generalize f.take_progress a.late_progress = g at hl ⊢
  have hlog : ({ { g with pack := none }.log ticket (some (.zip dir archive)) with
      job := none } : RemoteFiles).ledger = f.ledger.take .pack := by
    have hg : f.ledger.pack = some (ticket, dir, archive) := hp
    rw [Ledger.take, Ledger.take_pack, hg, ← hl]
    rfl
  rcases ha : a.pack with (reason | saved) | _ | _
  · rw [if_neg (by simp), ← hlog]
    dsimp only
    split_ifs
    · rfl
    · exact finish_pack_ledger _ _
  · rw [if_neg (by simp), ← hlog]
    rfl
  · rw [if_pos rfl]
    exact hl
  · rw [if_neg (by simp), ← hlog]
    dsimp only
    split_ifs
    · rfl
    · exact finish_pack_ledger _ _

theorem apply_error_ledger (ticket : Ticket) (error : String) :
    (f.apply_error ticket error).ledger =
      { f.ledger with job := none, answered := f.answered ++ [(ticket, f.job)] } := by
  unfold apply_error
  dsimp only
  split
  · have hr : ({ f with error := some error } : RemoteFiles).record.ledger = f.ledger :=
      record_ledger _
    generalize ({ f with error := some error } : RemoteFiles).record = g at hr ⊢
    rw [← hr, show f.answered = g.answered from (congrArg Ledger.answered hr).symm]
    split <;> rfl
  · rfl

theorem apply_outcome_ledger (ticket : Ticket) (outcome : SftpOutcome) :
    (f.apply_outcome ticket outcome).2.ledger =
      match outcome, f.job with
      | .transferred _, some (.zip dir archive) =>
        { f.ledger with job := none, pack := some (ticket, dir, archive) }
      | _, job => { f.ledger with job := none, answered := f.answered ++ [(ticket, job)] } := by
  unfold apply_outcome
  rcases outcome <;> rcases f.job with _ | _ | _ | _ | _ | _ <;> rfl

theorem poll_pending_ledger {ticket : Ticket} (hpack : f.pack = none)
    (hpending : f.pending = some ticket) (answer : TryRecv (Except String SftpOutcome)) :
    (f.poll_pending ticket answer).2.ledger =
      f.ledger.take (if answer = .empty then .nothing
        else if f.tree_landed answer then .tree else .answer) := by
  have hp : f.ledger.pending = some ticket := hpending
  have hq : f.ledger.pack = none := hpack
  have htake : f.ledger.take .answer =
      { f.ledger with
        pending := none, job := none, answered := f.answered ++ [(ticket, f.job)] } := by
    rw [Ledger.take, Ledger.take_answer, hp]
    rfl
  unfold poll_pending
  by_cases he : answer = .empty
  · rw [if_pos he, if_pos he]
    rfl
  · rw [if_neg he, if_neg he]
    dsimp only
    split
    · next hstop =>
      have hl : f.tree_landed answer = false := by
        have := (Bool.and_eq_true_iff.mp hstop).1
        unfold tree_landed
        split
        · rw [this, Bool.not_true]
        · rfl
      rw [hl, if_neg Bool.false_ne_true, htake]
      rfl
    · next hstop =>
      rcases answer with (error | outcome) | _ | _
      · rw [show f.tree_landed (.ok (.error error)) = false from rfl, if_neg Bool.false_ne_true,
          htake]
        exact apply_error_ledger _ _ _
      · refine (apply_outcome_ledger _ _ _).trans ?_
        rcases hj : f.job with _ | _ | _ | _ | _ | ⟨dir, archive⟩
        case some.zip =>
          have hrun : f.stop_requested = false := by
            simpa [completed_before_stop, hj] using hstop
          have hjob : f.ledger.job = some (.zip dir archive) := hj
          rcases outcome with _ | _ | _ | _ | _
          case transferred bytes =>
            rw [show f.tree_landed (.ok (.ok (.transferred bytes))) = true by
              simp [tree_landed, hj, hrun], if_pos rfl, Ledger.take, Ledger.take_tree, hp, hq, hjob]
            rfl
          all_goals
            rw [show f.tree_landed _ = false by simp [tree_landed], if_neg Bool.false_ne_true,
              htake]
            simp only [hj]
            rfl
        all_goals
          rw [show f.tree_landed (.ok (.ok outcome)) = false by
            unfold tree_landed; rw [hj]; rcases outcome <;> rfl]
          rw [if_neg Bool.false_ne_true, htake]
          simp only [hj]
          rcases outcome <;> rfl
      · exact absurd rfl he
      · rw [show f.tree_landed .disconnected = false from rfl, if_neg Bool.false_ne_true, htake]
        rfl

/-- **A poll on the ledger** takes what the channels hold for the slot. -/
theorem poll_ledger (a : Answers) : (f.poll a).2.ledger = f.ledger.take (f.taken a) := by
  have hl := f.take_progress_ledger a.progress
  have htaken : (f.take_progress a.progress).taken a = f.taken a := by
    unfold take_progress
    split <;> rfl
  unfold poll
  generalize f.take_progress a.progress = g at hl htaken ⊢
  rw [← hl, ← htaken, taken]
  dsimp only
  rcases hpack : g.pack with _ | ⟨ticket, dir, archive⟩
  · rcases hpending : g.pending with _ | ticket
    · rfl
    · rw [if_neg (by simp)]
      refine (poll_pending_ledger g hpack hpending a.answer).trans (congrArg _ ?_)
      by_cases he : a.answer = .empty <;> simp [he]
  · rw [Option.isSome_some, if_pos rfl]
    exact poll_pack_ledger g hpack a

end RemoteFiles

namespace Session

variable (s : Session)

def ledger : Ledger := s.files.ledger

theorem start_next_transfer_ledger :
    s.start_next_transfer.ledger = s.ledger.start_next s.can_browse_files := by
  unfold start_next_transfer Ledger.start_next
  rcases hpending : s.files.pending with _ | ticket
  · rcases hpack : s.files.pack with _ | archive
    · have hfree : s.ledger.Free := ⟨hpending, hpack⟩
      rw [if_pos hfree]
      rcases hq : s.files.queue with _ | ⟨next, queue⟩
      · have : s.ledger.queue = [] := by simp [ledger, RemoteFiles.ledger, hq]
        rw [this]
        rfl
      · have : s.ledger.queue =
            (next.ticket, next.done) :: queue.map fun q => (q.ticket, q.done) := by
          simp [ledger, RemoteFiles.ledger, hq]
        rw [this]
        change (if s.can_browse_files then _ else _ : Session).ledger = _
        split <;> rfl
    · have hbusy : ¬ s.ledger.Free := fun h => nomatch hpack.symm.trans h.2
      rw [if_neg hbusy]
      rfl
  · have hbusy : ¬ s.ledger.Free := fun h => nomatch hpending.symm.trans h.1
    rw [if_neg hbusy]
    rfl

theorem enqueue_transfer_with_done_ledger (request : SftpRequest) (direction : TransferDirection)
    (path done : String) :
    (s.enqueue_transfer_with_done request direction path done).ledger =
      if s.can_browse_files then (s.ledger.enqueue done).start_next true else s.ledger := by
  unfold enqueue_transfer_with_done
  split
  · next hb =>
    refine (start_next_transfer_ledger _).trans ?_
    change Ledger.start_next _ s.can_browse_files = _
    rw [hb]
    refine congrArg (Ledger.start_next · true) ?_
    simp [ledger, RemoteFiles.ledger, accept, Ledger.enqueue]
  · rfl

theorem start_file_action_ledger (request : SftpRequest) (done : String) :
    (s.start_file_action request done).ledger =
      if s.can_browse_files then s.ledger.start (.action done) else s.ledger := by
  unfold start_file_action
  split <;> rfl

theorem start_zip_ledger (request : SftpRequest) (dir archive : String) :
    (s.start_zip request dir archive).ledger =
      if s.can_browse_files then s.ledger.start (.zip dir archive) else s.ledger := by
  unfold start_zip
  split <;> rfl

theorem start_file_request_ledger (path : String) :
    (s.start_file_request path).ledger = s.ledger := by
  unfold start_file_request
  split <;> rfl

/-- A read starts a job only when nothing runs. -/
theorem read_ledger (path : String) (max_bytes : ℕ) :
    (s.read path max_bytes).2.ledger = s.ledger ∨
      (s.files.pending = none ∧
        (s.read path max_bytes).2.ledger = s.ledger.start (.read path max_bytes)) := by
  unfold read
  split
  · exact .inl rfl
  · split
    · exact .inl rfl
    · next hbusy =>
      split
      · have hp : s.files.pending = none := by simp at hbusy; exact hbusy.1
        exact .inr ⟨hp, rfl⟩
      · exact .inl rfl

/-- So does resolving a path, which looks at the request in flight only. -/
theorem resolve_ledger (path home : String) (canonical : Except String String) :
    (s.resolve path home canonical).2.ledger = s.ledger ∨
      (s.files.pending = none ∧
        (s.resolve path home canonical).2.ledger = s.ledger.start .resolve) := by
  unfold resolve
  split
  · exact .inl rfl
  · split
    · exact .inl rfl
    · next hbusy =>
      split
      · refine .inl ?_
        dsimp only
        generalize (if path = "." then Except.ok home else canonical) = found
        cases found <;> rfl
      · split
        · exact .inr ⟨by simpa using hbusy, rfl⟩
        · exact .inl rfl

theorem poll_files_ledger (a : Answers) :
    (s.poll_files a).ledger =
      (s.ledger.take ((s.files.poll_listing a.listing).taken a)).start_next s.can_browse_files := by
  unfold poll_files
  have hpoll := (s.files.poll_listing a.listing).poll_ledger a
  rw [RemoteFiles.poll_listing_ledger] at hpoll
  generalize (s.files.poll_listing a.listing).poll a = out at hpoll ⊢
  obtain ⟨landed, files⟩ := out
  have hnext := start_next_transfer_ledger { s with files }
  change _ = Ledger.start_next files.ledger s.can_browse_files at hnext
  rw [show files.ledger = _ from hpoll] at hnext
  change _ = (s.files.ledger.take _).start_next _
  rw [← hnext]
  dsimp only
  split
  · rfl
  · split
    · exact start_file_request_ledger _ _
    · rfl

theorem take_queue_nil_iff (t : Taken) : (s.ledger.take t).queue = [] ↔ s.files.queue = [] := by
  have hq : (s.ledger.take t).queue = s.ledger.queue := by
    cases t <;> simp only [Ledger.take, Ledger.take_pack, Ledger.take_tree, Ledger.take_answer] <;>
      split <;> rfl
  rw [hq]
  exact List.map_eq_nil_iff

theorem poll_listing_taken (f : RemoteFiles) (answer : TryRecv (Except String SftpOutcome))
    (a : Answers) : (f.poll_listing answer).taken a = f.taken a := by
  unfold RemoteFiles.poll_listing
  split
  · rfl
  · split <;> rfl

/-- Every accepted request is in its place. -/
def Accounted : Prop := s.ledger.Accounted

end Session

/-! ## Steps and runs -/

/-- A poll that takes `t` leaves nothing running. -/
def RemoteFiles.Frees (f : RemoteFiles) : Taken → Prop
  | .nothing => f.pending = none ∧ f.pack = none
  | .pack => f.pending = none
  | .tree => False
  | .answer => True

theorem RemoteFiles.pack_of_taken (f : RemoteFiles) {a : Answers} (ht : f.taken a = .pack) :
    f.pack.isSome := by
  unfold taken at ht
  split at ht
  · assumption
  · split_ifs at ht

theorem RemoteFiles.job_of_tree_landed (f : RemoteFiles)
    {answer : TryRecv (Except String SftpOutcome)} (ht : f.tree_landed answer) :
    ∃ dir archive, f.job = some (.zip dir archive) := by
  unfold tree_landed at ht
  split at ht
  · next dir archive hj => exact ⟨dir, archive, hj⟩
  · exact nomatch ht

theorem RemoteFiles.take_free_iff (f : RemoteFiles) (a : Answers) :
    (f.ledger.take (f.taken a)).Free ↔ f.Frees (f.taken a) := by
  have hfree : ∀ l : Ledger, l.Free ↔ l.pending = none ∧ l.pack = none := fun _ => Iff.rfl
  unfold taken
  rcases hpack : f.pack with _ | ⟨ticket, dir, archive⟩
  · have hq : f.ledger.pack = none := hpack
    rcases hpending : f.pending with _ | ticket
    · have hp : f.ledger.pending = none := hpending
      simp [Ledger.take, hfree, Frees, hp, hq, hpack, hpending]
    · have hp : f.ledger.pending = some ticket := hpending
      by_cases he : a.answer = .empty
      · simp [Ledger.take, hfree, Frees, hp, hpending, he]
      · by_cases ht : f.tree_landed a.answer
        · obtain ⟨dir, archive, hj⟩ := f.job_of_tree_landed ht
          have hjob : f.ledger.job = some (.zip dir archive) := hj
          simp [Ledger.take, Ledger.take_tree, hfree, Frees, hp, hq, hjob, he, ht]
        · simp [Ledger.take, Ledger.take_answer, hfree, Frees, hp, hq, he, ht]
  · have hq : f.ledger.pack = some (ticket, dir, archive) := hpack
    rw [Option.isSome_some, if_pos rfl]
    split
    · simp [Ledger.take, hfree, Frees, hq, hpack]
    · simp only [Ledger.take, Ledger.take_pack, hq, hfree, Frees, and_true]
      rfl

/-- **What a step must not do**: start a change or an archive while a job runs, close an archive
while a described job runs, or take a transfer off the queue when there is no file system. -/
def Safe (s : Session) : Step → Prop
  | .mkdir _ | .rename _ _ | .remove _ _ | .chmod _ _ | .download_zip _ _ _ =>
    s.can_browse_files → s.files.pending = none
  | .poll_files a =>
    (s.files.taken a = .pack → s.files.pending.isSome → described s.files.job = none) ∧
      (s.files.Frees (s.files.taken a) → s.files.queue = [] ∨ s.can_browse_files)
  | _ => True

section Steps

variable {s : Session} (h : s.Accounted)

include h

theorem enqueue_transfer_with_done_accounted (request : SftpRequest) (direction : TransferDirection)
    (path done : String) :
    (s.enqueue_transfer_with_done request direction path done).Accounted := by
  unfold Session.Accounted at h ⊢
  rw [Session.enqueue_transfer_with_done_ledger]
  split
  · exact (Ledger.start_next_accounted_iff (Ledger.enqueue_accounted h done) true).mpr
      fun _ => .inr rfl
  · exact h

theorem start_file_action_accounted_iff (request : SftpRequest) (done : String) :
    (s.start_file_action request done).Accounted ↔
      (s.can_browse_files → s.files.pending = none) := by
  unfold Session.Accounted at h ⊢
  rw [Session.start_file_action_ledger]
  exact Ledger.ite_start_accounted_iff h _ _

theorem start_zip_accounted_iff (request : SftpRequest) (dir archive : String) :
    (s.start_zip request dir archive).Accounted ↔
      (s.can_browse_files → s.files.pending = none) := by
  unfold Session.Accounted at h ⊢
  rw [Session.start_zip_ledger]
  exact Ledger.ite_start_accounted_iff h _ _

theorem read_accounted (path : String) (max_bytes : ℕ) :
    (s.read path max_bytes).2.Accounted := by
  unfold Session.Accounted at h ⊢
  rcases s.read_ledger path max_bytes with hl | ⟨hp, hl⟩ <;> rw [hl]
  · exact h
  · exact (Ledger.start_accounted_iff h _).mpr hp

theorem resolve_accounted (path home : String) (canonical : Except String String) :
    (s.resolve path home canonical).2.Accounted := by
  unfold Session.Accounted at h ⊢
  rcases s.resolve_ledger path home canonical with hl | ⟨hp, hl⟩ <;> rw [hl]
  · exact h
  · exact (Ledger.start_accounted_iff h _).mpr hp

theorem poll_files_accounted_iff (a : Answers) :
    (s.poll_files a).Accounted ↔ Safe s (.poll_files a) := by
  unfold Session.Accounted at h ⊢
  rw [Session.poll_files_ledger, Session.poll_listing_taken]
  have htake := Ledger.take_accounted_iff h (s.files.taken a)
  have hfree := s.files.take_free_iff a
  by_cases hpack : s.files.taken a = .pack → s.files.pending.isSome → described s.files.job = none
  · have hacc : (s.ledger.take (s.files.taken a)).Accounted := htake.mpr fun ht _ => hpack ht
    rw [Ledger.start_next_accounted_iff hacc, Session.take_queue_nil_iff]
    exact ⟨fun hn => ⟨hpack, fun hf => hn (hfree.mpr hf)⟩, fun hs hf => hs.2 (hfree.mp hf)⟩
  · -- the archive's answer clears the description of a job that still runs
    refine iff_of_false (fun hacc => hpack ?_) fun hs => hpack hs.1
    have hbusy : ¬ (s.ledger.take (s.files.taken a)).Free := fun hf => hpack fun ht hp => by
      rw [ht] at hfree
      rw [hfree.mp (ht ▸ hf)] at hp
      exact nomatch hp
    rw [Ledger.start_next, if_neg hbusy] at hacc
    exact fun ht => htake.mp hacc ht (s.files.pack_of_taken ht)

theorem start_file_request_accounted (path : String) : (s.start_file_request path).Accounted := by
  unfold Session.Accounted at h ⊢
  rwa [Session.start_file_request_ledger]

theorem request_listing_accounted (path : String) : (s.request_listing path).Accounted := by
  unfold Session.request_listing
  split
  · exact h
  · exact start_file_request_accounted h path

theorem refresh_accounted (path : String) : (s.refresh path).Accounted := by
  have hs : Session.Accounted
    { s with files := { s.files with requested := none }.forget_content } := h
  exact start_file_request_accounted hs path

theorem upload_accounted (loc remote : String) : (s.upload loc remote).Accounted := by
  unfold Session.upload
  split
  · exact h
  · exact enqueue_transfer_with_done_accounted h _ _ _ _

theorem download_accounted (remote loc : String) : (s.download remote loc).Accounted := by
  unfold Session.download
  split
  · exact h
  · exact enqueue_transfer_with_done_accounted h _ _ _ _

theorem retry_accounted : s.retry.Accounted := by
  unfold Session.retry
  split
  · exact h
  · have hs : Session.Accounted { s with files := { s.files with retryable := none } } := h
    exact enqueue_transfer_with_done_accounted hs _ _ _ _

theorem stop_transfer_accounted : s.stop_transfer.Accounted := by
  unfold Session.stop_transfer
  split <;> exact h

theorem foldl_accounted {α : Type} {f : Session → α → Session}
    (hf : ∀ s a, s.Accounted → (f s a).Accounted) (items : List α) :
    (items.foldl f s).Accounted := by
  have hg : StepRun.Guarded f (fun _ _ => True) s items := StepRun.guarded_of_forall fun _ _ => trivial
  exact StepRun.run_inv (fun s a hs _ => hf s a hs) items s h hg

/-- **One step** keeps the balance exactly when it is safe. -/
theorem step_accounted_iff (a : Step) : (step s a).Accounted ↔ Safe s a := by
  cases a with
  | request_listing path => exact iff_of_true (request_listing_accounted h path) trivial
  | refresh path => exact iff_of_true (refresh_accounted h path) trivial
  | upload loc remote => exact iff_of_true (upload_accounted h loc remote) trivial
  | write_file remote content =>
    exact iff_of_true (enqueue_transfer_with_done_accounted h _ _ _ _) trivial
  | download remote loc => exact iff_of_true (download_accounted h remote loc) trivial
  | upload_many items =>
    exact iff_of_true (foldl_accounted h
      (fun _ _ hs => enqueue_transfer_with_done_accounted hs _ _ _ _) items) trivial
  | download_many items =>
    exact iff_of_true (foldl_accounted h
      (fun _ _ hs => enqueue_transfer_with_done_accounted hs _ _ _ _) items) trivial
  | download_tree items dir =>
    exact iff_of_true (enqueue_transfer_with_done_accounted h _ _ _ _) trivial
  | copy_many temp_dir items move_items =>
    exact iff_of_true (enqueue_transfer_with_done_accounted h _ _ _ _) trivial
  | retry => exact iff_of_true (retry_accounted h) trivial
  | mkdir path => exact start_file_action_accounted_iff h (.mkdir path) _
  | rename src dst => exact start_file_action_accounted_iff h (.rename src dst) _
  | remove path is_dir => exact start_file_action_accounted_iff h (.remove path is_dir) _
  | chmod path mode => exact start_file_action_accounted_iff h (.chmod path mode) _
  | download_zip temp_dir items archive =>
    exact start_zip_accounted_iff h (.download_tree items archive)
      s!"{temp_dir}/wassh-zip-{items.length}" archive
  | resolve path home canonical => exact iff_of_true (resolve_accounted h _ _ _) trivial
  | read path max_bytes => exact iff_of_true (read_accounted h _ _) trivial
  | report_problem message => exact iff_of_true h trivial
  | stop_transfer => exact iff_of_true (stop_transfer_accounted h) trivial
  | poll_files a => exact poll_files_accounted_iff h a
  | transport backend => exact iff_of_true h trivial

end Steps

theorem start_accounted (backend : Backend) : Session.Accounted { backend } := rfl

/-- **Every state of a run is balanced exactly when all its steps are safe.** -/
theorem run_accounted_iff (backend : Backend) (as : List Step) :
    (∀ s, StepRun.Reached step { backend } as s → s.Accounted) ↔
      StepRun.Guarded step Safe { backend } as :=
  StepRun.forall_reached_iff_guarded (fun _ a hs => step_accounted_iff hs a) as _
    (start_accounted backend)

/-- Deleting two selected entries in one loop: both deletions are accepted, the second takes the
slot from the first, and the first is in no place any more. -/
theorem remove_twice_unaccounted :
    ((StepRun.run step { backend := .ssh } [.remove "/a" false, .remove "/b" false]).files.accepted =
      [.action "Deleted /a", .action "Deleted /b"]) ∧
    ¬ (StepRun.run step { backend := .ssh }
      [.remove "/a" false, .remove "/b" false]).Accounted :=
  ⟨by decide, fun h => absurd (congrArg Multiset.card h) (by decide)⟩

end WaSSH.Files
