import WaSSH.Files.Slot
import WaSSH.Lib.Run

/-!
# The snapshot a read is answered from

A session's panel together with the host's files: the worker carries out requests one by one,
commands and others change files in between, and the panel answers reads from the last content it
collected.

* `read_file`: a read of a file's first bytes;
* `World`, `step`: the panel, the host and the answers under way;
* `Calm`: the frame condition of every step of the panel but a poll;
* **`reads_right`**: when a read returns a version no older than the last change of its own.
-/

namespace WaSSH.Files.Snapshot

open FileMap StepRun

/-- `read`: one byte past the limit tells whether the file continues. -/
def read_file (content : Bytes) (max_bytes : ℕ) : FileContent :=
  let buffer := content.take (max_bytes + 1)
  ⟨buffer.take max_bytes, max_bytes < buffer.length⟩

theorem read_file_eq (content : Bytes) (max_bytes : ℕ) :
    read_file content max_bytes = ⟨content.take max_bytes, max_bytes < content.length⟩ := by
  have hlength : max_bytes < min (max_bytes + 1) content.length ↔ max_bytes < content.length := by
    omega
  simp [read_file, List.take_take, hlength]

/-! ## The panel and the host -/

/-- Files that change, each with its new content, if it is still there. -/
abbrev Changes := String → Option (Option Bytes)

structure World where
  session : Session
  disk : String → Option Bytes
  /-- The versions of a file from its last change by the application on. -/
  since : String → List Bytes
  /-- What the worker has sent, by request. -/
  answers : Ticket → Option (Except String SftpOutcome)

inductive Event
  | panel (a : Step)
  /-- The worker carries out a request. -/
  | work (ticket : Ticket) (changes : Changes) (outcome : Except String SftpOutcome)
  /-- A command the agent runs. -/
  | command (changes : Changes)
  /-- Anybody else. -/
  | others (changes : Changes)

namespace World

variable (w : World)

/-- What the channel of the request in flight holds. -/
def received (a : Answers) : TryRecv (Except String SftpOutcome) :=
  match w.session.files.pending.bind w.answers with
  | some answer => .ok answer
  | none => if a.answer = .disconnected then .disconnected else .empty

/-- A poll finds what the worker has sent. -/
def deliver : Step → Step
  | .poll_files a => .poll_files { a with answer := w.received a }
  | a => a

/-- The files after a change of the application. -/
def own_change (changes : Changes) : World :=
  { w with
    disk := fun path => (changes path).getD (w.disk path)
    since := fun path => match changes path with
      | some content => content.toList
      | none => w.since path }

/-- The files after a change of somebody else. -/
def others_change (changes : Changes) : World :=
  { w with
    disk := fun path => (changes path).getD (w.disk path)
    since := fun path => match changes path with
      | some content => w.since path ++ content.toList
      | none => w.since path }

def answer (ticket : Ticket) (answer : Except String SftpOutcome) : World :=
  { w with answers := fun t => if t = ticket then some answer else w.answers t }

/-- What a read of a file sends. -/
def read_answer (path : String) (max_bytes : ℕ) : Except String SftpOutcome :=
  match w.disk path with
  | none => .error s!"opening {path}: no such file"
  | some content =>
    let content := read_file content max_bytes
    .ok (.content content.data content.truncated)

/-- The worker carries out a request it has not answered yet. A read changes nothing. -/
def work (ticket : Ticket) (changes : Changes) (outcome : Except String SftpOutcome) : World :=
  match w.session.files.accepted[ticket]?, w.answers ticket with
  | some (.read path max_bytes), none => w.answer ticket (w.read_answer path max_bytes)
  | some _, none => (w.own_change changes).answer ticket outcome
  | _, _ => w

end World

def step (w : World) : Event → World
  | .panel a => { w with session := Files.step w.session (w.deliver a) }
  | .work ticket changes outcome => w.work ticket changes outcome
  | .command changes => w.own_change changes
  | .others changes => w.others_change changes

/-- No snapshot of a changed file is kept, nor has the worker answered a read of it that is yet to
be collected. -/
def World.Unread (w : World) (changes : Changes) : Prop :=
  ∀ path, (changes path).isSome →
    (∀ limit content, w.session.files.content ≠ some (path, limit, content)) ∧
    ∀ ticket limit, w.session.files.pending = some ticket →
      w.session.files.job = some (.read path limit) → w.answers ticket = none

/-- A read is answered from a snapshot of its own limit, or one no longer than asked for, and the
application changes no file a snapshot of which it holds. -/
def Fresh (w : World) : Event → Prop
  | .panel (.read path max_bytes) => ∀ limit content,
      w.session.files.content = some (path, limit, content) → max_bytes ≤ limit →
        limit = max_bytes ∨ content.data.length ≤ max_bytes
  | .panel _ => True
  | .work ticket changes _ =>
    (∀ path limit, w.session.files.accepted[ticket]? ≠ some (.read path limit)) →
      w.answers ticket = none → w.Unread changes
  | .command changes => w.Unread changes
  | .others _ => True

/-- A read that returns a content returns the first bytes of a version no older than the last change
by the application, and whether there are more. -/
def Served (w : World) : Event → Prop
  | .panel (.read path max_bytes) => ∀ content,
      (w.session.read path max_bytes).1 = some content →
        ∃ version ∈ w.since path,
          content = ⟨version.take max_bytes, max_bytes < version.length⟩
  | _ => True

/-! ## What the panel does with its snapshot -/

/-- The part of a panel a read depends on changes only like this: the snapshot stays or goes, and the
request in flight, if it is a read, was one before or has been accepted since. -/
structure Calm (s s' : Session) : Prop where
  content : s'.files.content = s.files.content ∨ s'.files.content = none
  accepted : s.files.accepted <+: s'.files.accepted
  reading : ∀ ticket path limit, s'.files.pending = some ticket →
    s'.files.job = some (.read path limit) →
      (s.files.pending = some ticket ∧ s.files.job = some (.read path limit)) ∨
      (s.files.accepted.length ≤ ticket ∧
        s'.files.accepted[ticket]? = some (.read path limit))

theorem Calm.refl (s : Session) : Calm s s :=
  ⟨.inl rfl, List.prefix_refl _, fun _ _ _ hp hj => .inl ⟨hp, hj⟩⟩

theorem Calm.trans {s s' s'' : Session} (h : Calm s s') (h' : Calm s' s'') : Calm s s'' := by
  refine ⟨?_, h.accepted.trans h'.accepted, fun ticket path limit hp hj => ?_⟩
  · rcases h'.content with hc | hc
    · exact h.content.imp hc.trans hc.trans
    · exact .inr hc
  · rcases h'.reading ticket path limit hp hj with ⟨hp', hj'⟩ | ⟨hlen, hread⟩
    · refine (h.reading ticket path limit hp' hj').imp_right fun ⟨hlen, hread⟩ => ⟨hlen, ?_⟩
      obtain ⟨rest, hrest⟩ := h'.accepted
      rw [← hrest, List.getElem?_append_left]
      · exact hread
      · exact (List.getElem?_eq_some_iff.mp hread).1
    · exact .inr ⟨h.accepted.length_le.trans hlen, hread⟩

section Calm

variable (s : Session)

theorem start_next_transfer_calm : Calm s s.start_next_transfer := by
  unfold Session.start_next_transfer
  split
  · exact .refl s
  · split
    · exact .refl s
    · dsimp only
      split
      · exact ⟨.inl rfl, List.prefix_refl _, nofun⟩
      · exact ⟨.inl rfl, List.prefix_refl _, fun _ _ _ hp hj => .inl ⟨hp, hj⟩⟩

theorem enqueue_calm (request : SftpRequest) (direction : TransferDirection) (path done : String) :
    Calm s (s.enqueue_transfer_with_done request direction path done) := by
  unfold Session.enqueue_transfer_with_done
  split
  · refine Calm.trans ?_ (start_next_transfer_calm _)
    exact ⟨.inr rfl, List.prefix_append _ _, fun _ _ _ hp hj => .inl ⟨hp, hj⟩⟩
  · exact ⟨.inl rfl, List.prefix_refl _, fun _ _ _ hp hj => .inl ⟨hp, hj⟩⟩

theorem start_file_action_calm (request : SftpRequest) (done : String) :
    Calm s (s.start_file_action request done) := by
  unfold Session.start_file_action
  split
  · exact ⟨.inr rfl, List.prefix_append _ _, nofun⟩
  · exact ⟨.inl rfl, List.prefix_refl _, fun _ _ _ hp hj => .inl ⟨hp, hj⟩⟩

theorem start_zip_calm (request : SftpRequest) (dir archive : String) :
    Calm s (s.start_zip request dir archive) := by
  unfold Session.start_zip
  split
  · exact ⟨.inl rfl, List.prefix_append _ _, nofun⟩
  · exact ⟨.inl rfl, List.prefix_refl _, fun _ _ _ hp hj => .inl ⟨hp, hj⟩⟩

theorem start_file_request_calm (path : String) : Calm s (s.start_file_request path) := by
  unfold Session.start_file_request
  split <;> exact ⟨.inl rfl, List.prefix_refl _, fun _ _ _ hp hj => .inl ⟨hp, hj⟩⟩

theorem read_calm (path : String) (max_bytes : ℕ) : Calm s (s.read path max_bytes).2 := by
  unfold Session.read
  split
  · exact .refl s
  · split
    · exact .refl s
    · split
      · refine ⟨.inl rfl, List.prefix_append _ _, fun ticket path' limit hp hj => .inr ?_⟩
        obtain rfl := Option.some.inj hp
        cases (Option.some.inj hj : FileJob.read path max_bytes = .read path' limit)
        exact ⟨Nat.le_refl _, List.getElem?_concat_length ..⟩
      · exact .refl s

theorem resolve_calm (path home : String) (canonical : Except String String) :
    Calm s (s.resolve path home canonical).2 := by
  unfold Session.resolve
  split
  · exact .refl s
  · split
    · exact .refl s
    · split
      · split <;> exact ⟨.inl rfl, List.prefix_refl _, fun _ _ _ hp hj => .inl ⟨hp, hj⟩⟩
      · split
        · exact ⟨.inl rfl, List.prefix_append _ _, nofun⟩
        · exact ⟨.inl rfl, List.prefix_refl _, fun _ _ _ hp hj => .inl ⟨hp, hj⟩⟩

theorem foldl_calm {α : Type} {f : Session → α → Session} (hf : ∀ s a, Calm s (f s a)) :
    ∀ (items : List α) (s : Session), Calm s (items.foldl f s)
  | [], s => .refl s
  | a :: items, s => (hf s a).trans (foldl_calm hf items (f s a))

/-- **Every step but a poll** leaves the snapshot, or drops it. -/
theorem step_calm (a : Step) (ha : ∀ answers, a ≠ .poll_files answers) : Calm s (Files.step s a) := by
  have other : ∀ {files}, files.content = s.files.content ∨ files.content = none →
      files.accepted = s.files.accepted → files.pending = s.files.pending →
      files.job = s.files.job → Calm s { s with files } :=
    fun hc ha hp hj => ⟨hc, ha ▸ List.prefix_refl _, fun _ _ _ hp' hj' =>
      .inl ⟨hp.symm.trans hp', hj.symm.trans hj'⟩⟩
  cases a with
  | request_listing path =>
    simp only [Files.step, Session.request_listing]
    split
    · exact .refl s
    · exact start_file_request_calm s path
  | refresh path =>
    have hs : Calm s { s with files := { s.files with requested := none }.forget_content } :=
      other (.inr rfl) rfl rfl rfl
    exact hs.trans (start_file_request_calm _ path)
  | upload loc remote =>
    simp only [Files.step, Session.upload]
    split
    · exact other (.inl rfl) rfl rfl rfl
    · exact enqueue_calm s ..
  | write_file remote content => exact enqueue_calm s ..
  | download remote loc =>
    simp only [Files.step, Session.download]
    split
    · exact other (.inl rfl) rfl rfl rfl
    · exact enqueue_calm s ..
  | upload_many items => exact foldl_calm (fun s _ => enqueue_calm s ..) items s
  | download_many items => exact foldl_calm (fun s _ => enqueue_calm s ..) items s
  | download_tree items dir => exact enqueue_calm s ..
  | copy_many temp_dir items move_items => exact enqueue_calm s ..
  | retry =>
    simp only [Files.step, Session.retry]
    split
    · exact .refl s
    · have hs : Calm s { s with files := { s.files with retryable := none } } :=
        other (.inl rfl) rfl rfl rfl
      exact hs.trans (enqueue_calm _ ..)
  | mkdir path => exact start_file_action_calm s (.mkdir path) _
  | rename src dst => exact start_file_action_calm s (.rename src dst) _
  | remove path is_dir => exact start_file_action_calm s (.remove path is_dir) _
  | chmod path mode => exact start_file_action_calm s (.chmod path mode) _
  | download_zip temp_dir items archive =>
    exact start_zip_calm s (.download_tree items s!"{temp_dir}/wassh-zip-{items.length}") _ archive
  | resolve path home canonical => exact resolve_calm s ..
  | read path max_bytes => exact read_calm s ..
  | report_problem message => exact other (.inl rfl) rfl rfl rfl
  | stop_transfer =>
    simp only [Files.step, Session.stop_transfer]
    split
    · exact other (.inl rfl) rfl rfl rfl
    · exact .refl s
  | poll_files answers => exact absurd rfl (ha answers)
  | transport backend =>
    exact ⟨.inl rfl, List.prefix_refl _, fun _ _ _ hp hj => .inl ⟨hp, hj⟩⟩

end Calm

/-! ## What a poll collects -/

section Poll

variable (f : RemoteFiles)

@[simp] theorem take_progress_content (values : List SftpProgress) :
    (f.take_progress values).content = f.content := by
  unfold RemoteFiles.take_progress
  split <;> rfl

@[simp] theorem record_content : f.record.content = f.content := by
  unfold RemoteFiles.record
  split <;> rfl

@[simp] theorem finish_pack_content (failure : Option String) :
    (f.finish_pack failure).content = f.content := by
  unfold RemoteFiles.finish_pack
  split
  · exact record_content f
  · rfl

@[simp] theorem finish_cancelled_content : f.finish_cancelled.content = f.content := rfl

theorem poll_pack_content (ticket : Ticket) (dir archive : String) (a : Answers) :
    (f.poll_pack ticket dir archive a).content = f.content := by
  unfold RemoteFiles.poll_pack
  dsimp only
  split
  · simp
  · simp [RemoteFiles.finish_pack, RemoteFiles.log]
  · split <;> simp [RemoteFiles.log]
  · split <;> simp [RemoteFiles.log]

/-- The content of a read, with what the description of the request says it is of. -/
theorem apply_outcome_content (ticket : Ticket) (outcome : SftpOutcome) :
    let content := (f.apply_outcome ticket outcome).2.content
    content = f.content ∨ content = none ∨
      ∃ path limit data truncated, f.job = some (.read path limit) ∧
        outcome = .content data truncated ∧ content = some (path, limit, ⟨data, truncated⟩) := by
  unfold RemoteFiles.apply_outcome
  dsimp only
  split
  · exact .inl rfl
  · exact .inl rfl
  · rename_i data truncated path max_bytes hjob
    exact .inr (.inr ⟨path, max_bytes, data, truncated, hjob, rfl, rfl⟩)
  · exact .inr (.inl rfl)
  · exact .inr (.inl rfl)
  · exact .inl rfl

/-- **A poll keeps the snapshot, drops it, or takes the answer of a read.** -/
theorem poll_content (a : Answers) :
    let content := (f.poll a).2.content
    content = f.content ∨ content = none ∨
      ∃ ticket path limit data truncated, f.pending = some ticket ∧
        f.job = some (.read path limit) ∧ a.answer = .ok (.ok (.content data truncated)) ∧
        content = some (path, limit, ⟨data, truncated⟩) := by
  have hprogress := take_progress_content f a.progress
  have hledger := f.take_progress_ledger a.progress
  unfold RemoteFiles.poll
  generalize f.take_progress a.progress = g at hprogress hledger ⊢
  have hpending : g.pending = f.pending := congrArg Ledger.pending hledger
  have hjob : g.job = f.job := congrArg Ledger.job hledger
  rw [← hprogress, ← hpending, ← hjob]
  dsimp only
  split
  · exact .inl (poll_pack_content g ..)
  · exact .inl rfl
  · rename_i ticket _ hticket
    unfold RemoteFiles.poll_pending
    split
    · exact .inl rfl
    · dsimp only
      split
      · exact .inl rfl
      · split
        · rename_i outcome hanswer
          rcases apply_outcome_content
            { g with pending := none, progress := none, moved := none } ticket outcome with
            h | h | ⟨path, limit, data, truncated, hread, rfl, h⟩
          · exact .inl h
          · exact .inr (.inl h)
          · exact .inr (.inr ⟨ticket, path, limit, data, truncated, hticket, hread, hanswer, h⟩)
        · exact .inr (.inl rfl)
        · exact .inl rfl
        · exact .inl rfl

theorem take_slot (l : Ledger) (taken : Taken) : (l.take taken).accepted = l.accepted ∧
    ((l.take taken).pending = l.pending ∨ (l.take taken).pending = none) ∧
    ((l.take taken).job = l.job ∨ (l.take taken).job = none) := by
  cases taken with
  | nothing => exact ⟨rfl, .inl rfl, .inl rfl⟩
  | pack =>
    simp only [Ledger.take, Ledger.take_pack]
    split
    · exact ⟨rfl, .inl rfl, .inr rfl⟩
    · exact ⟨rfl, .inl rfl, .inl rfl⟩
  | tree =>
    simp only [Ledger.take, Ledger.take_tree]
    split
    · exact ⟨rfl, .inr rfl, .inr rfl⟩
    · exact ⟨rfl, .inl rfl, .inl rfl⟩
  | answer =>
    simp only [Ledger.take, Ledger.take_answer]
    split
    · exact ⟨rfl, .inr rfl, .inr rfl⟩
    · exact ⟨rfl, .inl rfl, .inl rfl⟩

theorem poll_listing_content (answer : TryRecv (Except String SftpOutcome)) :
    (f.poll_listing answer).content = f.content := by
  unfold RemoteFiles.poll_listing
  split
  · rfl
  · split <;> rfl

/-- The session as a poll leaves its files, before it starts anything. -/
def polled (s : Session) (a : Answers) : Session :=
  { s with files := ((s.files.poll_listing a.listing).poll a).2 }

theorem poll_files_calm (s : Session) (a : Answers) : Calm (polled s a) (s.poll_files a) := by
  unfold polled Session.poll_files
  generalize (s.files.poll_listing a.listing).poll a = out
  obtain ⟨landed, files⟩ := out
  dsimp only
  split
  · exact start_next_transfer_calm _
  · split
    · exact (start_next_transfer_calm _).trans (start_file_request_calm _ _)
    · exact (start_next_transfer_calm _).trans
        ⟨.inl rfl, List.prefix_refl _, fun _ _ _ hp hj => .inl ⟨hp, hj⟩⟩

end Poll

/-! ## Runs -/

/-- The snapshot, and the answer of a read under way, are versions no older than the last change by
the application. -/
structure World.Sound (w : World) : Prop where
  snapshot : ∀ {path limit content}, w.session.files.content = some (path, limit, content) →
    ∃ version ∈ w.since path, content = read_file version limit
  described : ∀ {ticket path limit}, w.session.files.pending = some ticket →
    w.session.files.job = some (.read path limit) →
      w.session.files.accepted[ticket]? = some (.read path limit)
  waiting : ∀ {ticket path limit data truncated}, w.session.files.pending = some ticket →
    w.session.files.job = some (.read path limit) →
      w.answers ticket = some (.ok (.content data truncated)) →
        ∃ version ∈ w.since path, ⟨data, truncated⟩ = read_file version limit
  asked : ∀ {ticket answer}, w.answers ticket = some answer →
    ticket < w.session.files.accepted.length
  present : ∀ {path content}, w.disk path = some content → content ∈ w.since path

section Runs

variable {w : World}

theorem World.Sound.calm (hw : w.Sound) {s : Session} (h : Calm w.session s) :
    { w with session := s }.Sound := by
  refine ⟨?_, ?_, ?_, fun hanswer => (hw.asked hanswer).trans_le h.accepted.length_le, hw.present⟩
  · intro path limit content hcontent
    rcases h.content with hc | hc
    · exact hw.snapshot (hc.symm.trans hcontent)
    · exact nomatch hc.symm.trans hcontent
  · intro ticket path limit hp hj
    rcases h.reading ticket path limit hp hj with ⟨hp', hj'⟩ | ⟨-, hread⟩
    · have hread := hw.described hp' hj'
      obtain ⟨rest, hrest⟩ := h.accepted
      change s.files.accepted[ticket]? = _
      rw [← hrest, List.getElem?_append_left (List.getElem?_eq_some_iff.mp hread).1]
      exact hread
    · exact hread
  · intro ticket path limit data truncated hp hj hanswer
    rcases h.reading ticket path limit hp hj with ⟨hp', hj'⟩ | ⟨hlen, -⟩
    · exact hw.waiting hp' hj' hanswer
    · exact absurd (hw.asked hanswer) (Nat.not_lt.mpr hlen)

theorem World.Sound.polled (hw : w.Sound) {a : Answers}
    (ha : ∀ answer, a.answer = .ok answer →
      w.session.files.pending.bind w.answers = some answer) :
    { w with session := polled w.session a }.Sound := by
  have hledger := (w.session.files.poll_listing a.listing).poll_ledger a
  rw [RemoteFiles.poll_listing_ledger] at hledger
  have hlisting : (w.session.files.poll_listing a.listing).ledger = w.session.files.ledger :=
    RemoteFiles.poll_listing_ledger _ _
  have hcontent := poll_content (w.session.files.poll_listing a.listing) a
  rw [poll_listing_content, show (w.session.files.poll_listing a.listing).pending =
    w.session.files.pending from congrArg Ledger.pending hlisting,
    show (w.session.files.poll_listing a.listing).job = w.session.files.job from
      congrArg Ledger.job hlisting] at hcontent
  obtain ⟨haccepted, hpending, hjob⟩ := take_slot w.session.files.ledger
    ((w.session.files.poll_listing a.listing).taken a)
  rw [← hledger] at haccepted hpending hjob
  unfold Snapshot.polled
  generalize ((w.session.files.poll_listing a.listing).poll a).2 = files at *
  -- what runs after the poll ran before it
  have hread : ∀ {ticket path limit}, files.pending = some ticket →
      files.job = some (.read path limit) → w.session.files.pending = some ticket ∧
        w.session.files.job = some (.read path limit) := by
    intro ticket path limit hp hj
    refine ⟨?_, ?_⟩
    · exact (hpending.resolve_right fun hnone => nomatch hp.symm.trans hnone).symm.trans hp
    · exact (hjob.resolve_right fun hnone => nomatch hj.symm.trans hnone).symm.trans hj
  refine ⟨?_, ?_, ?_, ?_, hw.present⟩
  · intro path limit content hc
    rcases hcontent with h | h | ⟨ticket, path', limit', data, truncated, hp, hj, hanswer, h⟩
    · exact hw.snapshot (h.symm.trans hc)
    · exact nomatch h.symm.trans hc
    · cases h.symm.trans hc
      have hanswered := ha _ hanswer
      rw [hp] at hanswered
      exact hw.waiting hp hj hanswered
  · intro ticket path limit hp hj
    obtain ⟨hp', hj'⟩ := hread hp hj
    exact (congrArg (·[ticket]?) haccepted).trans (hw.described hp' hj')
  · intro ticket path limit data truncated hp hj hanswer
    obtain ⟨hp', hj'⟩ := hread hp hj
    exact hw.waiting hp' hj' hanswer
  · intro ticket answer hanswer
    exact (hw.asked hanswer).trans_eq (congrArg List.length haccepted).symm

theorem World.Sound.panel (hw : w.Sound) (a : Step) : (step w (.panel a)).Sound := by
  by_cases ha : ∃ answers, a = .poll_files answers
  · obtain ⟨answers, rfl⟩ := ha
    refine (hw.polled fun answer hanswer => ?_).calm (poll_files_calm w.session _)
    change w.received answers = .ok answer at hanswer
    unfold World.received at hanswer
    split at hanswer
    · rename_i received hreceived
      cases hanswer
      exact hreceived
    · split at hanswer <;> exact nomatch hanswer
  · have ha' : ∀ answers, a ≠ .poll_files answers := fun answers h => ha ⟨answers, h⟩
    have hdeliver : w.deliver a = a := by
      cases a <;> first | rfl | exact absurd rfl (ha' _)
    have hcalm := hw.calm (step_calm w.session a ha')
    simpa only [step, hdeliver] using hcalm

theorem World.Sound.own_change (hw : w.Sound) {changes : Changes} (hok : w.Unread changes) :
    (w.own_change changes).Sound := by
  have hsince : ∀ {path}, changes path = none → (w.own_change changes).since path = w.since path := by
    intro path h
    simp [World.own_change, h]
  refine ⟨?_, hw.described, ?_, hw.asked, ?_⟩
  · intro path limit content hc
    cases hchanges : changes path with
    | none =>
      rw [hsince hchanges]
      exact hw.snapshot hc
    | some new => exact absurd hc ((hok path (by simp [hchanges])).1 limit content)
  · intro ticket path limit data truncated hp hj hanswer
    cases hchanges : changes path with
    | none =>
      rw [hsince hchanges]
      exact hw.waiting hp hj hanswer
    | some new =>
      have hnone := (hok path (by simp [hchanges])).2 ticket limit hp hj
      exact nomatch hnone.symm.trans hanswer
  · intro path content hcontent
    cases hchanges : changes path with
    | none =>
      rw [hsince hchanges]
      exact hw.present (by simpa [World.own_change, hchanges] using hcontent)
    | some new => simpa [World.own_change, hchanges] using hcontent

theorem World.Sound.others_change (hw : w.Sound) (changes : Changes) :
    (w.others_change changes).Sound := by
  have hsince : ∀ {path version}, version ∈ w.since path →
      version ∈ (w.others_change changes).since path := by
    intro path version h
    simp only [World.others_change]
    split
    · exact List.mem_append_left _ h
    · exact h
  refine ⟨fun hc => ?_, hw.described, fun hp hj hanswer => ?_, hw.asked, ?_⟩
  · obtain ⟨version, hversion, heq⟩ := hw.snapshot hc
    exact ⟨version, hsince hversion, heq⟩
  · obtain ⟨version, hversion, heq⟩ := hw.waiting hp hj hanswer
    exact ⟨version, hsince hversion, heq⟩
  · intro path content hcontent
    cases hchanges : changes path with
    | none => exact hsince (hw.present (by simpa [World.others_change, hchanges] using hcontent))
    | some new =>
      have hnew : new = some content := by simpa [World.others_change, hchanges] using hcontent
      simp [World.others_change, hchanges, hnew]

theorem World.Sound.answer (hw : w.Sound) {ticket : Ticket} {answer : Except String SftpOutcome}
    (hlt : ticket < w.session.files.accepted.length)
    (hread : ∀ path limit data truncated,
      w.session.files.accepted[ticket]? = some (.read path limit) →
        answer = .ok (.content data truncated) →
          ∃ version ∈ w.since path, ⟨data, truncated⟩ = read_file version limit) :
    (w.answer ticket answer).Sound := by
  refine ⟨hw.snapshot, hw.described, ?_, ?_, hw.present⟩
  · intro t path limit data truncated hp hj hanswer
    simp only [World.answer] at hanswer
    split at hanswer
    · rename_i ht
      subst ht
      exact hread path limit data truncated (hw.described hp hj) (Option.some.inj hanswer)
    · exact hw.waiting hp hj hanswer
  · intro t other hanswer
    simp only [World.answer] at hanswer
    split at hanswer
    · rename_i ht
      exact ht ▸ hlt
    · exact hw.asked hanswer

theorem World.Sound.work (hw : w.Sound) {ticket : Ticket} {changes : Changes}
    {outcome : Except String SftpOutcome} (hok : Fresh w (.work ticket changes outcome)) :
    (w.work ticket changes outcome).Sound := by
  unfold World.work
  split
  · rename_i path max_bytes hread hnone
    refine hw.answer (List.getElem?_eq_some_iff.mp hread).1 ?_
    intro path' limit data truncated hread' hanswer
    cases hread.symm.trans hread'
    unfold World.read_answer at hanswer
    split at hanswer
    · exact nomatch hanswer
    · rename_i content hcontent
      cases hanswer
      exact ⟨content, hw.present hcontent, rfl⟩
  · rename_i job hnot hjob hnone
    have hnot' : ∀ path limit,
        w.session.files.accepted[ticket]? ≠ some (.read path limit) := by
      intro path limit hread
      exact hnot path limit (Option.some.inj (hjob.symm.trans hread))
    refine (hw.own_change (hok hnot' hnone)).answer (List.getElem?_eq_some_iff.mp hjob).1 ?_
    intro path limit data truncated hread _
    exact absurd hread (hnot' path limit)
  · exact hw

theorem step_sound (e : Event) (hw : w.Sound) (hok : Fresh w e) : (step w e).Sound := by
  cases e with
  | panel a => exact hw.panel a
  | work ticket changes outcome => exact hw.work hok
  | command changes => exact hw.own_change hok
  | others changes => exact hw.others_change changes

/-- What a read is answered with, when its snapshot is sound. -/
theorem served_of_sound (e : Event) (hw : w.Sound) (hok : Fresh w e) : Served w e := by
  unfold Served
  split
  · rename_i path max_bytes
    intro content hread
    unfold Session.read at hread
    split at hread
    · rename_i path' limit content' hfilter
      cases hread
      obtain ⟨hcontent, hcond⟩ := Option.filter_eq_some_iff.mp hfilter
      obtain ⟨rfl, hle⟩ : path' = path ∧ max_bytes ≤ limit := by simpa using hcond
      obtain ⟨version, hversion, rfl⟩ := hw.snapshot hcontent
      refine ⟨version, hversion, ?_⟩
      rw [read_file_eq] at hcontent ⊢
      rcases hok limit _ hcontent hle with rfl | hlength
      · rfl
      · -- the snapshot is no longer than asked for, so it is the whole version
        have hmin : min limit version.length ≤ max_bytes := by simpa using hlength
        by_cases hlimit : limit = max_bytes
        · rw [hlimit]
        · have hversion' : version.length ≤ max_bytes := by omega
          have h1 : ¬ limit < version.length := by omega
          have h2 : ¬ max_bytes < version.length := by omega
          rw [List.take_of_length_le (by omega), List.take_of_length_le hversion']
          simp [h1, h2]
    · split at hread
      · exact nomatch hread
      · split at hread <;> exact nomatch hread
  · trivial

end Runs

/-- A session before its first request, on a host with any files. -/
def World.start (backend : Backend) (disk : String → Option Bytes) : World :=
  ⟨{ backend }, disk, fun path => (disk path).toList, fun _ => none⟩

theorem start_sound (backend : Backend) (disk : String → Option Bytes) :
    (World.start backend disk).Sound := by
  refine ⟨nofun, nofun, nofun, nofun, fun {path content} h => ?_⟩
  exact Option.mem_toList.mpr h

/-- **Every read that returns a content returns the bytes asked for, of a version no older than the
last change by the application**, in a run that asks and changes only as `Fresh` says. -/
theorem reads_right (backend : Backend) (disk : String → Option Bytes) (events : List Event)
    (h : Guarded step Fresh (.start backend disk) events) :
    Guarded step Served (.start backend disk) events :=
  guarded_of_inv (I := World.Sound) (fun _ e hw hok => step_sound e hw hok)
    (fun _ e hw hok => served_of_sound e hw hok) events _ (start_sound backend disk) h

/-- One read, answered and collected, of a file of three bytes. -/
def read_once (path : String) (max_bytes : ℕ) : List Event :=
  [.panel (.read path max_bytes), .work 0 (fun _ => none) (.error ""), .panel (.poll_files {})]

def three_bytes (path : String) : Option Bytes := if path = "/a" then some [1, 2, 3] else none

theorem reads_right_same_limit :
    Guarded step Served (.start .ssh three_bytes) (read_once "/a" 2 ++ [.panel (.read "/a" 2)]) := by
  refine reads_right .ssh three_bytes _ ⟨?_, ?_, trivial, ?_, trivial⟩
  · exact fun _ _ => nofun
  · exact fun h => absurd rfl (h "/a" 2)
  · intro limit content hcontent _
    cases (show some ("/a", 2, _) = some ("/a", limit, content) from hcontent)
    exact .inl rfl

/-- A snapshot of a larger limit answers a smaller read with too much, and a command that replaces
the file leaves the old content in it. -/
theorem stale_snapshot_served :
    (((run step (.start .ssh three_bytes) (read_once "/a" 9)).session.read "/a" 2).1 =
        some ⟨[1, 2, 3], false⟩ ∧
      ¬ Guarded step Served (.start .ssh three_bytes)
        (read_once "/a" 9 ++ [.panel (.read "/a" 2)])) ∧
    ∃ changes : Changes,
      (run step (.start .ssh three_bytes) (read_once "/a" 9 ++ [.command changes])).disk "/a" =
        some [4] ∧
      ((run step (.start .ssh three_bytes) (read_once "/a" 9 ++ [.command changes])).session.read
        "/a" 9).1 = some ⟨[1, 2, 3], false⟩ ∧
      ¬ Guarded step Served (.start .ssh three_bytes)
        (read_once "/a" 9 ++ [.command changes] ++ [.panel (.read "/a" 9)]) := by
  refine ⟨⟨rfl, fun h => ?_⟩, fun path => if path = "/a" then some (some [4]) else none, rfl, rfl,
    fun h => ?_⟩
  · obtain ⟨version, -, heq⟩ := ((guarded_append ..).mp h).2.1 ⟨[1, 2, 3], false⟩ rfl
    have hlength := congrArg (fun content => content.data.length) heq
    simp at hlength
    omega
  · obtain ⟨version, hversion, heq⟩ := ((guarded_append ..).mp h).2.1 ⟨[1, 2, 3], false⟩ rfl
    have hnew : version ∈ [[4]] := hversion
    obtain rfl := List.mem_singleton.mp hnew
    exact absurd heq (by decide)

end WaSSH.Files.Snapshot
