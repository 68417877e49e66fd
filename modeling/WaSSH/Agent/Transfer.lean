import WaSSH.Files.Slot

/-!
# What the agent makes of an upload

The agent writes a remote file through the panel of its session, waits until nothing is transferring
and reads the outcome off the panel's status line.

* `poll_transfer`: the answer of the agent's tool call;
* `Watch`: a session with the fate of one upload written down next to it;
* `step_sound`: when the status line is what that upload left;
* **`verdict_agrees_iff`**: when the tool call fails exactly if the upload did not land.
-/

namespace WaSSH.Agent.Transfer

open Files StepRun

/-! ## The verdict -/

/-- The words a failure is guessed from. -/
def FAILURE_WORDS : List (List Char) := ["fail".toList, "denied".toList, "error".toList]

/-- The status line speaks of a failure. -/
def speaks_of_failure (status : List Char) : Bool :=
  FAILURE_WORDS.any (Text.contains (Text.to_lowercase status))

/-- A settled tool call: the label of its line, its answer, and whether it failed. -/
structure Settled where
  label : List Char
  body : List Char
  failed : Bool
  deriving DecidableEq

/-- `poll_tool` for a transfer; `none` while it has to wait. An edit has its diff in `note`. -/
def poll_transfer (target : List Char) (note : Option (List Char)) (busy : Bool)
    (status : List Char) : Option Settled :=
  if busy then none
  else
    let failed := speaks_of_failure status
    match note with
    | some note =>
      let body :=
        if failed then note ++ "\n\n[upload failed: ".toList ++ status ++ "]".toList else note
      some ⟨"edit ".toList ++ target, body, failed⟩
    | none =>
      let body :=
        if status = [] then "Wrote ".toList ++ target ++ ".".toList
        else if failed then status
        else "Wrote ".toList ++ target ++ ". ".toList ++ status
      some ⟨"write ".toList ++ target, body, failed⟩

/-- The verdict is read off the status line alone. -/
theorem poll_transfer_failed {target status : List Char} {note : Option (List Char)} {busy : Bool}
    {settled : Settled} (h : poll_transfer target note busy status = some settled) :
    settled.failed = speaks_of_failure status := by
  unfold poll_transfer at h
  cases note <;>
  · dsimp only at h
    split at h
    · exact nomatch h
    · exact (congrArg Settled.failed (Option.some.inj h)).symm

/-! ## Status lines -/

theorem infix_append_of_disjoint {needle a b : List Char} (hne : needle ≠ [])
    (h : ∀ c ∈ needle, c ∉ b) : needle <:+: a ++ b ↔ needle <:+: a := by
  refine ⟨?_, fun h => h.trans (List.prefix_append a b).isInfix⟩
  rintro ⟨before, after, heq⟩
  rcases List.append_eq_append_iff.mp heq with ⟨rest, ha, -⟩ | ⟨rest, hbefore, hb⟩
  · exact ⟨before, rest, ha.symm⟩
  · -- the last character of the needle would lie in the second part
    cases hrest : rest with
    | nil => exact ⟨before, [], by rw [List.append_nil, hbefore, hrest, List.append_nil]⟩
    | cons c cs =>
      have hrest_ne : rest ≠ [] := by simp [hrest]
      have hlast := congrArg List.getLast? hbefore
      rw [List.getLast?_append_of_ne_nil _ hne, List.getLast?_append_of_ne_nil _ hrest_ne,
        List.getLast?_eq_getLast_of_ne_nil hne, List.getLast?_eq_getLast_of_ne_nil hrest_ne] at hlast
      have hmem : needle.getLast hne ∈ b := by
        rw [Option.some.inj hlast, hb]
        exact List.mem_append_left _ (List.getLast_mem hrest_ne)
      exact absurd hmem (h _ (List.getLast_mem hne))

/-- The characters a size is shown with. -/
def SIZE_CHARS : List Char :=
  ['0', '1', '2', '3', '4', '5', '6', '7', '8', '9', ' ', '.', 'B', 'K', 'M', 'G', 'T', '(', ')']

def is_size_char (c : Char) : Bool := SIZE_CHARS.contains c

theorem is_size_char_of_isDigit {c : Char} (h : c.isDigit) : is_size_char c := by
  have hc : c = Char.ofNat c.toNat := (Char.ofNat_toNat c).symm
  obtain ⟨hlow, hhigh⟩ : 48 ≤ c.toNat ∧ c.toNat ≤ 57 := by
    simpa [Char.isDigit, UInt32.le_iff_toNat_le] using h
  rw [hc]
  generalize c.toNat = n at hlow hhigh
  interval_cases n <;> decide

theorem digits_size_chars (n : ℕ) : (toString n).toList.all is_size_char := by
  rw [List.all_eq_true]
  intro c hc
  have hdigits : (toString n).toList = Nat.toDigits 10 n := Nat.toList_repr
  rw [hdigits] at hc
  exact is_size_char_of_isDigit (Nat.isDigit_of_mem_toDigits (by omega) (Nat.le_refl _) hc)

theorem unit_size_chars (unit : ℕ) : (UNITS.getD unit "").toList.all is_size_char := by
  match unit with
  | 0 | 1 | 2 | 3 | 4 => decide
  | unit + 5 => simp [UNITS]

theorem format_size_chars (bytes : ℕ) : (format_size bytes).toList.all is_size_char := by
  have hdot : ".".toList.all is_size_char := by decide
  have hblank : " ".toList.all is_size_char := by decide
  have hbytes : " B".toList.all is_size_char := by decide
  have hshown : ∀ text : String, toString text = text := fun _ => rfl
  unfold format_size
  dsimp only
  split
  · simp only [hshown, String.toList_append, List.all_append, digits_size_chars, hbytes,
      Bool.and_self]
  · simp only [hshown, String.toList_append, List.all_append, digits_size_chars, unit_size_chars,
      hdot, hblank, Bool.and_self]

theorem not_mem_failure_words :
    SIZE_CHARS.all (fun c => (Text.char_to_lowercase c).all fun l =>
      FAILURE_WORDS.all fun word => !word.contains l) := by
  decide

theorem speaks_of_failure_append (text : List Char) {size : List Char}
    (h : size.all is_size_char) : speaks_of_failure (text ++ size) = speaks_of_failure text := by
  have hwords : FAILURE_WORDS.all fun word => !word.isEmpty := by decide
  have hword : ∀ word ∈ FAILURE_WORDS,
      Text.contains (Text.to_lowercase (text ++ size)) word =
        Text.contains (Text.to_lowercase text) word := by
    intro word hmem
    have hne : word ≠ [] := by simpa using List.all_eq_true.mp hwords word hmem
    rw [Bool.eq_iff_iff, Text.contains_iff, Text.contains_iff, Text.to_lowercase, Text.to_lowercase,
      List.flatMap_append]
    refine infix_append_of_disjoint hne fun l hl hsize => ?_
    obtain ⟨c, hc, hlc⟩ := List.mem_flatMap.mp hsize
    have hchar : c ∈ SIZE_CHARS := List.contains_iff_mem.mp (List.all_eq_true.mp h c hc)
    have hlower := List.all_eq_true.mp (List.all_eq_true.mp not_mem_failure_words c hchar) l hlc
    have hnot := List.all_eq_true.mp hlower word hmem
    rw [List.contains_iff_mem.mpr hl] at hnot
    exact nomatch hnot
  unfold speaks_of_failure
  rw [Bool.eq_iff_iff, List.any_eq_true, List.any_eq_true]
  exact exists_congr fun word => and_congr_right fun hmem => by rw [hword word hmem]

/-- The size at the end of a status line is no failure. -/
theorem speaks_of_failure_transferred (path : String) (bytes : ℕ) :
    speaks_of_failure s!"{path} ({format_size bytes})".toList =
      speaks_of_failure path.toList := by
  have hopening : " (".toList.all is_size_char := by decide
  have hclosing : ")".toList.all is_size_char := by decide
  have hline : s!"{path} ({format_size bytes})".toList =
      path.toList ++ (" (".toList ++ ((format_size bytes).toList ++ ")".toList)) := by
    simp only [String.toList_append, List.append_assoc]
    rfl
  rw [hline]
  refine speaks_of_failure_append _ ?_
  simp only [List.all_append, hopening, format_size_chars, hclosing, Bool.and_self]

/-! ## The fate of an upload -/

/-- A session, with what became of one upload: its request, if it was accepted; whether its answer,
once taken, was `Transferred`; and whether the status line is the one that answer left. -/
structure Watch where
  session : Session
  upload : Option Ticket
  landed : Option Bool := none
  own : Bool := false

/-- The session once the agent has asked it to write a file. -/
def Watch.start (s : Session) (path : String) (content : FileMap.Bytes) : Watch :=
  { session := s.write_file path content
    upload := if s.can_browse_files then some s.files.accepted.length else none }

def transferred : TryRecv (Except String SftpOutcome) → Bool
  | .ok (.ok (.transferred _)) => true
  | _ => false

theorem exists_of_transferred {answer : TryRecv (Except String SftpOutcome)}
    (h : transferred answer = true) : ∃ bytes, answer = .ok (.ok (.transferred bytes)) := by
  unfold transferred at h
  split at h
  · exact ⟨_, rfl⟩
  · exact nomatch h

/-- A poll takes the answer of the upload. -/
def Watch.Takes (w : Watch) (a : Answers) : Prop :=
  w.session.files.pack = none ∧ w.session.files.pending = w.upload ∧ w.upload ≠ none ∧
    a.answer ≠ .empty

instance (w : Watch) (a : Answers) : Decidable (w.Takes a) :=
  inferInstanceAs (Decidable (_ ∧ _ ∧ _ ∧ _))

/-- A step of the session. The upload is described by its path, unless a request that took its place
in the slot has taken the description too. -/
def step (path : String) (w : Watch) (a : Step) : Watch :=
  let session := Files.step w.session a
  let kept := w.own && session.files.status = w.session.files.status
  match a with
  | .poll_files answers =>
    if w.Takes answers then
      { w with
        session
        landed := some (transferred answers.answer)
        own := transferred answers.answer && w.session.files.job = some (.transfer path) }
    else { w with session, own := kept }
  | _ => { w with session, own := kept }

/-! ## The status line of a transfer that landed -/

theorem start_next_transfer_status (s : Session) :
    s.start_next_transfer.files.status = s.files.status := by
  unfold Session.start_next_transfer
  split
  · rfl
  · split
    · rfl
    · dsimp only
      split <;> rfl

theorem start_file_request_status (s : Session) (path : String) :
    (s.start_file_request path).files.status = s.files.status := by
  unfold Session.start_file_request
  split <;> rfl

theorem poll_status {f : RemoteFiles} {ticket : Ticket} {done : String} {bytes : ℕ} {a : Answers}
    (hpack : f.pack = none) (hpending : f.pending = some ticket)
    (hjob : f.job = some (.transfer done)) (ha : a.answer = .ok (.ok (.transferred bytes))) :
    (f.poll a).2.status = some s!"{done} ({format_size bytes})" := by
  have hledger := f.take_progress_ledger a.progress
  unfold RemoteFiles.poll
  generalize f.take_progress a.progress = g at hledger ⊢
  have hgpack : g.pack = none := (congrArg Ledger.pack hledger).trans hpack
  have hgpending : g.pending = some ticket := (congrArg Ledger.pending hledger).trans hpending
  have hgjob : g.job = some (.transfer done) := (congrArg Ledger.job hledger).trans hjob
  simp only [hgpack, hgpending, RemoteFiles.poll_pending, ha]
  simp [RemoteFiles.completed_before_stop, hgjob, RemoteFiles.apply_outcome, RemoteFiles.log,
    RemoteFiles.forget_content]

/-- **The status line of a transfer that landed** names it. -/
theorem poll_files_status {s : Session} {ticket : Ticket} {done : String} {bytes : ℕ} {a : Answers}
    (hpack : s.files.pack = none) (hpending : s.files.pending = some ticket)
    (hjob : s.files.job = some (.transfer done)) (ha : a.answer = .ok (.ok (.transferred bytes))) :
    (s.poll_files a).files.status = some s!"{done} ({format_size bytes})" := by
  have hledger := RemoteFiles.poll_listing_ledger s.files a.listing
  have hpoll : ((s.files.poll_listing a.listing).poll a).2.status =
      some s!"{done} ({format_size bytes})" :=
    poll_status ((congrArg Ledger.pack hledger).trans hpack)
      ((congrArg Ledger.pending hledger).trans hpending)
      ((congrArg Ledger.job hledger).trans hjob) ha
  unfold Session.poll_files
  generalize (s.files.poll_listing a.listing).poll a = out at hpoll ⊢
  obtain ⟨landed, files⟩ := out
  have hnext := (start_next_transfer_status { s with files }).trans hpoll
  dsimp only
  split
  · exact hnext
  · split
    · exact (start_file_request_status _ _).trans hnext
    · exact hnext

/-! ## Runs -/

/-- The status line is what the upload left: its path and a size. -/
def Watch.Sound (path : String) (w : Watch) : Prop :=
  w.own = true → w.landed = some true ∧
    ∃ bytes, w.session.files.status = some s!"{path} ({format_size bytes})"

theorem step_sound (path : String) (w : Watch) (a : Step) (hw : w.Sound path) :
    (step path w a).Sound path := by
  have hkept : ∀ session : Session,
      { w with session, own := w.own && session.files.status = w.session.files.status }.Sound
        path := by
    intro session hown
    obtain ⟨hown, hstatus⟩ := Bool.and_eq_true_iff.mp hown
    obtain ⟨hlanded, bytes, hbytes⟩ := hw hown
    exact ⟨hlanded, bytes, (of_decide_eq_true hstatus).trans hbytes⟩
  cases a with
  | poll_files answers =>
    simp only [step]
    split
    · rename_i htakes
      intro hown
      obtain ⟨hpack, hpending, hupload, -⟩ := htakes
      obtain ⟨htransferred, hjob⟩ := Bool.and_eq_true_iff.mp hown
      obtain ⟨ticket, hticket⟩ := Option.ne_none_iff_exists'.mp hupload
      obtain ⟨bytes, hanswer⟩ := exists_of_transferred htransferred
      exact ⟨congrArg some htransferred, bytes,
        poll_files_status hpack (hpending.trans hticket) (of_decide_eq_true hjob) hanswer⟩
    · exact hkept _
  | _ => exact hkept _

/-- The session as the agent finds it. -/
def Watch.found (w : Watch) (connected : Bool) : Option Session :=
  if connected then some w.session else none

/-- The status line the agent reads; a session that is gone has none. -/
def Watch.status_line (w : Watch) (connected : Bool) : List Char :=
  (((w.found connected).bind (·.transfer_status)).getD "").toList

/-- The agent writes a file and the upload is answered; nothing else happens. -/
def written (path : String) (answer : Except String SftpOutcome) : Watch :=
  StepRun.run (step path) (.start { backend := .ssh } path [])
    [.poll_files { answer := .ok answer }]

/-- What the agent makes of it. -/
def written_settled (path : String) (answer : Except String SftpOutcome) : Option Settled :=
  let w := written path answer
  poll_transfer path.toList none ((w.found true).any (·.is_transferring)) (w.status_line true)

end WaSSH.Agent.Transfer
