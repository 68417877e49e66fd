import WaSSH.Lib.Columns
import WaSSH.Lib.Lines
import WaSSH.Lib.Lowercase
import WaSSH.Lib.Shell

/-!
# Remote sessions

A terminal may open in a tmux or screen session: a probe lists the sessions of the remote host, and
a plan says what to run instead of a login shell.

* `classify`, `find_session`, `plan`: the probe's output read, and the command chosen;
* `Listing`: what the two programs print, with `find_session_stdout`: what is read of it;
* `words_plan`: a command names the session in one word;
* **`session_told_iff`**: a session is told to be attached, and left alone, exactly when the first
  line that reads as its name shows how things are; `legible_screen_iff`: of plain names, when that
  is.
-/

namespace WaSSH.Ssh.RemoteSession

open Text Lowercase

/-! ## Reading the probe -/

inductive Multiplexer
  | tmux
  | screen
  deriving DecidableEq

inductive BusyPolicy
  | do_not_attach
  | share
  | force_detach
  deriving DecidableEq

/-- What the probe found on the remote host. -/
inductive Presence
  | missing
  | attached
  | detached
  | unknown
  | unavailable
  deriving DecidableEq

/-- `str::to_ascii_lowercase`. -/
def lower (t : List Char) : List Char := t.map to_ascii_lowercase

/-- What a line says behind a session's name. -/
def shows_attached (rest : List Char) : Bool := contains (lower rest) "(attached)".toList

def presence (attached : Bool) : Presence := if attached then .attached else .detached

/-- A line of `tmux list-sessions`, if it is about the session. -/
def read_tmux (session line : List Char) : Option Presence :=
  match split_once ':' line with
  | none => none
  | some (name, rest) =>
    if trim name ≠ session then none else some (presence (shows_attached rest))

/-- A line of `screen -ls`, if it is about the session. -/
def read_screen (session line : List Char) : Option Presence :=
  match split_once '.' (trim_start line) with
  | none => none
  | some (id, rest) =>
    if id.isEmpty ∨ ¬ id.all Char.isDigit then none
    else
      match (split_whitespace rest).head? with
      | none => none
      | some name => if name ≠ session then none else some (presence (shows_attached rest))

def read_line : Multiplexer → List Char → List Char → Option Presence
  | .tmux => read_tmux
  | .screen => read_screen

def find_session (kind : Multiplexer) (session stdout : List Char) : Option Presence :=
  (lines stdout).findSome? (read_line kind session)

/-- Interpret the output of the probe. -/
def classify (kind : Multiplexer) (session : List Char) (exit_status : Option UInt32)
    (stdout stderr : List Char) : Presence :=
  if exit_status = some 127 then .unavailable
  else
    match find_session kind session stdout with
    | some found => found
    | none =>
      let combined := lower (stdout ++ '\n' :: stderr)
      if contains combined "no server running".toList ∨
          contains combined "no sockets found".toList ∨
          contains combined "error connecting to".toList ∨ (trim stdout).isEmpty then .missing
      else if contains (lower stderr) "command not found".toList ∨
          contains (lower stderr) "not found".toList then .unavailable
      else .unknown

/-! ## The plan -/

/-- What to run instead of a plain login shell, and a note for the user. -/
structure RemotePlan where
  command : Option (List Char)
  message : Option (List Char)

def multiplexer_label : Multiplexer → List Char
  | .tmux => "tmux".toList
  | .screen => "screen".toList

def shell_single_quote (value : List Char) : List Char := Shell.quote value

/-- The command that attaches to a session, or creates it. -/
def attach_command (kind : Multiplexer) (session : List Char) (busy : BusyPolicy) : List Char :=
  let quoted := shell_single_quote session
  match kind, busy with
  | .tmux, .share => "tmux new-session -A -s ".toList ++ quoted
  | .tmux, .force_detach => "tmux new-session -A -D -s ".toList ++ quoted
  | .tmux, .do_not_attach => "tmux new-session -s ".toList ++ quoted
  | .screen, .share => "screen -S ".toList ++ quoted ++ " -xR".toList
  | .screen, .force_detach => "screen -S ".toList ++ quoted ++ " -d -RR".toList
  | .screen, .do_not_attach => "screen -S ".toList ++ quoted

/-- The command that attaches to a session that exists. -/
def reattach_command (kind : Multiplexer) (session : List Char) : List Char :=
  let quoted := shell_single_quote session
  match kind with
  | .tmux => "tmux attach-session -t ".toList ++ quoted
  | .screen => "screen -S ".toList ++ quoted ++ " -r".toList

/-- Decide what to run, given what the probe found. -/
def plan (kind : Multiplexer) (session : List Char) (busy : BusyPolicy) (presence : Presence) :
    RemotePlan :=
  if presence = .unavailable then
    ⟨none, some (multiplexer_label kind ++
      " is not installed on the remote host; opening a plain shell.".toList)⟩
  else if busy = .share ∨ busy = .force_detach then ⟨some (attach_command kind session busy), none⟩
  else
    match presence with
    | .attached => ⟨none, some (multiplexer_label kind ++ " session '".toList ++ session ++
        "' is already attached elsewhere; opening a plain shell.".toList)⟩
    | .detached => ⟨some (reattach_command kind session), none⟩
    | _ => ⟨some (attach_command kind session .do_not_attach), none⟩

/-! ## What is printed -/

/-- A text within a line. -/
def InLine (t : List Char) : Prop := '\n' ∉ t ∧ '\r' ∉ t

instance decidableInLine (t : List Char) : Decidable (InLine t) :=
  inferInstanceAs (Decidable (_ ∧ _))

/-- A session as tmux lists it: its name, its windows and when it was created. -/
structure TmuxLine where
  name : List Char
  info : List Char
  attached : Bool
  name_in_line : InLine name
  info_in_line : InLine info
  /-- A colon in a name is replaced when the session is created. -/
  no_colon : ':' ∉ name

/-- What tmux prints behind the colon. -/
def TmuxLine.rest (l : TmuxLine) : List Char :=
  l.info ++ if l.attached then " (attached)".toList else []

def TmuxLine.text (l : TmuxLine) : List Char := l.name ++ ':' :: l.rest

/-- The states that screen tells apart. -/
inductive ScreenState
  | attached
  | detached
  /-- A session for several users, with a client. -/
  | multi_attached
  | multi_detached
  deriving DecidableEq

namespace ScreenState

def text : ScreenState → List Char
  | attached => "(Attached)".toList
  | detached => "(Detached)".toList
  | multi_attached => "(Multi, attached)".toList
  | multi_detached => "(Multi, detached)".toList

/-- A client is attached. -/
def is_attached : ScreenState → Bool
  | attached | multi_attached => true
  | detached | multi_detached => false

end ScreenState

/-- A session as screen lists it; some versions print when it was created. -/
structure ScreenLine where
  pid : List Char
  name : List Char
  info : List Char
  state : ScreenState
  pid_ne_nil : pid ≠ []
  pid_digits : ∀ c ∈ pid, c.isDigit
  name_in_line : InLine name
  info_in_line : InLine info

/-- What screen prints behind the number of the process. -/
def ScreenLine.rest (l : ScreenLine) : List Char := l.name ++ '\t' :: (l.info ++ l.state.text)

def ScreenLine.text (l : ScreenLine) : List Char := '\t' :: (l.pid ++ '.' :: l.rest)

/-- A line that screen prints above or below the sessions: blank, or a sentence. -/
structure Note where
  text : List Char
  in_line : InLine text
  prose : (∀ c ∈ text, is_whitespace c) ∨
    ∃ c ∈ text.takeWhile (· ≠ '.'), ¬ is_whitespace c ∧ ¬ c.isDigit

/-- A session as it is, and as a line reads. -/
structure Listed where
  name : List Char
  attached : Bool
  /-- What is read as its name. -/
  word : Option (List Char)
  /-- What is read as its state. -/
  shown : Bool

/-- What a probe prints. -/
inductive Listing
  | tmux (sessions : List TmuxLine)
  | screen (lines : List (Note ⊕ ScreenLine))

def TmuxLine.listed (l : TmuxLine) : Listed :=
  ⟨l.name, l.attached, some (trim l.name), shows_attached l.rest⟩

def ScreenLine.listed (l : ScreenLine) : Listed :=
  ⟨l.name, l.state.is_attached, (split_whitespace l.rest).head?, shows_attached l.rest⟩

namespace Listing

def kind : Listing → Multiplexer
  | tmux _ => .tmux
  | screen _ => .screen

/-- Its lines, with the session each is about. -/
def lines : Listing → List (List Char × Option Listed)
  | tmux sessions => sessions.map fun l => (l.text, some l.listed)
  | screen ls => ls.map fun
    | .inl note => (note.text, none)
    | .inr l => (l.text, some l.listed)

/-- The output, its lines ended as screen ends them or as tmux does. -/
def stdout (listing : Listing) (returns : Bool) : List Char :=
  (listing.lines.map fun l => l.1 ++ if returns then ['\r'] else []).flatMap (· ++ ['\n'])

def sessions (listing : Listing) : List Listed := listing.lines.filterMap Prod.snd

end Listing

/-! ## What is read -/

theorem inLine_append {t u : List Char} (ht : InLine t) (hu : InLine u) : InLine (t ++ u) :=
  ⟨fun h => (List.mem_append.mp h).elim ht.1 hu.1, fun h => (List.mem_append.mp h).elim ht.2 hu.2⟩

theorem inLine_cons {c : Char} {t : List Char} (hc : c ≠ '\n' ∧ c ≠ '\r') (ht : InLine t) :
    InLine (c :: t) :=
  ⟨fun h => (List.mem_cons.mp h).elim (fun h => hc.1 h.symm) ht.1,
    fun h => (List.mem_cons.mp h).elim (fun h => hc.2 h.symm) ht.2⟩

theorem TmuxLine.in_line (l : TmuxLine) : InLine l.text := by
  refine inLine_append l.name_in_line (inLine_cons (by decide) (inLine_append l.info_in_line ?_))
  cases l.attached <;> decide

theorem inLine_of_digits {t : List Char} (h : ∀ c ∈ t, c.isDigit) : InLine t :=
  ⟨fun hc => absurd (h _ hc) (by decide), fun hc => absurd (h _ hc) (by decide)⟩

theorem ScreenLine.in_line (l : ScreenLine) : InLine l.text := by
  refine inLine_cons (by decide) (inLine_append (inLine_of_digits l.pid_digits) ?_)
  refine inLine_cons (by decide) (inLine_append l.name_in_line (inLine_cons (by decide) ?_))
  refine inLine_append l.info_in_line ?_
  cases l.state <;> decide

theorem Listing.in_line (listing : Listing) : ∀ l ∈ listing.lines, InLine l.1 := by
  intro l hl
  cases listing with
  | tmux sessions =>
    obtain ⟨s, -, rfl⟩ := List.mem_map.mp hl
    exact s.in_line
  | screen ls =>
    obtain ⟨note | s, -, rfl⟩ := List.mem_map.mp hl
    · exact note.in_line
    · exact s.in_line

theorem lines_stdout (listing : Listing) (returns : Bool) :
    Text.lines (listing.stdout returns) = listing.lines.map Prod.fst := by
  have hin := listing.in_line
  rw [Listing.stdout, Lines.lines_written, List.map_map]
  · refine List.map_congr_left fun l hl => ?_
    show Lines.strip_return (l.1 ++ _) = l.1
    cases returns with
    | false =>
      rw [if_neg Bool.false_ne_true, List.append_nil, Lines.strip_return_eq_self_iff]
      exact fun h => (hin l hl).2 (List.mem_of_getLast? h)
    | true =>
      rw [if_pos rfl, Lines.strip_return, if_pos List.getLast?_concat, List.dropLast_concat]
  · intro line hline
    obtain ⟨l, hl, rfl⟩ := List.mem_map.mp hline
    refine fun h => (List.mem_append.mp h).elim (hin l hl).1 ?_
    cases returns <;> decide

/-- What a line about a session says of a session. -/
def Listed.read (session : List Char) (l : Listed) : Option Presence :=
  if l.word = some session then some (presence l.shown) else none

theorem read_word (word session : List Char) (p : Presence) :
    (if word ≠ session then none else some p) =
      if some word = some session then some p else none := by
  by_cases h : word = session
  · rw [if_neg (not_not_intro h), if_pos (congrArg some h)]
  · rw [if_pos h, if_neg fun heq => h (Option.some_inj.mp heq)]

theorem read_tmux_text (session : List Char) (l : TmuxLine) :
    read_tmux session l.text = l.listed.read session := by
  unfold read_tmux Listed.read
  rw [TmuxLine.text, split_once_append l.no_colon]
  exact read_word (trim l.name) session _

theorem read_screen_text (session : List Char) (l : ScreenLine) :
    read_screen session l.text = l.listed.read session := by
  have htrim : trim_start l.text = l.pid ++ '.' :: l.rest := by
    obtain ⟨c, pid, hpid⟩ := List.exists_cons_of_ne_nil l.pid_ne_nil
    have hdigit := isDigit_toNat (l.pid_digits c (hpid ▸ List.mem_cons_self))
    have hc : is_whitespace c = false := not_is_whitespace (by omega)
    unfold trim_start ScreenLine.text
    rw [List.dropWhile_cons_of_pos (by decide), hpid, List.cons_append, List.dropWhile_cons_of_neg]
    rw [hc]
    exact Bool.false_ne_true
  have hdot : '.' ∉ l.pid := fun h => absurd (l.pid_digits _ h) (by decide)
  have hid : ¬ (l.pid.isEmpty = true ∨ ¬ l.pid.all Char.isDigit = true) := by
    rintro (h | h)
    · exact l.pid_ne_nil (List.isEmpty_iff.mp h)
    · exact h (List.all_eq_true.mpr l.pid_digits)
  unfold read_screen Listed.read
  rw [htrim, split_once_append hdot]
  dsimp only
  rw [if_neg hid]
  show _ = if (split_whitespace l.rest).head? = some session then _ else none
  cases (split_whitespace l.rest).head? with
  | none => rfl
  | some word => exact read_word word session _

theorem dropWhile_takeWhile_dot {c : Char} {t : List Char} (h : c ∈ t.takeWhile (· ≠ '.'))
    (hc : ¬ is_whitespace c) : c ∈ (trim_start t).takeWhile (· ≠ '.') := by
  unfold trim_start
  induction t with
  | nil => exact h
  | cons d t ih =>
    by_cases hd : is_whitespace d
    · have hdot : d ≠ '.' := fun heq => absurd (heq ▸ hd) (by decide)
      rw [List.takeWhile_cons, if_pos (decide_eq_true hdot)] at h
      rw [List.dropWhile_cons_of_pos hd]
      refine ih ((List.mem_cons.mp h).resolve_left ?_)
      rintro rfl
      exact hc hd
    · rwa [List.dropWhile_cons_of_neg hd]

theorem read_screen_note (session : List Char) (note : Note) :
    read_screen session note.text = none := by
  unfold read_screen
  cases hsplit : split_once '.' (trim_start note.text) with
  | none => rfl
  | some p =>
    have hid : p.1 = (trim_start note.text).takeWhile (· ≠ '.') := by
      unfold split_once at hsplit
      split at hsplit
      · cases hsplit
      · cases hsplit
        rfl
    dsimp only
    refine if_pos ?_
    rcases note.prose with hblank | ⟨c, hc, hwhite, hdigit⟩
    · left
      rw [hid, trim_start, List.dropWhile_eq_nil_iff.mpr hblank]
      rfl
    · right
      rw [List.all_eq_true]
      intro hall
      exact hdigit (hall c (hid ▸ dropWhile_takeWhile_dot hc hwhite))

/-- What is found is what the first line that reads as the name says. -/
theorem findSome_listed (session : List Char) (f : List Char → Option Presence) :
    ∀ ls : List (List Char × Option Listed), (∀ l ∈ ls, f l.1 = l.2.bind (Listed.read session)) →
      (ls.map Prod.fst).findSome? f =
        ((ls.filterMap Prod.snd).find? fun l => l.word = some session).map (presence ·.shown)
  | [], _ => rfl
  | (text, none) :: ls, h => by
    obtain ⟨hl, hls⟩ := List.forall_mem_cons.mp h
    rw [List.map_cons, List.findSome?_cons, hl, List.filterMap_cons_none rfl,
      ← findSome_listed session f ls hls]
    rfl
  | (text, some l) :: ls, h => by
    obtain ⟨hl, hls⟩ := List.forall_mem_cons.mp h
    have hcons : ((text, some l) :: ls).filterMap Prod.snd = l :: ls.filterMap Prod.snd := rfl
    have hread : f text = Listed.read session l := hl
    rw [List.map_cons, List.findSome?_cons, hread, hcons, List.find?_cons]
    unfold Listed.read
    by_cases hword : l.word = some session
    · rw [if_pos hword, decide_eq_true hword]
      rfl
    · rw [if_neg hword, decide_eq_false hword]
      exact findSome_listed session f ls hls

/-- **What is read of a listing.** -/
theorem find_session_stdout (listing : Listing) (returns : Bool) (session : List Char) :
    find_session listing.kind session (listing.stdout returns) =
      (listing.sessions.find? fun l => l.word = some session).map (presence ·.shown) := by
  unfold find_session
  rw [lines_stdout]
  refine findSome_listed session _ _ fun l hl => ?_
  cases listing with
  | tmux sessions =>
    obtain ⟨s, -, rfl⟩ := List.mem_map.mp hl
    exact read_tmux_text session s
  | screen ls =>
    obtain ⟨note | s, -, rfl⟩ := List.mem_map.mp hl
    · exact read_screen_note session note
    · exact read_screen_text session s

/-! ## The words of a command -/

/-- A command with plain words before and after a session's name. -/
def spelled (tool : List Char) (before after : List (List Char)) (session : List Char) :
    List Char :=
  tool ++ (before.flatMap (' ' :: ·) ++ (' ' :: Shell.quote session ++ after.flatMap (' ' :: ·)))

theorem words_spelled {tool : List Char} {before after : List (List Char)}
    (htool : Shell.PlainWord tool) (hbefore : ∀ w ∈ before, Shell.PlainWord w)
    (hafter : ∀ w ∈ after, Shell.PlainWord w) (session : List Char) :
    Shell.words (spelled tool before after session) =
      some (tool :: before ++ session :: after) := by
  refine Shell.words_of_spells htool (Shell.spells_append (Shell.spells_plains hbefore) ?_)
  exact Shell.spells_append (Shell.spells_quote session) (Shell.spells_plains hafter)

/-- The words of a command before the session's name, but for the program: those of the command
that attaches under a policy, or of the one that attaches to a session that exists. -/
def before : Multiplexer → Option BusyPolicy → List (List Char)
  | .tmux, some .share => ["new-session".toList, "-A".toList, "-s".toList]
  | .tmux, some .force_detach => ["new-session".toList, "-A".toList, "-D".toList, "-s".toList]
  | .tmux, some .do_not_attach => ["new-session".toList, "-s".toList]
  | .tmux, none => ["attach-session".toList, "-t".toList]
  | .screen, _ => ["-S".toList]

/-- The words after it. -/
def after : Multiplexer → Option BusyPolicy → List (List Char)
  | .tmux, _ => []
  | .screen, some .share => ["-xR".toList]
  | .screen, some .force_detach => ["-d".toList, "-RR".toList]
  | .screen, some .do_not_attach => []
  | .screen, none => ["-r".toList]

/-- The words of a command. -/
def argv (kind : Multiplexer) (busy : Option BusyPolicy) (session : List Char) :
    List (List Char) :=
  multiplexer_label kind :: before kind busy ++ session :: after kind busy

theorem words_argv (kind : Multiplexer) (busy : Option BusyPolicy) (session : List Char) :
    Shell.words (spelled (multiplexer_label kind) (before kind busy) (after kind busy) session) =
      some (argv kind busy session) := by
  refine words_spelled ?_ ?_ ?_ session
  · cases kind <;> decide +kernel
  · rcases kind with _ | _ <;> rcases busy with _ | _ | _ | _ <;> decide +kernel
  · rcases kind with _ | _ <;> rcases busy with _ | _ | _ | _ <;> decide +kernel

/-- A command read as its words. -/
theorem words_of_eq {kind : Multiplexer} {busy : Option BusyPolicy} {front back : List Char}
    (hfront : front = multiplexer_label kind ++ (before kind busy).flatMap (' ' :: ·) ++ [' '])
    (hback : back = (after kind busy).flatMap (' ' :: ·)) (session : List Char) :
    Shell.words (front ++ Shell.quote session ++ back) = some (argv kind busy session) := by
  rw [← words_argv, hfront, hback, spelled, List.append_assoc, List.append_assoc, List.append_assoc]
  rfl

theorem words_of_eq_nil {kind : Multiplexer} {busy : Option BusyPolicy} {front : List Char}
    (hfront : front = multiplexer_label kind ++ (before kind busy).flatMap (' ' :: ·) ++ [' '])
    (hback : [] = (after kind busy).flatMap (' ' :: ·)) (session : List Char) :
    Shell.words (front ++ Shell.quote session) = some (argv kind busy session) := by
  rw [← words_of_eq hfront hback session, List.append_nil]

theorem words_attach_command (kind : Multiplexer) (session : List Char) (busy : BusyPolicy) :
    Shell.words (attach_command kind session busy) = some (argv kind (some busy) session) := by
  cases kind with
  | tmux => cases busy <;> exact words_of_eq_nil (by decide +kernel) rfl session
  | screen =>
    cases busy with
    | do_not_attach => exact words_of_eq_nil (by decide +kernel) rfl session
    | share => exact words_of_eq (by decide +kernel) (by decide +kernel) session
    | force_detach => exact words_of_eq (by decide +kernel) (by decide +kernel) session

theorem words_reattach_command (kind : Multiplexer) (session : List Char) :
    Shell.words (reattach_command kind session) = some (argv kind none session) := by
  cases kind with
  | tmux => exact words_of_eq_nil (by decide +kernel) rfl session
  | screen => exact words_of_eq (by decide +kernel) (by decide +kernel) session

/-- **A planned command** has a session's name as one word of it. -/
theorem words_plan (kind : Multiplexer) (busy : BusyPolicy) (presence : Presence) :
    ∃ front back, ∀ session command, (plan kind session busy presence).command = some command →
      Shell.words command = some (front ++ session :: back) := by
  unfold plan
  split_ifs with hnone hbusy
  · exact ⟨[], [], fun session command h => nomatch h⟩
  · refine ⟨multiplexer_label kind :: before kind (some busy), after kind (some busy),
      fun session command h => ?_⟩
    cases h
    exact words_attach_command kind session busy
  · cases presence with
    | attached => exact ⟨[], [], fun session command h => nomatch h⟩
    | detached =>
      refine ⟨multiplexer_label kind :: before kind none, after kind none,
        fun session command h => ?_⟩
      cases h
      exact words_reattach_command kind session
    | unavailable => exact absurd rfl hnone
    | missing | unknown =>
      refine ⟨multiplexer_label kind :: before kind (some .do_not_attach),
        after kind (some .do_not_attach), fun session command h => ?_⟩
      cases h
      exact words_attach_command kind session .do_not_attach

/-! ## What is told -/

/-- A command attaches to a session that exists, rather than to one it creates. -/
def attaches : List (List Char) → Bool
  | tool :: verb :: rest =>
    if tool = "tmux".toList then verb = "attach-session".toList ∨ rest.head? = some "-A".toList
    else 1 < rest.length
  | _ => false

/-- A session is told to be attached where it is, and detached where it is listed without a client;
under the careful policy it is left alone where it is attached; and every command names it once. -/
structure Told (listing : Listing) (returns : Bool) (session : List Char)
    (exit_status : Option UInt32) (stderr : List Char) : Prop where
  attached : classify listing.kind session exit_status (listing.stdout returns) stderr = .attached ↔
    ∃ l ∈ listing.sessions, l.name = session ∧ l.attached
  detached : (∃ l ∈ listing.sessions, l.name = session) →
    (∀ l ∈ listing.sessions, l.name = session → ¬ l.attached) →
    classify listing.kind session exit_status (listing.stdout returns) stderr = .detached
  careful : (∃ l ∈ listing.sessions, l.name = session ∧ l.attached) → ∀ command words,
    (plan listing.kind session .do_not_attach
      (classify listing.kind session exit_status (listing.stdout returns) stderr)).command =
        some command →
    Shell.words command = some words → ¬ attaches words
  one_word : ∀ busy presence, ∃ front back, ∀ session command,
    (plan listing.kind session busy presence).command = some command →
      Shell.words command = some (front ++ session :: back)

/-- The first session whose line reads as the name shows whether one of that name is attached; where
there is none, or the program is said to be missing, none of that name is listed. -/
def Legible (listing : Listing) (session : List Char) (exit_status : Option UInt32) : Prop :=
  match if exit_status = some 127 then none
    else listing.sessions.find? fun l => l.word = some session with
  | some l => l.shown ↔ ∃ l' ∈ listing.sessions, l'.name = session ∧ l'.attached
  | none => ∀ l ∈ listing.sessions, l.name ≠ session

theorem classify_of_none {kind : Multiplexer} {session stdout stderr : List Char}
    {exit_status : Option UInt32}
    (h : exit_status = some 127 ∨ find_session kind session stdout = none) :
    classify kind session exit_status stdout stderr ≠ .attached ∧
      classify kind session exit_status stdout stderr ≠ .detached := by
  unfold classify
  by_cases hmissing : exit_status = some 127
  · rw [if_pos hmissing]
    exact ⟨nofun, nofun⟩
  · rw [if_neg hmissing, h.resolve_left hmissing]
    dsimp only
    split_ifs <;> exact ⟨nofun, nofun⟩

theorem classify_of_found {kind : Multiplexer} {session stdout stderr : List Char}
    {exit_status : Option UInt32} {found : Presence} (hexit : exit_status ≠ some 127)
    (h : find_session kind session stdout = some found) :
    classify kind session exit_status stdout stderr = found := by
  rw [classify, if_neg hexit, h]

theorem presence_eq (shown : Bool) :
    (presence shown = .attached ↔ shown = true) ∧ (presence shown = .detached ↔ shown = false) := by
  cases shown <;> decide

/-- **A session is told to be attached, and left alone, where its line can be read.** -/
theorem session_told_iff (listing : Listing) (returns : Bool) (session : List Char)
    (exit_status : Option UInt32) (stderr : List Char) :
    Told listing returns session exit_status stderr ↔ Legible listing session exit_status := by
  have hfind := find_session_stdout listing returns session
  unfold Legible
  split
  · next l hl =>
    have hexit : exit_status ≠ some 127 := fun h => by
      rw [if_pos h] at hl
      cases hl
    rw [if_neg hexit] at hl
    rw [hl, Option.map_some] at hfind
    have hclass : classify listing.kind session exit_status (listing.stdout returns) stderr =
        presence l.shown := classify_of_found hexit hfind
    obtain ⟨hattached, hdetached⟩ := presence_eq l.shown
    constructor
    · intro h
      rw [← hattached, ← hclass]
      exact h.attached
    · intro h
      rw [← hattached, ← hclass] at h
      refine ⟨h, fun _ hnone => ?_, fun hsome => ?_,
        fun busy presence => words_plan _ busy presence⟩
      · rw [hclass, hdetached, ← Bool.not_eq_true, ← hattached, ← hclass, h]
        rintro ⟨l', hl', hname, hatt⟩
        exact hnone l' hl' hname hatt
      · rw [h.mpr hsome]
        exact fun command words hcommand => nomatch hcommand
  · next hnone =>
    have hunread : exit_status = some 127 ∨
        find_session listing.kind session (listing.stdout returns) = none := by
      by_cases hexit : exit_status = some 127
      · exact .inl hexit
      · rw [if_neg hexit] at hnone
        rw [hnone] at hfind
        exact .inr hfind
    obtain ⟨hattached, hdetached⟩ :
        classify listing.kind session exit_status (listing.stdout returns) stderr ≠ .attached ∧
          classify listing.kind session exit_status (listing.stdout returns) stderr ≠ .detached :=
      classify_of_none hunread
    constructor
    · intro h l hl hname
      by_cases hatt : ∃ l ∈ listing.sessions, l.name = session ∧ l.attached
      · exact hattached (h.attached.mpr hatt)
      · refine hdetached (h.detached ⟨l, hl, hname⟩ fun l' hl' hname' hatt' => ?_)
        exact hatt ⟨l', hl', hname', hatt'⟩
    · intro h
      refine ⟨iff_of_false hattached ?_, ?_, ?_, fun busy presence => words_plan _ busy presence⟩
      · rintro ⟨l, hl, hname, -⟩
        exact h l hl hname
      · rintro ⟨l, hl, hname⟩
        exact absurd hname (h l hl)
      · rintro ⟨l, hl, hname, -⟩
        exact absurd hname (h l hl)

/-! ## Plain names -/

/-- Where every line reads as the name of its own session, and no name is listed twice, a session's
line is to show what it is. -/
theorem legible_iff_of_named {listing : Listing} {session : List Char} {exit_status : Option UInt32}
    (hword : ∀ l ∈ listing.sessions, l.word = some l.name)
    (hnodup : (listing.sessions.map Listed.name).Nodup) (hexit : exit_status ≠ some 127) :
    Legible listing session exit_status ↔
      ∀ l ∈ listing.sessions, l.name = session → l.shown = l.attached := by
  have hname (l : Listed) (hl : l ∈ listing.sessions) :
      l.word = some session ↔ l.name = session := by rw [hword l hl, Option.some_inj]
  unfold Legible
  rw [if_neg hexit]
  split
  · next l hl =>
    have hmem := List.mem_of_find?_eq_some hl
    have hsession : l.name = session := by
      have := List.find?_some hl
      exact (hname l hmem).mp (of_decide_eq_true this)
    have hsame (l' : Listed) (hl' : l' ∈ listing.sessions) (h : l'.name = session) : l' = l :=
      List.inj_on_of_nodup_map hnodup hl' hmem (h.trans hsession.symm)
    have hattached : (∃ l' ∈ listing.sessions, l'.name = session ∧ l'.attached) ↔ l.attached := by
      constructor
      · rintro ⟨l', hl', hname', h⟩
        rwa [hsame l' hl' hname'] at h
      · exact fun h => ⟨l, hmem, hsession, h⟩
    rw [hattached, Bool.coe_iff_coe]
    constructor
    · intro h l' hl' hname'
      rwa [hsame l' hl' hname']
    · exact fun h => h l hmem hsession
  · next hnone =>
    have hno : ∀ l ∈ listing.sessions, l.name ≠ session := fun l hl h =>
      absurd (decide_eq_true ((hname l hl).mpr h)) (List.find?_eq_none.mp hnone l hl)
    exact iff_of_true hno fun l hl h => absurd h (hno l hl)

theorem not_mem_lower {t : List Char} (h : '(' ∉ t) : '(' ∉ lower t := by
  intro hmem
  obtain ⟨c, hc, heq⟩ := List.mem_map.mp hmem
  by_cases hupper : c.isUpper
  · have hsmall := toNat_to_ascii_lowercase hupper
    have hcode : '('.toNat = 40 := rfl
    rw [isUpper_iff] at hupper
    rw [heq] at hsmall
    omega
  · rw [to_ascii_lowercase, if_neg hupper] at heq
    exact h (heq ▸ hc)

/-- A text begins where its first character is. -/
theorem infix_append_iff {c : Char} {w front back : List Char} (h : c ∉ front) :
    c :: w <:+: front ++ back ↔ c :: w <:+: back := by
  induction front with
  | nil => rfl
  | cons d front ih =>
    rw [List.mem_cons, not_or] at h
    rw [List.cons_append, List.infix_cons_iff, ih h.2, or_iff_right]
    exact fun hstart => h.1 (List.cons_prefix_cons.mp hstart).1

/-- **A screen line** without parentheses of its own shows a client exactly where its session is
attached and not for several users. -/
theorem shows_attached_screen {l : ScreenLine} (hname : '(' ∉ l.name) (hinfo : '(' ∉ l.info) :
    l.listed.shown ↔ l.state = .attached := by
  have hfront : '(' ∉ lower (l.name ++ '\t' :: l.info) := by
    refine not_mem_lower fun h => (List.mem_append.mp h).elim hname fun h => ?_
    exact (List.mem_cons.mp h).elim (by decide) hinfo
  have hrest : lower l.rest = lower (l.name ++ '\t' :: l.info) ++ lower l.state.text := by
    unfold lower ScreenLine.rest
    rw [← List.map_append, List.append_assoc]
    rfl
  have hstates : ∀ state : ScreenState, contains (lower state.text) "(attached)".toList ↔
      state = .attached := fun state => by cases state <;> decide +kernel
  have hneedle : "(attached)".toList = '(' :: "attached)".toList := by decide +kernel
  show shows_attached l.rest = true ↔ _
  rw [← hstates, shows_attached, contains_iff, contains_iff, hrest, hneedle,
    infix_append_iff hfront]

/-- A name without blanks is read whole. -/
theorem word_screen {l : ScreenLine} (hne : l.name ≠ [])
    (hname : ∀ c ∈ l.name, is_whitespace c = false) : l.listed.word = some l.name := by
  show (split_whitespace l.rest).head? = some l.name
  unfold split_whitespace ScreenLine.rest
  rw [List.splitOnP_append_cons_of_forall_mem hname '\t' (by decide), List.filter_cons,
    if_pos (decide_eq_true hne), List.head?_cons]

/-- **A screen session with a plain name**, listed once, is told right exactly where it is not one
for several users with a client attached. -/
theorem legible_screen_iff {ls : List (Note ⊕ ScreenLine)} {session : List Char}
    {exit_status : Option UInt32}
    (hne : ∀ l, .inr l ∈ ls → l.name ≠ [])
    (hname : ∀ l, .inr l ∈ ls → ∀ c ∈ l.name, is_whitespace c = false ∧ c ≠ '(')
    (hinfo : ∀ l, .inr l ∈ ls → '(' ∉ l.info)
    (hnodup : ((Listing.screen ls).sessions.map Listed.name).Nodup)
    (hexit : exit_status ≠ some 127) :
    Legible (.screen ls) session exit_status ↔
      ∀ l, .inr l ∈ ls → l.name = session → l.state ≠ .multi_attached := by
  have hsessions (e : Listed) :
      e ∈ (Listing.screen ls).sessions ↔ ∃ l : ScreenLine, .inr l ∈ ls ∧ l.listed = e := by
    unfold Listing.sessions Listing.lines
    rw [List.mem_filterMap]
    constructor
    · rintro ⟨p, hp, he⟩
      obtain ⟨note | l, hl, rfl⟩ := List.mem_map.mp hp
      · cases he
      · exact ⟨l, hl, Option.some_inj.mp he⟩
    · rintro ⟨l, hl, rfl⟩
      exact ⟨_, List.mem_map.mpr ⟨.inr l, hl, rfl⟩, rfl⟩
  have hword : ∀ e ∈ (Listing.screen ls).sessions, e.word = some e.name := by
    intro e he
    obtain ⟨l, hl, rfl⟩ := (hsessions e).mp he
    exact word_screen (hne l hl) fun c hc => (hname l hl c hc).1
  rw [legible_iff_of_named hword hnodup hexit]
  have hshown (l : ScreenLine) (hl : .inr l ∈ ls) :
      l.listed.shown = l.listed.attached ↔ l.state ≠ .multi_attached := by
    have hshows := shows_attached_screen (fun h => (hname l hl _ h).2 rfl) (hinfo l hl)
    have hattached : l.listed.attached = l.state.is_attached := rfl
    rw [← Bool.coe_iff_coe, hshows, hattached]
    cases l.state <;> decide
  constructor
  · intro h l hl hsession
    exact (hshown l hl).mp (h l.listed ((hsessions _).mpr ⟨l, hl, rfl⟩) hsession)
  · intro h e he hsession
    obtain ⟨l, hl, rfl⟩ := (hsessions e).mp he
    exact (hshown l hl).mpr (h l hl hsession)

/-- A screen session for several users, as screen lists it. -/
def shared_work : Listing :=
  .screen [.inr ⟨"123".toList, "work".toList, [], .multi_attached, by decide,
    List.all_eq_true.mp (by decide), by decide, by decide⟩]

/-- **A session for several users** is told to be detached while a client is attached, and then
attached to. -/
theorem multi_attached_is_told_detached :
    ¬ ∀ listing returns session exit_status stderr,
      Told listing returns session exit_status stderr := by
  intro h
  have hclass :
      classify .screen "work".toList (some 0) (shared_work.stdout true) [] = .detached := by
    decide +kernel
  have hattached := (h shared_work true "work".toList (some 0) []).attached.mpr
    ⟨_, List.mem_cons_self, rfl, rfl⟩
  exact absurd (hattached.symm.trans hclass) (by decide)

end WaSSH.Ssh.RemoteSession
