import WaSSH.Lib.Dialog
import WaSSH.Ssh.Pump
import WaSSH.Telnet.Negotiation
import WaSSH.Telnet.WindowSize

/-!
# The thread of a Telnet connection

What is typed, the answers to the server's requests and the sizes of the window share one
connection, and either end reads it byte by byte.

* `hear`, `heard`: the data in a stream; `Reads`: bytes between commands, with all that is read in
  them;
* `run`: the source; `Call`, `Answer`: what it asks of its world;
* `typed`, `received`, `written`, `told`: what came from the tab and from the server, and what goes
  to them;
* `Relaying`: the thread between two steps; `Ends`: how it ends;
* **`telnet_relays`**: the server hears what was typed, and the tab what the server said, whatever
  is negotiated between them.
-/

namespace WaSSH.Telnet

/-! ## Data in a stream -/

/-- One byte of a stream, and the data it stands for. -/
def hear (s : State) (byte : UInt8) : State × List UInt8 :=
  ((scan s byte).1,
    match s with
    | .data => if byte = IAC then [] else [byte]
    | .iac => if byte = IAC then [IAC] else []
    | _ => [])

/-- The data in a stream. -/
def heard (s : List UInt8) : List UInt8 := (Feed.feed hear .data s).2

/-- A filter hears what is in the stream. -/
theorem step_hear (f : TelnetFilter) (byte : UInt8) :
    hear f.state byte = ((f.step byte).1.state, (f.step byte).2) := by
  refine Prod.ext (step_answers f byte).1.symm ?_
  unfold hear TelnetFilter.step
  cases f.state with
  | data =>
    dsimp only
    split <;> rfl
  | iac =>
    dsimp only
    split_ifs <;> rfl
  | will | wont | «do» | dont => rfl
  | sub =>
    dsimp only
    split <;> rfl
  | sub_iac =>
    dsimp only
    split_ifs <;> rfl

theorem feed_hear (f : TelnetFilter) (s : List UInt8) :
    Feed.feed hear f.state s = ((f.feed s).1.state, (f.feed s).2) :=
  Feed.feed_map TelnetFilter.state step_hear f s

/-- Less of a stream is less of its data. -/
theorem heard_prefix {s t : List UInt8} (h : s <+: t) : heard s <+: heard t := by
  obtain ⟨more, rfl⟩ := h
  rw [heard, heard, Feed.feed_append]
  exact List.prefix_append _ _

/-! ### Pieces -/

/-- Bytes between commands: the data, the commands and the subnegotiations that are read in them. -/
structure Reads (s data : List UInt8) (cs : List (UInt8 × UInt8)) (ps : List (List UInt8)) :
    Prop where
  data : Feed.feed hear .data s = (.data, data)
  commands : Block s cs
  subs : Subs s ps

theorem Reads.append {s t d e : List UInt8} {cs ds : List (UInt8 × UInt8)}
    {ps qs : List (List UInt8)} (hs : Reads s d cs ps) (ht : Reads t e ds qs) :
    Reads (s ++ t) (d ++ e) (cs ++ ds) (ps ++ qs) where
  data := by rw [Feed.feed_append, hs.data, ht.data]
  commands := hs.commands.append ht.commands
  subs := hs.subs.append ht.subs

theorem reads_nil : Reads [] [] [] [] := ⟨rfl, rfl, rfl⟩

theorem reads_start : Reads start [] offers [] := ⟨rfl, rfl, rfl⟩

/-- What is typed is heard, and nothing else. -/
theorem reads_escape (data : List UInt8) : Reads (escape data) data [] [] := by
  induction data with
  | nil => exact reads_nil
  | cons b data ih =>
    have hone : Reads (if b = IAC then [b, IAC] else [b]) [b] [] [] := by
      by_cases hb : b = IAC
      · subst hb
        exact ⟨rfl, rfl, rfl⟩
      · rw [if_neg hb]
        exact ⟨by simp [hear, scan, hb], by simp [Block, scan, hb], by simp [Subs, scan_sub, hb]⟩
    exact hone.append ih

/-- Nothing is heard inside a subnegotiation. -/
theorem feed_hear_sub (s : List UInt8) : Feed.feed hear .sub (escape s) = (.sub, []) := by
  induction s with
  | nil => rfl
  | cons b s ih =>
    have hone : Feed.feed hear .sub (if b = IAC then [b, IAC] else [b]) = (.sub, []) := by
      by_cases hb : b = IAC
      · subst hb
        rfl
      · rw [if_neg hb]
        simp [hear, scan, hb]
    change Feed.feed hear .sub ((if b = IAC then [b, IAC] else [b]) ++ escape s) = _
    rw [Feed.feed_append, hone, ih]
    rfl

theorem reads_naws_payload (f : TelnetFilter) :
    ∃ said, Reads f.naws_payload [] [] [OPT_NAWS :: said] ∧
      window_size (OPT_NAWS :: said) = some (some (f.cols, f.rows)) := by
  obtain ⟨said, hsubs, hsize⟩ := subs_naws_payload f
  refine ⟨said, ⟨?_, block_naws_payload f, hsubs⟩, hsize⟩
  have hopen : Feed.feed hear .data [IAC, SB, OPT_NAWS] = (.sub, []) := rfl
  rw [TelnetFilter.naws_payload, Feed.feed_append, Feed.feed_append, hopen, feed_hear_sub]
  rfl

theorem heard_terminal_type (term_type : List Char) :
    Feed.feed hear .data
      ([IAC, SB, OPT_TERMINAL_TYPE, TTYPE_IS] ++ Utf8.encode term_type ++ [IAC, SE]) =
        (.data, []) := by
  have htext : ∀ b ∈ Utf8.encode term_type, b ≠ IAC := fun b hb heq => by
    have hlt := Utf8.lt_of_mem_encode hb
    rw [heq] at hlt
    exact absurd hlt (by decide)
  have hopen : Feed.feed hear .data [IAC, SB, OPT_TERMINAL_TYPE, TTYPE_IS] = (.sub, []) := rfl
  rw [Feed.feed_append, Feed.feed_append, hopen, ← escape_eq_self htext, feed_hear_sub]
  rfl

/-! ### Replies -/

/-- What a command makes of the option for the window. -/
def wants (on : Bool) : UInt8 × UInt8 → Bool
  | (command, option) =>
    if option ≠ OPT_NAWS then on
    else if command = DO then true
    else if command = WONT ∨ command = DONT then false
    else on

/-- A byte says whether the window is wanted. -/
theorem step_wants (f : TelnetFilter) (byte : UInt8) :
    (f.step byte).1.naws_enabled = (scan f.state byte).2.foldl wants f.naws_enabled := by
  unfold TelnetFilter.step
  cases f.state with
  | data =>
    dsimp only [scan]
    split <;> rfl
  | iac =>
    dsimp only [scan]
    split_ifs <;> rfl
  | will =>
    dsimp only [scan]
    have hwill : wants f.naws_enabled (WILL, byte) = f.naws_enabled := by
      simp [wants, show WILL ≠ DO by decide, show WILL ≠ WONT by decide,
        show WILL ≠ DONT by decide]
    rw [List.foldl_cons, List.foldl_nil, hwill]
    split <;> rfl
  | wont =>
    dsimp only [scan]
    by_cases hbyte : byte = OPT_NAWS
    · subst hbyte
      rfl
    · simp [wants, hbyte]
  | «do» =>
    dsimp only [scan]
    by_cases hbyte : byte = OPT_NAWS
    · subst hbyte
      rfl
    · rw [if_neg hbyte]
      simp only [wants, List.foldl_cons, List.foldl_nil, if_pos hbyte, ne_eq]
      split <;> rfl
  | dont =>
    dsimp only [scan]
    by_cases hbyte : byte = OPT_NAWS
    · subst hbyte
      rfl
    · simp [wants, hbyte]
  | sub =>
    dsimp only [scan]
    split <;> rfl
  | sub_iac =>
    dsimp only [scan, TelnetFilter.on_subnegotiation]
    split_ifs
    · rfl
    · split
      · split <;> rfl
      · rfl
    · rfl

/-- No reply is heard. -/
theorem step_silent (f : TelnetFilter) (byte : UInt8) :
    ∃ new, (f.step byte).1.replies = f.replies ++ new ∧
      Feed.feed hear .data new = (.data, []) := by
  have hnone : f.replies = f.replies ++ [] := (List.append_nil _).symm
  unfold TelnetFilter.step
  cases f.state with
  | data =>
    dsimp only
    split <;> exact ⟨[], hnone, rfl⟩
  | iac =>
    dsimp only
    split_ifs <;> exact ⟨[], hnone, rfl⟩
  | will =>
    dsimp only
    split
    · exact ⟨[IAC, DO, byte], rfl, rfl⟩
    · exact ⟨[IAC, DONT, byte], rfl, rfl⟩
  | wont | dont =>
    dsimp only
    split <;> exact ⟨[], hnone, rfl⟩
  | «do» =>
    dsimp only
    split
    · exact ⟨[IAC, WILL, byte], rfl, rfl⟩
    split
    · obtain ⟨said, hreads, -⟩ := reads_naws_payload f
      refine ⟨[IAC, WILL, OPT_NAWS] ++ f.naws_payload, ?_, ?_⟩
      · rw [← List.append_assoc]
        rfl
      · have hwill : Feed.feed hear .data [IAC, WILL, OPT_NAWS] = (.data, []) := rfl
        rw [Feed.feed_append, hwill, hreads.data]
        rfl
    · exact ⟨[IAC, WONT, byte], rfl, rfl⟩
  | sub =>
    dsimp only
    split <;> exact ⟨[], hnone, rfl⟩
  | sub_iac =>
    dsimp only
    split
    · exact ⟨[], hnone, rfl⟩
    split
    · unfold TelnetFilter.on_subnegotiation
      split
      · split
        · exact ⟨_, rfl, heard_terminal_type f.term_type⟩
        · exact ⟨[], hnone, rfl⟩
      · exact ⟨[], hnone, rfl⟩
    · exact ⟨[], hnone, rfl⟩

/-- The sizes that are told keep up with a window of this size, while it is wanted. -/
def UpToDate (f : TelnetFilter) (sizes : List (Option (UInt16 × UInt16))) : Prop :=
  f.naws_enabled = true → sizes.getLast? = some (some (f.cols, f.rows))

/-- **Step lemma**: what a byte makes the filter send. -/
theorem step_reads (f : TelnetFilter) (byte : UInt8) :
    ∃ new ps, (f.step byte).1.replies = f.replies ++ new ∧
      Reads new [] ((scan f.state byte).2.flatMap answer) ps ∧
      ((f.step byte).1.cols, (f.step byte).1.rows) = (f.cols, f.rows) ∧
      ∀ sizes, UpToDate f sizes → UpToDate (f.step byte).1 (sizes ++ ps.filterMap window_size) := by
  obtain ⟨-, new, hnew, hblock⟩ := step_answers f byte
  obtain ⟨hsize, new', ps, hnew', hsubs, htells⟩ := step_produces f byte
  obtain ⟨new'', hnew'', hsilent⟩ := step_silent f byte
  obtain rfl := List.append_cancel_left (hnew.symm.trans hnew')
  obtain rfl := List.append_cancel_left (hnew.symm.trans hnew'')
  refine ⟨new, ps, hnew, ⟨hsilent, hblock, hsubs⟩, hsize, fun sizes hsizes henabled => ?_⟩
  obtain ⟨hcols, hrows⟩ := Prod.mk.inj hsize
  rw [hcols, hrows]
  obtain ⟨hempty, hbefore⟩ | ⟨hone, -⟩ := htells
  · rw [hempty, List.append_nil]
    exact hsizes (hbefore henabled)
  · rw [hone, List.getLast?_concat]

/-- Run lemma: what a chunk makes the filter send. -/
theorem feed_reads (f : TelnetFilter) (s : List UInt8) :
    ∃ new ps, (f.feed s).1.replies = f.replies ++ new ∧
      Reads new [] ((Feed.feed scan f.state s).2.flatMap answer) ps ∧
      ((f.feed s).1.cols, (f.feed s).1.rows) = (f.cols, f.rows) ∧
      (f.feed s).1.naws_enabled = (Feed.feed scan f.state s).2.foldl wants f.naws_enabled ∧
      ∀ sizes, UpToDate f sizes → UpToDate (f.feed s).1 (sizes ++ ps.filterMap window_size) := by
  induction s generalizing f with
  | nil =>
    refine ⟨[], [], (List.append_nil _).symm, reads_nil, rfl, rfl, fun sizes hsizes => ?_⟩
    rw [List.filterMap_nil, List.append_nil]
    exact hsizes
  | cons byte s ih =>
    obtain ⟨new, ps, hnew, hreads, hsize, hsizes⟩ := step_reads f byte
    obtain ⟨more, qs, hmore, hrest, hsize', hwants, hsizes'⟩ := ih (f.step byte).1
    rw [(step_answers f byte).1] at hrest hwants
    refine ⟨new ++ more, ps ++ qs, ?_, ?_, hsize'.trans hsize, ?_, fun sizes h => ?_⟩
    · change ((f.step byte).1.feed s).1.replies = _
      rw [hmore, hnew, List.append_assoc]
    · rw [Feed.feed_cons, List.flatMap_append]
      exact hreads.append hrest
    · change ((f.step byte).1.feed s).1.naws_enabled = _
      rw [hwants, step_wants, Feed.feed_cons, List.foldl_append]
    · rw [List.filterMap_append, ← List.append_assoc]
      exact hsizes' _ (hsizes sizes h)

/-! ## The thread -/

namespace Thread

open Ssh.Pump (SessionStatus)
open Dialog (Meets Outcome meets_asked meets_bind meets_tell tell)

/-- How to reach the server. -/
structure TelnetOptions where
  host : String
  port : UInt16
  term : List Char
  cols : UInt16
  rows : UInt16

inductive TelnetEvent
  | data (bytes : List UInt8)
  | status (status : SessionStatus)
  /-- `by_remote`: the server hung up. -/
  | closed (reason : Option String) (by_remote : Bool)
  | error (text : String)
  deriving DecidableEq

inductive TelnetCommand
  | write (bytes : List UInt8)
  | resize (cols rows : UInt16)
  | disconnect
  deriving DecidableEq

inductive Dialled
  | ok
  | error (text : String)
  | timed_out
  deriving DecidableEq

/-- What wakes the loop: a command, or none as the tab is gone; or what was read. -/
inductive Woken
  | command (command : Option TelnetCommand)
  | read (read : Except String (List UInt8))
  deriving DecidableEq

inductive Call
  | connect (host : String) (port : UInt16)
  | write_all (bytes : List UInt8)
  | select
  | shutdown
  deriving DecidableEq

/-- What the world answers; to a write, whether it was written. -/
def Answer : Call → Type
  | .connect _ _ => Dialled
  | .write_all _ => Bool
  | .select => Woken
  | .shutdown => Unit

abbrev Talk (α : Type) : Type := Dialog Call Answer TelnetEvent Empty α

abbrev Step : Type := Dialog.Step Call Answer TelnetEvent

abbrev Trace : Type := List Step

abbrev ask (c : Call) : Talk (Answer c) := Dialog.ask c

/-- Write, and go on if it was written. -/
def write_then (bytes : List UInt8) (next : Talk Bool) : Talk Bool := do
  let written : Bool ← ask (.write_all bytes)
  if written then next else pure false

/-- What the server sent. -/
def read_chunk (f : TelnetFilter) (chunk : List UInt8) (next : TelnetFilter → Talk Bool) :
    Talk Bool :=
  let (f, data) := f.feed chunk
  let (f, replies) := f.take_replies
  let told : Talk Bool :=
    if data = [] then next f
    else do
      tell (.data data)
      next f
  if replies = [] then told else write_then replies told

/-- The loop, for so many turns; whether the server hung up. -/
def shell : ℕ → TelnetFilter → Talk Bool
  | 0, _ => .hang
  | n + 1, f => do
    let woken : Woken ← ask .select
    match woken with
    | .command (some (.write bytes)) => write_then (escape bytes) (shell n f)
    | .command (some (.resize cols rows)) =>
      match f.resize cols rows with
      | (f, some payload) => write_then payload (shell n f)
      | (f, none) => shell n f
    | .command (some .disconnect) | .command none => pure false
    | .read (.ok []) => pure true
    | .read (.ok (byte :: chunk)) => read_chunk f (byte :: chunk) (shell n)
    | .read (.error error) => do
      tell (.error error)
      pure false

/-- The thread of a connection. -/
def run (n : ℕ) (options : TelnetOptions) : Talk Unit := do
  tell (.status .connecting)
  let dialled : Dialled ← ask (.connect options.host options.port)
  match dialled with
  | .error error => do
    tell (.error s!"cannot connect to {options.host}:{options.port}: {error}")
    tell (.closed none false)
  | .timed_out => do
    tell (.error s!"connection to {options.host}:{options.port} timed out")
    tell (.closed none false)
  | .ok => do
    let written : Bool ← ask (.write_all start)
    if written then do
      tell (.status .connected)
      let by_remote ← shell n (.new options.term options.cols options.rows)
      let _ ← ask .shutdown
      tell (.closed none by_remote)
    else tell (.closed none false)

/-! ### What came and what goes -/

def typed? : Step → List UInt8
  | .called .select (.command (some (.write bytes))) => bytes
  | _ => []

/-- What was typed into the tab. -/
def typed (t : Trace) : List UInt8 := t.flatMap typed?

def received? : Step → List UInt8
  | .called .select (.read (.ok chunk)) => chunk
  | _ => []

/-- What the server sent. -/
def received (t : Trace) : List UInt8 := t.flatMap received?

def written? : Step → List UInt8
  | .called (.write_all bytes) _ | .unanswered (.write_all bytes) => bytes
  | _ => []

/-- What is written for the server, or tried to. -/
def written (t : Trace) : List UInt8 := t.flatMap written?

def told? : TelnetEvent → List UInt8
  | .data bytes => bytes
  | _ => []

/-- What the terminal of the tab is told. -/
def told (t : Trace) : List UInt8 := (Dialog.said t).flatMap told?

def size_after (size : UInt16 × UInt16) : Step → UInt16 × UInt16
  | .called .select (.command (some (.resize cols rows))) => (cols, rows)
  | _ => size

/-- The size of the window. -/
def size (options : TelnetOptions) (t : Trace) : UInt16 × UInt16 :=
  t.foldl size_after (options.cols, options.rows)

/-- The server wants to know the size. -/
def wanted (t : Trace) : Bool := (commands (received t)).foldl wants false

def hung_up? : Step → Bool
  | .called .select (.read (.ok [])) => true
  | _ => false

/-- The server hung up. -/
def hung_up (t : Trace) : Bool := t.any hung_up?

def cut? : Step → Bool
  | .called (.write_all _) written => !written
  | .unanswered (.write_all _) => true
  | _ => false

/-- A write did not go through. -/
def Cut (t : Trace) : Prop := t.any cut? = true

section Steps

variable (t t' : Trace) (step : Step)

@[simp] theorem typed_append : typed (t ++ t') = typed t ++ typed t' := List.flatMap_append

@[simp] theorem received_append : received (t ++ t') = received t ++ received t' :=
  List.flatMap_append

@[simp] theorem written_append : written (t ++ t') = written t ++ written t' :=
  List.flatMap_append

@[simp] theorem told_append : told (t ++ t') = told t ++ told t' := by
  simp [told]

@[simp] theorem typed_singleton : typed [step] = typed? step := List.append_nil _

@[simp] theorem received_singleton : received [step] = received? step := List.append_nil _

@[simp] theorem written_singleton : written [step] = written? step := List.append_nil _

theorem Cut.append {t : Trace} (t' : Trace) (h : Cut t) : Cut (t ++ t') := by
  rw [Cut, List.any_append, Bool.or_eq_true]
  exact .inl h

theorem size_append (options : TelnetOptions) :
    size options (t ++ t') = t'.foldl size_after (size options t) := List.foldl_append

end Steps

/-! ### Between two steps -/

section Invariant

variable (options : TelnetOptions)

/-- What the server reads in all that is written for it, and what it knows of the window. -/
def Speaks (t : Trace) : Prop :=
  ∃ ps, Reads (written t) (typed t) (offers ++ (commands (received t)).flatMap answer) ps ∧
    (wanted t = true → (ps.filterMap window_size).getLast? = some (some (size options t)))

/-- The thread between two steps: `pending` is what the tab is still to be told. -/
structure Relaying (t : Trace) (f : TelnetFilter) (pending : List UInt8) : Prop where
  speaks : ∃ ps,
    Reads (written t) (typed t) (offers ++ (commands (received t)).flatMap answer) ps ∧
      UpToDate f (ps.filterMap window_size)
  hears : Feed.feed hear .data (received t) = (f.state, told t ++ pending)
  scans : (Feed.feed scan .data (received t)).1 = f.state
  enabled : f.naws_enabled = wanted t
  sized : (f.cols, f.rows) = size options t
  replied : f.replies = []
  still_open : ∀ reason by_remote, .closed reason by_remote ∉ Dialog.said t
  not_hung_up : hung_up t = false

/-- What has been relayed, once nothing more is. -/
structure Relayed (t : Trace) : Prop where
  speaks : Speaks options t
  told : told t <+: heard (received t)
  all : ¬ Cut t → Thread.told t = heard (received t)
  still_open : ∀ reason by_remote, .closed reason by_remote ∉ Dialog.said t

end Invariant

variable {options : TelnetOptions} {t : Trace} {f : TelnetFilter} {pending : List UInt8}
  {step : Step}

theorem Relaying.relayed (h : Relaying options t f pending) (hcut : pending = [] ∨ Cut t) :
    Relayed options t where
  speaks := by
    obtain ⟨ps, hreads, hsizes⟩ := h.speaks
    refine ⟨ps, hreads, fun hwanted => ?_⟩
    rw [← h.sized]
    exact hsizes (h.enabled.trans hwanted)
  told := by
    rw [heard, h.hears]
    exact List.prefix_append _ _
  all hwhole := by
    rw [heard, h.hears, hcut.resolve_right hwhole, List.append_nil]
  still_open := h.still_open

/-- A step that is not part of what is relayed. -/
structure Quiet (step : Step) : Prop where
  typed : typed? step = []
  received : received? step = []
  written : written? step = []
  said : ∀ e, step.said? = some e → told? e = [] ∧ ∀ reason by_remote, e ≠ .closed reason by_remote
  size : ∀ size, size_after size step = size

theorem Quiet.told (hq : Quiet step) : Thread.told [step] = [] := by
  rw [Thread.told, Dialog.said, List.filterMap_cons]
  split
  · rfl
  next e he =>
    rw [List.filterMap_nil, List.flatMap_singleton]
    exact (hq.said e he).1

theorem Quiet.said_eq (hq : Quiet step) {reason : Option String} {by_remote : Bool} :
    .closed reason by_remote ∉ Dialog.said [step] := by
  intro hmem
  obtain ⟨s, hs, hsaid⟩ := List.mem_filterMap.mp hmem
  rw [List.mem_singleton.mp hs] at hsaid
  exact (hq.said _ hsaid).2 _ _ rfl

theorem Speaks.quiet (h : Speaks options t) (hq : Quiet step) : Speaks options (t ++ [step]) := by
  obtain ⟨ps, hreads, hsize⟩ := h
  refine ⟨ps, ?_, ?_⟩
  · simpa [hq.typed, hq.received, hq.written] using hreads
  · simpa [wanted, hq.received, size_append, hq.size] using hsize

theorem Relayed.quiet (h : Relayed options t) (hq : Quiet step) :
    Relayed options (t ++ [step]) where
  speaks := h.speaks.quiet hq
  told := by simpa [hq.told, hq.received] using h.told
  all hwhole := by
    simpa [hq.told, hq.received] using h.all (mt (Cut.append [step]) hwhole)
  still_open reason by_remote := by
    rw [Dialog.said_append, List.mem_append]
    exact not_or.mpr ⟨h.still_open reason by_remote, hq.said_eq⟩

/-! ### The steps of the loop -/

/-- These steps take the filter from `f`, with `pending` to tell, to `g`, with `later` to tell. -/
structure Takes (steps : Trace) (f : TelnetFilter) (pending : List UInt8) (g : TelnetFilter)
    (later : List UInt8) : Prop where
  reads : ∃ ps, Reads (written steps) (typed steps)
    ((Feed.feed scan f.state (received steps)).2.flatMap answer) ps ∧
      ∀ sizes, UpToDate f sizes → UpToDate g (sizes ++ ps.filterMap window_size)
  hears : ∃ data, Feed.feed hear f.state (received steps) = (g.state, data) ∧
    pending ++ data = told steps ++ later
  scans : (Feed.feed scan f.state (received steps)).1 = g.state
  enabled : g.naws_enabled = (Feed.feed scan f.state (received steps)).2.foldl wants f.naws_enabled
  sized : (g.cols, g.rows) = steps.foldl size_after (f.cols, f.rows)
  replied : g.replies = []
  still_open : ∀ reason by_remote, .closed reason by_remote ∉ Dialog.said steps
  not_hung_up : hung_up steps = false

theorem Relaying.append (h : Relaying options t f pending) {steps : Trace} {g : TelnetFilter}
    {later : List UInt8} (ht : Takes steps f pending g later) :
    Relaying options (t ++ steps) g later where
  speaks := by
    obtain ⟨ps, hreads, hsizes⟩ := h.speaks
    obtain ⟨qs, hmore, hsizes'⟩ := ht.reads
    refine ⟨ps ++ qs, ?_, ?_⟩
    · have hcommands : commands (received t ++ received steps) =
          commands (received t) ++ (Feed.feed scan f.state (received steps)).2 := by
        rw [commands, Feed.feed_append, h.scans]
        rfl
      rw [written_append, typed_append, received_append, hcommands, List.flatMap_append,
        ← List.append_assoc]
      exact hreads.append hmore
    · rw [List.filterMap_append]
      exact hsizes' _ hsizes
  hears := by
    obtain ⟨data, hdata, htold⟩ := ht.hears
    rw [received_append, Feed.feed_append, h.hears, hdata, told_append, List.append_assoc,
      List.append_assoc, htold]
  scans := by rw [received_append, Feed.feed_append, h.scans, ht.scans]
  enabled := by
    rw [ht.enabled, h.enabled, wanted, wanted, commands, commands, received_append,
      Feed.feed_append, h.scans, List.foldl_append]
  sized := by rw [ht.sized, h.sized, size_append]
  replied := ht.replied
  still_open reason by_remote := by
    rw [Dialog.said_append, List.mem_append]
    exact not_or.mpr ⟨h.still_open reason by_remote, ht.still_open reason by_remote⟩
  not_hung_up := by
    rw [hung_up, List.any_append, Bool.or_eq_false_iff]
    exact ⟨h.not_hung_up, ht.not_hung_up⟩

/-- A write, whether it is answered or not. -/
inductive Wrote (bytes : List UInt8) : Step → Prop
  | called (written : Bool) : Wrote bytes (.called (.write_all bytes) written)
  | unanswered : Wrote bytes (.unanswered (.write_all bytes))

/-- The sizes told, when nothing more is. -/
theorem upToDate_append_nil {sizes : List (Option (UInt16 × UInt16))} (h : UpToDate f sizes) :
    UpToDate f (sizes ++ ([] : List (List UInt8)).filterMap window_size) := by
  rwa [List.filterMap_nil, List.append_nil]

theorem takes_write {bytes : List UInt8} (hstep : Wrote (escape bytes) step)
    (hreplied : f.replies = []) :
    Takes [.called .select (.command (some (.write bytes))), step] f [] f [] := by
  have hreads := (reads_escape bytes).append reads_nil
  cases hstep with
  | called | unanswered =>
    exact ⟨⟨[], hreads, fun _ => upToDate_append_nil⟩, ⟨[], rfl, rfl⟩, rfl, rfl, rfl, hreplied,
      fun _ _ => List.not_mem_nil, rfl⟩

theorem resize_eq (f : TelnetFilter) (cols rows : UInt16) :
    (f.resize cols rows).1 = { f with cols, rows } ∧
      ((f.resize cols rows).2 = none → f.naws_enabled = true → cols = f.cols ∧ rows = f.rows) ∧
        ∀ payload, (f.resize cols rows).2 = some payload →
          payload = (f.resize cols rows).1.naws_payload := by
  unfold TelnetFilter.resize
  split
  next hsame =>
    obtain ⟨rfl, rfl⟩ := hsame
    exact ⟨rfl, fun _ _ => ⟨rfl, rfl⟩, fun _ h => by cases h⟩
  next =>
    dsimp only
    refine ⟨rfl, fun hnone henabled => ?_, fun payload h => ?_⟩
    · rw [if_pos henabled] at hnone
      cases hnone
    · split at h
      · exact (Option.some.inj h).symm
      · cases h

/-- The server is told the size. -/
theorem takes_resize {cols rows : UInt16} {g : TelnetFilter} {payload : List UInt8}
    (hresize : f.resize cols rows = (g, some payload)) (hstep : Wrote payload step)
    (hreplied : f.replies = []) :
    Takes [.called .select (.command (some (.resize cols rows))), step] f [] g [] := by
  obtain ⟨hg, -, hpayload⟩ := resize_eq f cols rows
  rw [hresize] at hg hpayload
  have hpayload : payload = g.naws_payload := hpayload payload rfl
  subst hpayload
  obtain ⟨said, hreads, hsize⟩ := reads_naws_payload g
  have hreads := hreads.append reads_nil
  have hsizes (sizes : List (Option (UInt16 × UInt16))) (_ : UpToDate f sizes) :
      UpToDate g (sizes ++ [OPT_NAWS :: said].filterMap window_size) := fun _ => by
    rw [List.filterMap_cons_some hsize, List.filterMap_nil, List.getLast?_concat]
  change g = _ at hg
  subst hg
  cases hstep with
  | called | unanswered =>
    exact ⟨⟨[OPT_NAWS :: said], hreads, hsizes⟩, ⟨[], rfl, rfl⟩, rfl, rfl, rfl, hreplied,
      fun _ _ => List.not_mem_nil, rfl⟩

/-- A size that the server does not want, or knows. -/
theorem takes_resize_none {cols rows : UInt16} {g : TelnetFilter}
    (hresize : f.resize cols rows = (g, none)) (hreplied : f.replies = []) :
    Takes [.called .select (.command (some (.resize cols rows)))] f [] g [] := by
  obtain ⟨hg, hsame, -⟩ := resize_eq f cols rows
  rw [hresize] at hg hsame
  change g = _ at hg
  subst hg
  refine ⟨⟨[], reads_nil, fun sizes h => upToDate_append_nil fun henabled => ?_⟩, ⟨[], rfl, rfl⟩,
    rfl, rfl, rfl, hreplied, fun _ _ => List.not_mem_nil, rfl⟩
  obtain ⟨rfl, rfl⟩ := hsame rfl henabled
  exact h henabled

/-- What the server sent is read, and answered with these steps. -/
theorem takes_read {byte : UInt8} {chunk : List UInt8} {steps : Trace}
    (hwritten : written steps = (f.feed (byte :: chunk)).1.replies)
    (htyped : typed steps = []) (hreceived : received steps = []) (hsaid : Dialog.said steps = [])
    (hsize : ∀ size, steps.foldl size_after size = size) (hup : hung_up steps = false)
    (hreplied : f.replies = []) :
    Takes (.called .select (.read (.ok (byte :: chunk))) :: steps) f []
      (f.feed (byte :: chunk)).1.take_replies.1 (f.feed (byte :: chunk)).2 := by
  obtain ⟨new, ps, hnew, hreads, hsized, hwants, hsizes⟩ := feed_reads f (byte :: chunk)
  rw [hreplied, List.nil_append] at hnew
  have hstream : received (.called .select (.read (.ok (byte :: chunk))) :: steps) =
      byte :: chunk := by
    change byte :: chunk ++ received steps = _
    rw [hreceived, List.append_nil]
  have hnone : Dialog.said (.called .select (.read (.ok (byte :: chunk))) :: steps : Trace) = [] :=
    hsaid
  have htold : told (.called .select (.read (.ok (byte :: chunk))) :: steps) = [] := by
    rw [told, hnone, List.flatMap_nil]
  refine ⟨⟨ps, ?_, hsizes⟩, ⟨(f.feed (byte :: chunk)).2, ?_, ?_⟩, ?_, ?_, ?_, rfl, ?_, hup⟩
  · rw [hstream]
    change Reads (written steps) (typed steps) _ _
    rw [hwritten, htyped, hnew]
    exact hreads
  · rw [hstream, feed_hear]
    rfl
  · rw [htold]
  · rw [hstream, ← (feed_answers f _).1]
    rfl
  · rw [hstream, ← hwants]
    rfl
  · exact hsized.trans (hsize _).symm
  · intro reason by_remote
    rw [hnone]
    exact List.not_mem_nil

/-- The tab is told what is pending. -/
theorem takes_told (hreplied : f.replies = []) : Takes [.said (.data pending)] f pending f [] := by
  refine ⟨⟨[], reads_nil, fun _ => upToDate_append_nil⟩, ⟨[], rfl, ?_⟩, rfl, rfl, rfl, hreplied,
    fun reason by_remote => ?_, rfl⟩
  · change pending ++ [] = pending ++ [] ++ []
    rw [List.append_nil, List.append_nil]
  · change _ ∉ [TelnetEvent.data pending]
    simp

/-! ### The loop -/

/-- The loop is over. -/
def Over (options : TelnetOptions) (t : Trace) (by_remote : Bool) : Prop :=
  Relayed options t ∧ hung_up t = by_remote

theorem Relaying.over (h : Relaying options t f pending) (hcut : pending = [] ∨ Cut t) :
    Over options t false :=
  ⟨h.relayed hcut, h.not_hung_up⟩

theorem Over.quiet {by_remote more : Bool} (h : Over options t by_remote) (hq : Quiet step)
    (hup : (by_remote || hung_up? step) = more) : Over options (t ++ [step]) more := by
  refine ⟨h.1.quiet hq, ?_⟩
  rw [hung_up, List.any_append, List.any_cons, List.any_nil, Bool.or_false]
  exact (congrArg (· || hung_up? step) h.2).trans hup

theorem cut_concat (hstep : Cut [step]) : Cut (t ++ [step]) := by
  rw [Cut, List.any_append, Bool.or_eq_true]
  exact .inr hstep

theorem meets_write_then {bytes : List UInt8} {next : Talk Bool}
    (hcut : ∀ step, Wrote bytes step → Cut [step] → Over options (t ++ [step]) false)
    (hnext : Meets (Over options) (fun t _ => Relayed options t)
      (t ++ [.called (.write_all bytes) true]) next) :
    Meets (Over options) (fun t _ => Relayed options t) t (write_then bytes next) := by
  refine meets_asked.mpr ⟨?_, fun written => ?_⟩
  · exact (hcut _ .unanswered rfl).1
  · cases written with
    | false => exact hcut _ (.called false) rfl
    | true => exact hnext

/-- What was read is answered, and told. -/
theorem meets_read_chunk (h : Relaying options t f []) {byte : UInt8} {chunk : List UInt8}
    {next : TelnetFilter → Talk Bool}
    (hnext : ∀ {t f}, Relaying options t f [] →
      Meets (Over options) (fun t _ => Relayed options t) t (next f)) :
    Meets (Over options) (fun t _ => Relayed options t)
      (t ++ [.called .select (.read (.ok (byte :: chunk)))])
      (read_chunk f (byte :: chunk) next) := by
  have htells {t : Trace} {g : TelnetFilter} {data : List UInt8}
      (hpending : Relaying options t g data) :
      Meets (Over options) (fun t _ => Relayed options t) t
        (if data = [] then next g else tell (.data data) >>= fun _ => next g) := by
    by_cases hdata : data = []
    · subst hdata
      rw [if_pos rfl]
      exact hnext hpending
    · rw [if_neg hdata]
      exact hnext (hpending.append (takes_told hpending.replied))
  unfold read_chunk
  dsimp only [TelnetFilter.take_replies]
  split
  next hreplies =>
    exact htells (h.append (takes_read hreplies.symm rfl rfl rfl (fun _ => rfl) rfl h.replied))
  next =>
    have hwrote (step : Step) (hstep : Wrote (f.feed (byte :: chunk)).1.replies step) :
        Relaying options (t ++ [.called .select (.read (.ok (byte :: chunk)))] ++ [step])
          (f.feed (byte :: chunk)).1.take_replies.1 (f.feed (byte :: chunk)).2 := by
      rw [List.append_assoc]
      refine h.append ?_
      cases hstep with
      | called | unanswered =>
        exact takes_read (List.append_nil _) rfl rfl rfl (fun _ => rfl) rfl h.replied
    exact meets_write_then
      (fun step hstep hcut => (hwrote step hstep).over (.inr (cut_concat hcut)))
      (htells (hwrote _ (.called true)))

theorem meets_shell (n : ℕ) (h : Relaying options t f []) :
    Meets (Over options) (fun t _ => Relayed options t) t (shell n f) := by
  induction n generalizing t f with
  | zero => exact h.relayed (.inl rfl)
  | succ n ih =>
    have hquiet : Quiet (.unanswered .select) := ⟨rfl, rfl, rfl, by rintro e ⟨⟩, fun _ => rfl⟩
    refine meets_asked.mpr ⟨(h.relayed (.inl rfl)).quiet hquiet, fun woken => ?_⟩
    have hover := h.over (.inl rfl)
    have hwakes (woken : Woken) (hq : Quiet (.called .select woken)) :
        Over options (t ++ [.called .select woken]) (hung_up? (.called .select woken)) :=
      hover.quiet hq (Bool.false_or _)
    rcases woken with (_ | bytes | ⟨cols, rows⟩ | _) | (error | _ | ⟨byte, chunk⟩)
    · exact hwakes (.command none) ⟨rfl, rfl, rfl, by rintro e ⟨⟩, fun _ => rfl⟩
    · have hwrote (step : Step) (hstep : Wrote (escape bytes) step) :
          Relaying options (t ++ [.called .select (.command (some (.write bytes)))] ++ [step]) f
            [] := by
        rw [List.append_assoc]
        exact h.append (takes_write hstep h.replied)
      exact meets_write_then (fun step hstep _ => (hwrote step hstep).over (.inl rfl))
        (ih (hwrote _ (.called true)))
    · change Meets _ _ _ (match f.resize cols rows with
        | (f, some payload) => write_then payload (shell n f)
        | (f, none) => shell n f)
      split
      next g payload hresize =>
        have hwrote (step : Step) (hstep : Wrote payload step) :
            Relaying options
              (t ++ [.called .select (.command (some (.resize cols rows)))] ++ [step]) g [] := by
          rw [List.append_assoc]
          exact h.append (takes_resize hresize hstep h.replied)
        exact meets_write_then (fun step hstep _ => (hwrote step hstep).over (.inl rfl))
          (ih (hwrote _ (.called true)))
      next g hresize => exact ih (h.append (takes_resize_none hresize h.replied))
    · exact hwakes (.command (some .disconnect)) ⟨rfl, rfl, rfl, by rintro e ⟨⟩, fun _ => rfl⟩
    · have hread := hwakes (.read (.error error)) ⟨rfl, rfl, rfl, by rintro e ⟨⟩, fun _ => rfl⟩
      have hsaid : Quiet (.said (.error error)) := by
        refine ⟨rfl, rfl, rfl, ?_, fun _ => rfl⟩
        rintro e ⟨⟩
        exact ⟨rfl, fun _ _ => TelnetEvent.noConfusion⟩
      exact hread.quiet hsaid rfl
    · exact hwakes (.read (.ok [])) ⟨rfl, rfl, rfl, by rintro e ⟨⟩, fun _ => rfl⟩
    · exact meets_read_chunk h ih

/-! ### A whole run -/

/-- The server was reached. -/
def Reached (options : TelnetOptions) (t : Trace) : Prop :=
  [.said (.status .connecting), .called (.connect options.host options.port) .ok] <+: t

/-- The thread is done. -/
structure Ended (options : TelnetOptions) (t : Trace) : Prop where
  speaks : Speaks options t
  told : told t <+: heard (received t)
  all : ¬ Cut t → Thread.told t = heard (received t)
  closed : ∃ es, Dialog.said t = es ++ [.closed none (hung_up t)] ∧
    ∀ reason by_remote, .closed reason by_remote ∉ es

/-- The last step of all. -/
theorem Over.closes {by_remote : Bool} (h : Over options t by_remote) :
    Ended options (t ++ [.said (.closed none by_remote)]) := by
  obtain ⟨hrelayed, rfl⟩ := h
  have hup : hung_up (t ++ [.said (.closed none (hung_up t))]) = hung_up t := by
    rw [hung_up, hung_up, List.any_append]
    exact Bool.or_false _
  refine ⟨?_, ?_, fun hwhole => ?_, ⟨Dialog.said t, ?_, hrelayed.still_open⟩⟩
  · obtain ⟨ps, hreads, hsize⟩ := hrelayed.speaks
    refine ⟨ps, ?_, ?_⟩
    · simpa [typed?, received?, written?] using hreads
    · simpa [wanted, received?, size_append, size_after] using hsize
  · simpa [Thread.told, told?, received?] using hrelayed.told
  · have htold := hrelayed.all (mt (Cut.append _) hwhole)
    simpa [Thread.told, told?, received?] using htold
  · rw [Dialog.said_append, hup]
    rfl

/-- The greeting is sent, or tried to. -/
theorem relayed_greeting (hstep : Wrote start step) :
    Over options [.said (.status .connecting),
      .called (.connect options.host options.port) .ok, step] false := by
  have hreads := reads_start.append reads_nil
  cases hstep with
  | called | unanswered =>
    refine ⟨⟨⟨[], hreads, fun hwanted => by cases hwanted⟩, List.prefix_rfl, fun _ => rfl,
      fun reason by_remote => ?_⟩, rfl⟩
    change _ ∉ [TelnetEvent.status .connecting]
    simp

theorem relaying_connected :
    Relaying options [.said (.status .connecting),
      .called (.connect options.host options.port) .ok, .called (.write_all start) true,
      .said (.status .connected)] (.new options.term options.cols options.rows) [] := by
  have hreads := reads_start.append reads_nil
  refine ⟨⟨[], hreads, fun henabled => by cases henabled⟩, rfl, rfl, rfl, rfl, rfl,
    fun reason by_remote => ?_, rfl⟩
  change _ ∉ [TelnetEvent.status .connecting, TelnetEvent.status .connected]
  simp

theorem meets_run (options : TelnetOptions) (n : ℕ) :
    Meets (fun t _ => Reached options t → Ended options t)
      (fun t _ => Reached options t → Relayed options t) [] (run n options) := by
  rw [run, meets_bind, meets_tell]
  refine meets_asked.mpr ⟨fun hup => ?_, fun dialled => ?_⟩
  · cases (List.cons_prefix_cons.mp (List.cons_prefix_cons.mp hup).2).1
  cases dialled with
  | error error =>
    intro hup
    cases (List.cons_prefix_cons.mp (List.cons_prefix_cons.mp hup).2).1
  | timed_out =>
    intro hup
    cases (List.cons_prefix_cons.mp (List.cons_prefix_cons.mp hup).2).1
  | ok =>
    refine meets_asked.mpr ⟨fun _ => (relayed_greeting .unanswered).1, fun written => ?_⟩
    cases written with
    | false => exact fun _ => (relayed_greeting (.called false)).closes
    | true =>
      have hconnected : Relaying options _ _ _ := relaying_connected
      have hshell := meets_shell n hconnected
      refine meets_bind.mpr (meets_tell.mpr (meets_bind.mpr ?_))
      refine (hshell.mono fun t by_remote hover => ?_).mono_ends fun t e h _ => h
      refine meets_asked.mpr ⟨fun _ => hover.1.quiet ?_, fun done _ => (hover.quiet ?_ ?_).closes⟩
      · exact ⟨rfl, rfl, rfl, by rintro e ⟨⟩, fun _ => rfl⟩
      · exact ⟨rfl, rfl, rfl, by rintro e ⟨⟩, fun _ => rfl⟩
      · exact Bool.or_false _

theorem Speaks.all (h : Speaks options t) :
    heard (written t) = typed t ∧
      commands (written t) = offers ++ (commands (received t)).flatMap answer ∧
        (wanted t = true → (window_sizes (written t)).getLast? = some (some (size options t))) := by
  obtain ⟨ps, hreads, hsize⟩ := h
  refine ⟨congrArg Prod.snd hreads.data, congrArg Prod.snd hreads.commands, fun hwanted => ?_⟩
  rw [hreads.subs.window_sizes]
  exact hsize hwanted

/-- **A connection relays**: once the server is reached, whatever it asks for in between and however
its bytes come, it hears in what is written exactly what was typed, and in what has come through a
part of that; it reads the offers and one answer to each of its requests, and, while it wants it,
the present size of the window; the tab is told what the server said, as far as all writes go
through; and the end is told once, last, when the thread is done. -/
theorem telnet_relays {n : ℕ} {o : Outcome Empty Unit} (h : (run n options).Runs t o)
    (hup : Reached options t) :
    (heard (written t) = typed t ∧ ∀ s, s <+: written t → heard s <+: typed t) ∧
      commands (written t) = offers ++ (commands (received t)).flatMap answer ∧
      (wanted t = true → (window_sizes (written t)).getLast? = some (some (size options t))) ∧
      (told t <+: heard (received t) ∧ (¬ Cut t → told t = heard (received t))) ∧
      (o = .returned () ∧ (∃ es, Dialog.said t = es ++ [.closed none (hung_up t)] ∧
          ∀ reason by_remote, .closed reason by_remote ∉ es) ∨
        o = .hung ∧ ∀ reason by_remote, .closed reason by_remote ∉ Dialog.said t) := by
  have hmeets := (meets_run options n).run h
  have hpart (hspeaks : Speaks options t) (s : List UInt8) (hs : s <+: written t) :
      heard s <+: typed t := by
    rw [← hspeaks.all.1]
    exact heard_prefix hs
  cases o with
  | failed e => exact e.elim
  | returned a =>
    have hended : Ended options t := hmeets hup
    obtain ⟨hheard, hcommands, hsize⟩ := hended.speaks.all
    exact ⟨⟨hheard, hpart hended.speaks⟩, hcommands, hsize, ⟨hended.told, hended.all⟩,
      .inl ⟨rfl, hended.closed⟩⟩
  | hung =>
    have hrelayed : Relayed options t := hmeets hup
    obtain ⟨hheard, hcommands, hsize⟩ := hrelayed.speaks.all
    exact ⟨⟨hheard, hpart hrelayed.speaks⟩, hcommands, hsize, ⟨hrelayed.told, hrelayed.all⟩,
      .inr ⟨rfl, hrelayed.still_open⟩⟩

/-! ### A visit -/

def bbs : TelnetOptions where
  host := "bbs"
  port := 23
  term := "xterm".toList
  cols := 80
  rows := 24

/-- The server asks for the size and says a letter, the user types a byte that is doubled and makes
the window wider, and the server hangs up. -/
def visit : Trace :=
  [.said (.status .connecting), .called (.connect "bbs" 23) .ok, .called (.write_all start) true,
    .said (.status .connected), .called .select (.read (.ok [IAC, DO, OPT_NAWS, 104])),
    .called (.write_all [IAC, WILL, OPT_NAWS, IAC, SB, OPT_NAWS, 0, 80, 0, 24, IAC, SE]) true,
    .said (.data [104]), .called .select (.command (some (.write [IAC]))),
    .called (.write_all [IAC, IAC]) true, .called .select (.command (some (.resize 100 24))),
    .called (.write_all [IAC, SB, OPT_NAWS, 0, 100, 0, 24, IAC, SE]) true,
    .called .select (.read (.ok [])), .called .shutdown (), .said (.closed none true)]

theorem visit_runs : (run 4 bbs).Runs visit (.returned ()) := by
  refine ⟨_, rfl, .inr ⟨.ok, _, rfl, .inr ⟨true, _, rfl, _, rfl, ?_⟩⟩⟩
  refine .inr ⟨.read (.ok [IAC, DO, OPT_NAWS, 104]), _, rfl, .inr ⟨true, _, rfl, _, rfl, ?_⟩⟩
  refine .inr ⟨.command (some (.write [IAC])), _, rfl, .inr ⟨true, _, rfl, ?_⟩⟩
  refine .inr ⟨.command (some (.resize 100 24)), _, rfl, .inr ⟨true, _, rfl, ?_⟩⟩
  exact .inr ⟨.read (.ok []), _, rfl, .inr ⟨(), _, rfl, _, rfl, rfl, rfl⟩⟩

/-- The server hears the byte that was typed, and knows the size of the window. -/
theorem telnet_relays_visit :
    heard (written visit) = [IAC] ∧
      commands (written visit) = offers ++ [(WILL, OPT_NAWS)] ∧
      (window_sizes (written visit)).getLast? = some (some (100, 24)) ∧ told visit = [104] := by
  obtain ⟨⟨hheard, -⟩, hcommands, hsize, ⟨-, htold⟩, -⟩ :=
    telnet_relays visit_runs ⟨_, rfl⟩
  exact ⟨hheard, hcommands, hsize rfl, htold Bool.false_ne_true⟩

end Thread

end WaSSH.Telnet
