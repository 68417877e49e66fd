import WaSSH.Lib.Exchange
import WaSSH.Telnet.Filter

/-!
# Negotiations that do not end

A filter answers every request for an option, also one for what was agreed before.

* `start`, `endpoint`: a filter as one end of a connection;
* `scan`, `commands`: the commands in a stream; `answer`: what a filter makes of one;
* **`commands_out`**: a filter sends its greeting and its answers, and no other command;
* `Acknowledges`: a peer that says yes to every request; `acknowledging`: one that does nothing
  else;
* **`settles_iff_stalled`**: a filter and such a peer, or another filter, negotiate until one of
  them receives nothing more.
-/

namespace WaSSH.Telnet

open Exchange

/-! ## One end of a connection -/

/-- The options that are offered and asked for at the start. -/
def offers : List (UInt8 × UInt8) :=
  [(DO, OPT_SUPPRESS_GA), (WILL, OPT_SUPPRESS_GA), (DO, OPT_ECHO), (WILL, OPT_NAWS),
    (WILL, OPT_TERMINAL_TYPE)]

/-- Bytes to send once connected, offering the options we support. -/
def start : List UInt8 := offers.flatMap fun (command, option) => [IAC, command, option]

namespace TelnetFilter

variable (f : TelnetFilter)

/-- What is queued stays queued, in front. -/
theorem replies_feed_append (s t : List UInt8) :
    (f.feed (s ++ t)).1.replies =
      (f.feed s).1.replies ++ ((f.feed s).1.take_replies.1.feed t).1.replies := by
  rw [f.feed_append]
  have hqueue := TelnetFilter.feed_queue (f.feed s).1.take_replies.1 (f.feed s).1.replies t
  rw [take_replies_queue] at hqueue
  rw [hqueue]
  rfl

/-- A filter sends `start` once, and afterwards exactly its replies. -/
def endpoint : Endpoint UInt8 where
  out s := start ++ (f.feed s).1.replies
  causal s t := by
    rw [f.replies_feed_append s t, ← List.append_assoc]
    exact List.prefix_append _ _

/-- However the stream is cut, what was taken and what is still queued is what the endpoint has
sent. -/
theorem out_calls (cs : List Call) :
    start ++ (f.calls cs).2.2 ++ (f.calls cs).1.replies = f.endpoint.out (stream cs) := by
  show _ = start ++ (f.feed (stream cs)).1.replies
  rw [feed_calls_eq, List.append_assoc]
  rfl

end TelnetFilter

/-! ## Commands -/

/-- One byte of a stream, and the command it completes. -/
def scan (s : State) (byte : UInt8) : State × List (UInt8 × UInt8) :=
  match s with
  | .data => (if byte = IAC then .iac else .data, [])
  | .iac =>
    (if byte = WILL then .will else if byte = WONT then .wont else if byte = DO then .do
      else if byte = DONT then .dont else if byte = SB then .sub else .data, [])
  | .will => (.data, [(WILL, byte)])
  | .wont => (.data, [(WONT, byte)])
  | .do => (.data, [(DO, byte)])
  | .dont => (.data, [(DONT, byte)])
  | .sub => (if byte = IAC then .sub_iac else .sub, [])
  | .sub_iac => (if byte = SE then .data else .sub, [])

/-- The commands about options in a stream, each with its option. -/
def commands (s : List UInt8) : List (UInt8 × UInt8) := (Feed.feed scan .data s).2

/-- The command a filter answers one with. -/
def answer : UInt8 × UInt8 → List (UInt8 × UInt8)
  | (command, option) =>
    if command = WILL then
      [(if option = OPT_ECHO ∨ option = OPT_SUPPRESS_GA then DO else DONT, option)]
    else if command = DO then
      [(if option = OPT_SUPPRESS_GA ∨ option = OPT_TERMINAL_TYPE ∨ option = OPT_NAWS then WILL
        else WONT, option)]
    else []

/-! ### Blocks -/

/-- Bytes between commands, with the commands in them. -/
def Block (s : List UInt8) (cs : List (UInt8 × UInt8)) : Prop :=
  Feed.feed scan .data s = (.data, cs)

theorem Block.append {s t : List UInt8} {cs ds : List (UInt8 × UInt8)} (hs : Block s cs)
    (ht : Block t ds) : Block (s ++ t) (cs ++ ds) := by
  unfold Block at *
  rw [Feed.feed_append, hs, ht]

/-- After a block, a stream goes on as from its start. -/
theorem commands_block {s : List UInt8} {cs : List (UInt8 × UInt8)} (hs : Block s cs)
    (t : List UInt8) : commands (s ++ t) = cs ++ commands t := by
  unfold commands
  rw [Feed.feed_append, hs]

theorem block_nil : Block [] [] := rfl

theorem block_will (option : UInt8) : Block [IAC, WILL, option] [(WILL, option)] := rfl

theorem block_wont (option : UInt8) : Block [IAC, WONT, option] [(WONT, option)] := rfl

theorem block_do (option : UInt8) : Block [IAC, DO, option] [(DO, option)] := rfl

theorem block_dont (option : UInt8) : Block [IAC, DONT, option] [(DONT, option)] := rfl

/-- Inside a subnegotiation, bytes that are not IAC are skipped. -/
theorem feed_scan_sub {s : List UInt8} (h : ∀ b ∈ s, b ≠ IAC) :
    Feed.feed scan .sub s = (.sub, []) := by
  induction s with
  | nil => rfl
  | cons b s ih =>
    obtain ⟨hb, hs⟩ := List.forall_mem_cons.mp h
    simp [scan, hb, ih hs]

theorem feed_scan_sub_escape (s : List UInt8) : Feed.feed scan .sub (escape s) = (.sub, []) := by
  induction s with
  | nil => rfl
  | cons b s ih =>
    show Feed.feed scan .sub ((if b = IAC then [b, IAC] else [b]) ++ escape s) = _
    rw [Feed.feed_append]
    by_cases hb : b = IAC
    · subst hb
      rw [if_pos rfl]
      show ((Feed.feed scan .sub (escape s)).1, [] ++ (Feed.feed scan .sub (escape s)).2) = _
      rw [ih]
      rfl
    · rw [if_neg hb, feed_scan_sub (by simpa using hb), ih]
      rfl

theorem block_naws_payload (f : TelnetFilter) : Block f.naws_payload [] := by
  unfold Block TelnetFilter.naws_payload
  rw [List.append_assoc, Feed.feed_append, Feed.feed_append]
  have hopen : Feed.feed scan .data [IAC, SB, OPT_NAWS] = (.sub, []) := rfl
  rw [hopen, feed_scan_sub_escape]
  rfl

theorem block_terminal_type (term_type : List Char) :
    Block ([IAC, SB, OPT_TERMINAL_TYPE, TTYPE_IS] ++ Utf8.encode term_type ++ [IAC, SE]) [] := by
  unfold Block
  rw [List.append_assoc, Feed.feed_append, Feed.feed_append]
  have hopen : Feed.feed scan .data [IAC, SB, OPT_TERMINAL_TYPE, TTYPE_IS] = (.sub, []) := rfl
  have htext : ∀ b ∈ Utf8.encode term_type, b ≠ IAC := fun b hb heq => by
    have hlt := Utf8.lt_of_mem_encode hb
    rw [heq] at hlt
    exact absurd hlt (by decide)
  rw [hopen, feed_scan_sub htext]
  rfl

/-! ### The answers of a filter -/

/-- **Step lemma**: a byte takes the filter where the scanner goes, and queues the answers to the
command it completes. -/
theorem step_answers (f : TelnetFilter) (byte : UInt8) :
    (f.step byte).1.state = (scan f.state byte).1 ∧
      ∃ new, (f.step byte).1.replies = f.replies ++ new ∧
        Block new ((scan f.state byte).2.flatMap answer) := by
  have hnone : f.replies = f.replies ++ [] := (List.append_nil _).symm
  unfold TelnetFilter.step
  cases hstate : f.state with
  | data =>
    dsimp only [scan]
    split
    · exact ⟨rfl, [], hnone, block_nil⟩
    · exact ⟨hstate, [], hnone, block_nil⟩
  | iac =>
    dsimp only [scan]
    by_cases hiac : byte = IAC
    · subst hiac
      exact ⟨rfl, [], hnone, block_nil⟩
    · rw [if_neg hiac]
      refine ⟨?_, [], ?_, block_nil⟩ <;> split_ifs <;> first | rfl | exact hnone
  | will =>
    dsimp only [scan]
    by_cases hecho : byte = OPT_ECHO ∨ byte = OPT_SUPPRESS_GA
    · refine ⟨rfl, [IAC, DO, byte], ?_, ?_⟩
      · rw [if_pos hecho]
        rfl
      · simpa [answer, hecho] using block_do byte
    · refine ⟨rfl, [IAC, DONT, byte], ?_, ?_⟩
      · rw [if_neg hecho]
        rfl
      · simpa [answer, hecho] using block_dont byte
  | wont =>
    refine ⟨rfl, [], ?_, block_nil⟩
    dsimp only
    split <;> exact hnone
  | «do» =>
    dsimp only [scan]
    by_cases hplain : byte = OPT_SUPPRESS_GA ∨ byte = OPT_TERMINAL_TYPE
    · refine ⟨rfl, [IAC, WILL, byte], ?_, ?_⟩
      · rw [if_pos hplain]
        rfl
      · have hyes : byte = OPT_SUPPRESS_GA ∨ byte = OPT_TERMINAL_TYPE ∨ byte = OPT_NAWS := by
          tauto
        simpa [answer, hyes, show DO ≠ WILL by decide] using block_will byte
    rw [if_neg hplain]
    by_cases hnaws : byte = OPT_NAWS
    · subst hnaws
      refine ⟨rfl, [IAC, WILL, OPT_NAWS] ++ f.naws_payload, ?_, ?_⟩
      · rw [if_pos rfl, ← List.append_assoc]
        rfl
      · exact (block_will OPT_NAWS).append (block_naws_payload f)
    · refine ⟨rfl, [IAC, WONT, byte], ?_, ?_⟩
      · rw [if_neg hnaws]
        rfl
      · have hno : ¬ (byte = OPT_SUPPRESS_GA ∨ byte = OPT_TERMINAL_TYPE ∨ byte = OPT_NAWS) := by
          tauto
        simpa [answer, hno, show DO ≠ WILL by decide] using block_wont byte
  | dont =>
    refine ⟨rfl, [], ?_, block_nil⟩
    dsimp only
    split <;> exact hnone
  | sub =>
    dsimp only [scan]
    split
    · exact ⟨rfl, [], hnone, block_nil⟩
    · exact ⟨rfl, [], hnone, block_nil⟩
  | sub_iac =>
    dsimp only [scan]
    by_cases hiac : byte = IAC
    · subst hiac
      exact ⟨rfl, [], hnone, block_nil⟩
    rw [if_neg hiac]
    by_cases hse : byte = SE
    · rw [if_pos hse, if_pos hse]
      refine ⟨rfl, ?_⟩
      show ∃ new, f.on_subnegotiation.replies = f.replies ++ new ∧ Block new []
      unfold TelnetFilter.on_subnegotiation
      split
      · split
        · exact ⟨_, rfl, block_terminal_type f.term_type⟩
        · exact ⟨[], hnone, block_nil⟩
      · exact ⟨[], hnone, block_nil⟩
    · rw [if_neg hse, if_neg hse]
      exact ⟨rfl, [], hnone, block_nil⟩

/-- Run lemma: a stream takes the filter where the scanner goes, and queues the answers to its
commands. -/
theorem feed_answers (f : TelnetFilter) (s : List UInt8) :
    (f.feed s).1.state = (Feed.feed scan f.state s).1 ∧
      ∃ new, (f.feed s).1.replies = f.replies ++ new ∧
        Block new ((Feed.feed scan f.state s).2.flatMap answer) := by
  induction s generalizing f with
  | nil => exact ⟨rfl, [], (List.append_nil _).symm, block_nil⟩
  | cons byte s ih =>
    obtain ⟨hstate, new, hnew, hblock⟩ := step_answers f byte
    obtain ⟨hrest, more, hmore, hblocks⟩ := ih (f.step byte).1
    rw [hstate] at hrest hblocks
    refine ⟨hrest, new ++ more, ?_, ?_⟩
    · show ((f.step byte).1.feed s).1.replies = _
      rw [hmore, hnew, List.append_assoc]
    · rw [Feed.feed_cons, List.flatMap_append]
      exact hblock.append hblocks

theorem block_start : Block start offers := rfl

/-- **What a filter sends**: its offers, then the answers to the commands it has received, and no
other command. -/
theorem commands_out (term_type : List Char) (cols rows : UInt16) (s : List UInt8) :
    commands ((TelnetFilter.new term_type cols rows).endpoint.out s) =
      offers ++ (commands s).flatMap answer := by
  obtain ⟨-, new, hnew, hblock⟩ := feed_answers (.new term_type cols rows) s
  show commands (start ++ ((TelnetFilter.new term_type cols rows).feed s).1.replies) = _
  rw [commands_block block_start, hnew]
  exact congrArg (offers ++ ·) (congrArg Prod.snd hblock)

/-! ## Peers -/

/-- A peer that says yes to every request. -/
def Acknowledges (peer : Endpoint UInt8) : Prop :=
  ∀ s option,
    (commands s).count (DO, option) ≤ (commands (peer.out s)).count (WILL, option) ∧
      (commands s).count (WILL, option) ≤ (commands (peer.out s)).count (DO, option)

/-- The yes to a request. -/
def acknowledge : UInt8 × UInt8 → List (UInt8 × UInt8)
  | (command, option) =>
    if command = DO then [(WILL, option)] else if command = WILL then [(DO, option)] else []

/-- A peer that only says yes to requests. -/
def acknowledging : Endpoint UInt8 where
  out s := ((commands s).flatMap acknowledge).flatMap fun (command, option) =>
    [IAC, command, option]
  causal s t := by
    unfold commands
    rw [Feed.feed_append, List.flatMap_append, List.flatMap_append]
    exact List.prefix_append _ _

theorem block_acknowledge (cs : List (UInt8 × UInt8)) :
    Block ((cs.flatMap acknowledge).flatMap fun (command, option) => [IAC, command, option])
      (cs.flatMap acknowledge) := by
  induction cs with
  | nil => rfl
  | cons c cs ih =>
    obtain ⟨command, option⟩ := c
    rw [List.flatMap_cons, List.flatMap_append]
    refine Block.append ?_ ih
    by_cases hdo : command = DO
    · subst hdo
      exact block_will option
    by_cases hwill : command = WILL
    · subst hwill
      exact block_do option
    · have hnone : acknowledge (command, option) = [] := by simp [acknowledge, hdo, hwill]
      rw [hnone]
      exact block_nil

theorem count_acknowledge (cs : List (UInt8 × UInt8)) (option : UInt8) :
    cs.count (DO, option) ≤ (cs.flatMap acknowledge).count (WILL, option) ∧
      cs.count (WILL, option) ≤ (cs.flatMap acknowledge).count (DO, option) := by
  induction cs with
  | nil => exact ⟨le_rfl, le_rfl⟩
  | cons c cs ih =>
    obtain ⟨command, other⟩ := c
    rw [List.flatMap_cons, List.count_append, List.count_append, List.count_cons, List.count_cons]
    have hwill : WILL ≠ DO := by decide
    by_cases hdo : command = DO
    · subst hdo
      by_cases hoption : other = option
      · subst hoption
        simp [acknowledge, hwill, hwill.symm]
        omega
      · simp [acknowledge, hoption]
        omega
    · by_cases hwill : command = WILL
      · subst hwill
        by_cases hoption : other = option
        · subst hoption
          simp [acknowledge, hdo]
          omega
        · simp [acknowledge, hoption, hdo]
          omega
      · simp [acknowledge, hdo, hwill]
        omega

theorem acknowledges_acknowledging : Acknowledges acknowledging := by
  intro s option
  have hout : commands (acknowledging.out s) = (commands s).flatMap acknowledge :=
    congrArg Prod.snd (block_acknowledge (commands s))
  rw [hout]
  exact count_acknowledge (commands s) option

/-- How often SUPPRESS-GA is offered or asked for. -/
def ga_requests (cs : List (UInt8 × UInt8)) : ℕ :=
  cs.count (DO, OPT_SUPPRESS_GA) + cs.count (WILL, OPT_SUPPRESS_GA)

theorem ga_requests_append (cs ds : List (UInt8 × UInt8)) :
    ga_requests (cs ++ ds) = ga_requests cs + ga_requests ds := by
  simp only [ga_requests, List.count_append]
  omega

theorem ga_requests_of_ne (command : UInt8) {option : UInt8} (h : option ≠ OPT_SUPPRESS_GA) :
    ga_requests [(command, option)] = 0 := by
  simp [ga_requests, h]

/-- A filter answers each such request with another. -/
theorem ga_requests_answer_one (c : UInt8 × UInt8) : ga_requests (answer c) = ga_requests [c] := by
  obtain ⟨command, option⟩ := c
  by_cases hoption : option = OPT_SUPPRESS_GA
  · subst hoption
    by_cases hwill : command = WILL
    · subst hwill
      rfl
    by_cases hdo : command = DO
    · subst hdo
      rfl
    · simp [answer, ga_requests, hwill, hdo]
  · rw [ga_requests_of_ne command hoption]
    dsimp only [answer]
    split_ifs
    all_goals first | exact ga_requests_of_ne _ hoption | rfl

theorem ga_requests_answer (cs : List (UInt8 × UInt8)) :
    ga_requests (cs.flatMap answer) = ga_requests cs := by
  induction cs with
  | nil => rfl
  | cons c cs ih =>
    rw [List.flatMap_cons, ga_requests_append, ga_requests_answer_one, ih, ← ga_requests_append]
    rfl

theorem ga_requests_out (term_type : List Char) (cols rows : UInt16) (s : List UInt8) :
    ga_requests (commands ((TelnetFilter.new term_type cols rows).endpoint.out s)) =
      2 + ga_requests (commands s) := by
  rw [commands_out, ga_requests_append, ga_requests_answer]
  rfl

theorem Acknowledges.ga_requests_le {peer : Endpoint UInt8} (h : Acknowledges peer)
    (s : List UInt8) : ga_requests (commands s) ≤ ga_requests (commands (peer.out s)) := by
  have hga := h s OPT_SUPPRESS_GA
  unfold ga_requests
  omega

/-- A filter keeps saying something to a peer that sends as many requests as it receives. -/
theorem never_quiet (term_type : List Char) (cols rows : UInt16) {peer : Endpoint UInt8}
    (hpeer : ∀ s, ga_requests (commands s) ≤ ga_requests (commands (peer.out s)))
    (s : Received UInt8) : ¬ Quiet (TelnetFilter.new term_type cols rows).endpoint peer s := by
  rintro ⟨hfirst, hsecond⟩
  have hout := ga_requests_out term_type cols rows s.first
  rw [← hsecond] at hout
  have hback := hpeer s.second
  rw [← hfirst] at hback
  omega

/-- A second request is answered like the first. -/
theorem replies_request (f : TelnetFilter) (hdata : f.state = .data) {command : UInt8}
    (hcommand : command = DO ∨ command = WILL) (option : UInt8) :
    f.replies.length < (f.feed [IAC, command, option]).1.replies.length := by
  obtain ⟨-, new, hnew, hblock⟩ := feed_answers f [IAC, command, option]
  have hanswers : (Feed.feed scan f.state [IAC, command, option]).2.flatMap answer ≠ [] := by
    rw [hdata]
    obtain rfl | rfl := hcommand <;> exact List.cons_ne_nil _ _
  have hsome : new ≠ [] := by
    rintro rfl
    exact hanswers (congrArg Prod.snd hblock).symm
  rw [hnew, List.length_append]
  exact Nat.lt_add_of_pos_right (List.length_pos_iff.mpr hsome)

/-- **Negotiations do not settle**: a filter and a peer that says yes, or another filter, send
without end unless one of them stops receiving; and every request is answered again. -/
theorem settles_iff_stalled (term_type : List Char) (cols rows : UInt16) (peer : Endpoint UInt8)
    (hpeer : Acknowledges peer ∨
      ∃ other other_cols other_rows,
        peer = (TelnetFilter.new other other_cols other_rows).endpoint) :
    (∀ order,
      Settles (TelnetFilter.new term_type cols rows).endpoint peer order ↔ ¬ Fair order) ∧
    ∀ (f : TelnetFilter), f.state = .data → ∀ command, command = DO ∨ command = WILL →
      ∀ option, f.replies.length < (f.feed [IAC, command, option]).1.replies.length := by
  refine ⟨fun order => settles_iff (never_quiet term_type cols rows fun s => ?_),
    fun f hdata command hcommand option => replies_request f hdata hcommand option⟩
  obtain hyes | ⟨other, other_cols, other_rows, rfl⟩ := hpeer
  · exact hyes.ga_requests_le s
  · rw [ga_requests_out]
    omega

/-- Two filters, in an order in which both go on receiving, and a filter with a peer that says
yes. -/
theorem settles_iff_stalled_xterm :
    ¬ Settles (TelnetFilter.new ['x', 't', 'e', 'r', 'm'] 80 24).endpoint
        (TelnetFilter.new ['v', 't'] 132 50).endpoint alternating ∧
      ¬ Settles (TelnetFilter.new ['x', 't', 'e', 'r', 'm'] 80 24).endpoint acknowledging
        alternating := by
  have hfair : ¬ ¬ Fair alternating := not_not.mpr fair_alternating
  constructor
  · exact ((settles_iff_stalled _ _ _ _ (.inr ⟨_, _, _, rfl⟩)).1 alternating).not.mpr hfair
  · exact ((settles_iff_stalled _ _ _ _ (.inl acknowledges_acknowledging)).1 alternating).not.mpr
      hfair

/-- A server that says yes to the offer of SUPPRESS-GA is asked for it again, and two filters never
stop. -/
theorem start_is_acknowledged_again :
    ((TelnetFilter.new ['v', 't'] 80 24).feed [IAC, WILL, OPT_SUPPRESS_GA]).1.replies =
        [IAC, DO, OPT_SUPPRESS_GA] ∧
      (DO, OPT_SUPPRESS_GA) ∈ offers ∧
      ¬ Settles (TelnetFilter.new ['v', 't'] 80 24).endpoint
        (TelnetFilter.new ['v', 't'] 80 24).endpoint alternating := by
  refine ⟨by decide, by decide, fun h => ?_⟩
  refine (settles_iff (never_quiet _ _ _ fun s => ?_)).mp h fair_alternating
  rw [ga_requests_out]
  omega

end WaSSH.Telnet
