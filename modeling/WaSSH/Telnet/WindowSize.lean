import WaSSH.Lib.Run
import WaSSH.Telnet.Filter

/-!
# The window size

A filter tells the server the size of the window when the server asks for it and, from then on,
whenever the size changes.

* `resize`: a change of the size; `WindowCall`, `Session`: calls in any order, with all that they
  produce;
* `subnegotiations`: what a server reads between `IAC SB` and `IAC SE`; `window_sizes`: the sizes
  in it;
* `Subs`: bytes between commands, with the subnegotiations in them; `step_produces`;
* **`window_size_told`**: while the server wants it, the last size it is told is the present one.
-/

namespace WaSSH.Telnet

namespace TelnetFilter

/-- Update the window size, returning a NAWS subnegotiation when enabled. -/
def resize (f : TelnetFilter) (cols rows : UInt16) : TelnetFilter × Option (List UInt8) :=
  if cols = f.cols ∧ rows = f.rows then (f, none)
  else
    let f := { f with cols, rows }
    (f, if f.naws_enabled then some f.naws_payload else none)

end TelnetFilter

/-! ## What a server reads -/

/-- One byte of a stream, and the subnegotiation it completes, its doubled bytes read as one. -/
def scan_sub (s : State × List UInt8) (byte : UInt8) : (State × List UInt8) × List (List UInt8) :=
  match s.1 with
  | .data => ((if byte = IAC then .iac else .data, []), [])
  | .iac =>
    ((if byte = WILL then .will else if byte = WONT then .wont else if byte = DO then .do
      else if byte = DONT then .dont else if byte = SB then .sub else .data, []), [])
  | .will | .wont | .do | .dont => ((.data, []), [])
  | .sub => if byte = IAC then ((.sub_iac, s.2), []) else ((.sub, s.2 ++ [byte]), [])
  | .sub_iac =>
    if byte = IAC then ((.sub, s.2 ++ [IAC]), [])
    else if byte = SE then ((.data, []), [s.2])
    else ((.sub, s.2), [])

/-- The subnegotiations in a stream. -/
def subnegotiations (s : List UInt8) : List (List UInt8) := (Feed.feed scan_sub (.data, []) s).2

/-- A number of two bytes. -/
def from_two (high low : UInt8) : UInt16 := UInt16.ofNat (high.toNat * 256 + low.toNat)

/-- What a subnegotiation about the window says, if it is one. -/
def window_size : List UInt8 → Option (Option (UInt16 × UInt16))
  | option :: said =>
    if option = OPT_NAWS then
      some (match said with
        | [a, b, c, d] => some (from_two a b, from_two c d)
        | _ => none)
    else none
  | [] => none

/-- The subnegotiations about the window in a stream, each with the size it tells, if it does. -/
def window_sizes (s : List UInt8) : List (Option (UInt16 × UInt16)) :=
  (subnegotiations s).filterMap window_size

/-- Bytes between commands, with the subnegotiations in them. -/
def Subs (s : List UInt8) (ps : List (List UInt8)) : Prop :=
  Feed.feed scan_sub (.data, []) s = ((.data, []), ps)

theorem Subs.append {s t : List UInt8} {ps qs : List (List UInt8)} (hs : Subs s ps)
    (ht : Subs t qs) : Subs (s ++ t) (ps ++ qs) := by
  unfold Subs at *
  rw [Feed.feed_append, hs, ht]

theorem Subs.window_sizes {s : List UInt8} {ps : List (List UInt8)} (h : Subs s ps) :
    Telnet.window_sizes s = ps.filterMap window_size := by
  unfold Subs at h
  show (Feed.feed scan_sub (.data, []) s).2.filterMap window_size = _
  rw [h]

theorem subs_nil : Subs [] [] := rfl

theorem subs_do (option : UInt8) : Subs [IAC, DO, option] [] := rfl

theorem subs_dont (option : UInt8) : Subs [IAC, DONT, option] [] := rfl

theorem subs_will (option : UInt8) : Subs [IAC, WILL, option] [] := rfl

theorem subs_wont (option : UInt8) : Subs [IAC, WONT, option] [] := rfl

/-- Escaped bytes are read as they were. -/
theorem feed_escape_sub (s : List UInt8) : ∀ buffer : List UInt8,
    Feed.feed scan_sub (.sub, buffer) (escape s) = ((.sub, buffer ++ s), []) := by
  induction s with
  | nil =>
    intro buffer
    rw [List.append_nil]
    rfl
  | cons b s ih =>
    intro buffer
    have hcons : escape (b :: s) = (if b = IAC then [b, IAC] else [b]) ++ escape s := rfl
    have hone : Feed.feed scan_sub (.sub, buffer) (if b = IAC then [b, IAC] else [b]) =
        ((.sub, buffer ++ [b]), []) := by
      by_cases hb : b = IAC
      · subst hb
        rfl
      · rw [if_neg hb]
        simp [scan_sub, hb]
    rw [hcons, Feed.feed_append, hone, ih, List.append_assoc, List.singleton_append]
    rfl

/-- Bytes that are not `IAC` are escaped already. -/
theorem escape_eq_self {s : List UInt8} (h : ∀ b ∈ s, b ≠ IAC) : escape s = s := by
  induction s with
  | nil => rfl
  | cons b s ih =>
    obtain ⟨hb, hs⟩ := List.forall_mem_cons.mp h
    have hcons : escape (b :: s) = (if b = IAC then [b, IAC] else [b]) ++ escape s := rfl
    rw [hcons, if_neg hb, ih hs]
    rfl

/-- A subnegotiation is read back. -/
theorem subs_escape (option : UInt8) (h : option ≠ IAC) (s : List UInt8) :
    Subs ([IAC, SB, option] ++ escape s ++ [IAC, SE]) [option :: s] := by
  have hopen : Feed.feed scan_sub (.data, []) [IAC, SB, option] = ((.sub, [option]), []) := by
    have hsub : scan_sub (.sub, []) option = ((.sub, [option]), []) := if_neg h
    change Feed.feed scan_sub (.sub, []) [option] = _
    rw [Feed.feed_cons, hsub]
    rfl
  unfold Subs
  rw [Feed.feed_append, Feed.feed_append, hopen, feed_escape_sub]
  rfl

theorem subs_terminal_type (term_type : List Char) :
    Subs ([IAC, SB, OPT_TERMINAL_TYPE, TTYPE_IS] ++ Utf8.encode term_type ++ [IAC, SE])
      [OPT_TERMINAL_TYPE :: TTYPE_IS :: Utf8.encode term_type] := by
  have htext : ∀ b ∈ TTYPE_IS :: Utf8.encode term_type, b ≠ IAC := by
    rw [List.forall_mem_cons]
    refine ⟨by decide, fun b hb heq => ?_⟩
    have hlt := Utf8.lt_of_mem_encode hb
    rw [heq] at hlt
    exact absurd hlt (by decide)
  have h := subs_escape OPT_TERMINAL_TYPE (by decide) (TTYPE_IS :: Utf8.encode term_type)
  rw [escape_eq_self htext] at h
  exact h

theorem from_two_halves (n : UInt16) : from_two (n >>> 8).toUInt8 (n &&& 0xff).toUInt8 = n := by
  have hn := n.toNat_lt
  have hhigh : (n >>> 8).toUInt8.toNat = n.toNat / 256 := by
    have hshift : (n >>> 8).toNat = n.toNat / 256 := by
      rw [UInt16.toNat_shiftRight]
      exact Nat.shiftRight_eq_div_pow _ _
    rw [UInt16.toNat_toUInt8, hshift]
    omega
  have hlow : (n &&& 0xff).toUInt8.toNat = n.toNat % 256 := by
    have hand : (n &&& 0xff).toNat = n.toNat % 256 := by
      rw [UInt16.toNat_and]
      exact Nat.and_two_pow_sub_one_eq_mod n.toNat 8
    rw [UInt16.toNat_toUInt8, hand]
    omega
  apply UInt16.toNat_inj.mp
  rw [from_two, hhigh, hlow, UInt16.toNat_ofNat']
  omega

/-- **The size of a window is read back**, whatever bytes it has. -/
theorem subs_naws_payload (f : TelnetFilter) : ∃ said, Subs f.naws_payload [OPT_NAWS :: said] ∧
    window_size (OPT_NAWS :: said) = some (some (f.cols, f.rows)) := by
  refine ⟨_, subs_escape OPT_NAWS (by decide) _, ?_⟩
  rw [window_size, if_pos rfl, from_two_halves, from_two_halves]

/-! ## Calls -/

/-- A call of the session, also of the size. -/
inductive WindowCall
  | feed (chunk : List UInt8)
  | take_replies
  | resize (cols rows : UInt16)

/-- Bytes for the server, with whether the option was enabled when they were produced. -/
structure Produced where
  bytes : List UInt8
  enabled : Bool
  /-- Returned by `resize`, not queued as a reply. -/
  by_resize : Bool

/-- The replies each byte of a chunk adds to the queue. -/
def TelnetFilter.feed_produced : TelnetFilter → List UInt8 → List Produced
  | _, [] => []
  | f, byte :: chunk =>
    let g := (f.step byte).1
    ⟨g.replies.drop f.replies.length, g.naws_enabled, false⟩ :: g.feed_produced chunk

/-- A filter, and all it has produced and handed out. -/
structure Session where
  filter : TelnetFilter
  /-- In the order produced. -/
  produced : List Produced
  /-- The bytes `take_replies` returned. -/
  taken : List UInt8
  /-- The bytes `resize` returned. -/
  resized : List UInt8

namespace Session

/-- One call. -/
def step (s : Session) : WindowCall → Session
  | .feed chunk =>
    { s with
      filter := (s.filter.feed chunk).1
      produced := s.produced ++ s.filter.feed_produced chunk }
  | .take_replies =>
    { s with
      filter := s.filter.take_replies.1
      taken := s.taken ++ s.filter.take_replies.2 }
  | .resize cols rows =>
    let (f, result) := s.filter.resize cols rows
    match result with
    | some bytes =>
      { s with
        filter := f
        produced := s.produced ++ [⟨bytes, f.naws_enabled, true⟩]
        resized := s.resized ++ bytes }
    | none => { s with filter := f }

/-- A filter that has done nothing yet. -/
def new (term_type : List Char) (cols rows : UInt16) : Session :=
  ⟨.new term_type cols rows, [], [], []⟩

/-- All bytes for the server, in the order produced. -/
def bytes (s : Session) : List UInt8 := s.produced.flatMap Produced.bytes

end Session

/-! ## Invariant -/

/-- What some bytes say about a window of size `size`: if they speak of one, the option is enabled
and the last they say is that size; if they do not, it was not enabled by them. -/
def Tells (size : UInt16 × UInt16) (before after : Bool) (new : List UInt8)
    (ps : List (List UInt8)) : Prop :=
  Subs new ps ∧
    (ps.filterMap window_size = [] ∧ (after = true → before = true) ∨
      ps.filterMap window_size = [some size] ∧ after = true)

theorem tells_nothing (size : UInt16 × UInt16) {before after : Bool} {new : List UInt8}
    (h : Subs new []) (hafter : after = true → before = true) :
    Tells size before after new [] :=
  ⟨h, .inl ⟨rfl, hafter⟩⟩

theorem tells_naws_payload (f : TelnetFilter) (before : Bool) :
    ∃ said, Tells (f.cols, f.rows) before true f.naws_payload [OPT_NAWS :: said] := by
  obtain ⟨said, hsubs, hsize⟩ := subs_naws_payload f
  exact ⟨said, hsubs, .inr ⟨by rw [List.filterMap_cons_some hsize, List.filterMap_nil], rfl⟩⟩

/-- **Step lemma**: a byte leaves the size alone, and queues bytes that tell it. -/
theorem step_produces (f : TelnetFilter) (byte : UInt8) :
    ((f.step byte).1.cols, (f.step byte).1.rows) = (f.cols, f.rows) ∧
      ∃ new ps, (f.step byte).1.replies = f.replies ++ new ∧
        Tells (f.cols, f.rows) f.naws_enabled (f.step byte).1.naws_enabled new ps := by
  have hnone : f.replies = f.replies ++ [] := (List.append_nil _).symm
  have hsame : Tells (f.cols, f.rows) f.naws_enabled f.naws_enabled [] [] :=
    tells_nothing _ subs_nil id
  have hoff : Tells (f.cols, f.rows) f.naws_enabled false [] [] :=
    tells_nothing _ subs_nil (fun h => absurd h Bool.false_ne_true)
  unfold TelnetFilter.step
  cases hstate : f.state with
  | data =>
    dsimp only
    split <;> exact ⟨rfl, [], [], hnone, hsame⟩
  | iac =>
    dsimp only
    split_ifs <;> exact ⟨rfl, [], [], hnone, hsame⟩
  | will =>
    dsimp only
    split
    · exact ⟨rfl, [IAC, DO, byte], [], rfl, tells_nothing _ (subs_do byte) id⟩
    · exact ⟨rfl, [IAC, DONT, byte], [], rfl, tells_nothing _ (subs_dont byte) id⟩
  | wont =>
    dsimp only
    split
    · exact ⟨rfl, [], [], hnone, hoff⟩
    · exact ⟨rfl, [], [], hnone, hsame⟩
  | «do» =>
    dsimp only
    split
    · exact ⟨rfl, [IAC, WILL, byte], [], rfl, tells_nothing _ (subs_will byte) id⟩
    split
    · -- the option becomes enabled before its size is sent
      obtain ⟨said, hsubs, hsize⟩ := tells_naws_payload f f.naws_enabled
      refine ⟨rfl, [IAC, WILL, OPT_NAWS] ++ f.naws_payload, [OPT_NAWS :: said], ?_, ?_, hsize⟩
      · rw [← List.append_assoc]
        rfl
      · exact (subs_will OPT_NAWS).append hsubs
    · exact ⟨rfl, [IAC, WONT, byte], [], rfl, tells_nothing _ (subs_wont byte) id⟩
  | dont =>
    dsimp only
    split
    · exact ⟨rfl, [], [], hnone, hoff⟩
    · exact ⟨rfl, [], [], hnone, hsame⟩
  | sub =>
    dsimp only
    split <;> exact ⟨rfl, [], [], hnone, hsame⟩
  | sub_iac =>
    dsimp only
    split
    · exact ⟨rfl, [], [], hnone, hsame⟩
    split
    · unfold TelnetFilter.on_subnegotiation
      split
      · split
        · refine ⟨rfl, _, _, rfl, subs_terminal_type f.term_type, .inl ⟨rfl, id⟩⟩
        · exact ⟨rfl, [], [], hnone, hsame⟩
      · exact ⟨rfl, [], [], hnone, hsame⟩
    · exact ⟨rfl, [], [], hnone, hsame⟩

/-- What holds of a session at any time. -/
structure Session.Told (s : Session) : Prop where
  subs : ∀ p ∈ s.produced, ∃ ps, Subs p.bytes ps ∧ (ps.filterMap window_size ≠ [] → p.enabled)
  last : s.filter.naws_enabled = true →
    (s.produced.flatMap (window_sizes ·.bytes)).getLast? =
      some (some (s.filter.cols, s.filter.rows))
  queued : (s.produced.filter (!·.by_resize)).flatMap Produced.bytes =
    s.taken ++ s.filter.replies
  resized : (s.produced.filter (·.by_resize)).flatMap Produced.bytes = s.resized

namespace Session

theorem told_new (term_type : List Char) (cols rows : UInt16) :
    (new term_type cols rows).Told :=
  ⟨fun _ h => absurd h List.not_mem_nil, fun h => absurd h Bool.false_ne_true, rfl, rfl⟩

theorem step_feed_cons (s : Session) (byte : UInt8) (chunk : List UInt8) :
    s.step (.feed (byte :: chunk)) = (s.step (.feed [byte])).step (.feed chunk) := by
  simp [step, TelnetFilter.feed, TelnetFilter.feed_produced]

variable {s : Session}

theorem Told.feed_byte (h : s.Told) (byte : UInt8) : (s.step (.feed [byte])).Told := by
  obtain ⟨hsize, new, ps, hnew, hsubs, htells⟩ := step_produces s.filter byte
  obtain ⟨hcols, hrows⟩ := Prod.mk.inj hsize
  have hproduced : (s.step (.feed [byte])).produced =
      s.produced ++ [⟨new, (s.filter.step byte).1.naws_enabled, false⟩] := by
    simp [step, TelnetFilter.feed_produced, hnew]
  have hfilter : (s.step (.feed [byte])).filter = (s.filter.step byte).1 := rfl
  refine ⟨?_, ?_, ?_, ?_⟩
  · rw [hproduced]
    intro p hp
    rcases List.mem_append.mp hp with hp | hp
    · exact h.subs p hp
    · obtain rfl := List.mem_singleton.mp hp
      refine ⟨ps, hsubs, fun hsome => ?_⟩
      obtain ⟨hempty, -⟩ | ⟨-, henabled⟩ := htells
      · exact absurd hempty hsome
      · exact henabled
  · rw [hproduced, hfilter, hcols, hrows]
    intro henabled
    rw [List.flatMap_append, List.flatMap_singleton]
    show (_ ++ Telnet.window_sizes new).getLast? = _
    rw [hsubs.window_sizes]
    obtain ⟨hempty, hbefore⟩ | ⟨hone, -⟩ := htells
    · rw [hempty, List.append_nil]
      exact h.last (hbefore henabled)
    · rw [hone, List.getLast?_concat]
  · rw [hproduced, hfilter, hnew, ← List.append_assoc]
    simp [← h.queued, step]
  · rw [hproduced]
    simp [← h.resized, step]

theorem Told.feed (h : s.Told) (chunk : List UInt8) : (s.step (.feed chunk)).Told := by
  induction chunk generalizing s with
  | nil =>
    have hnil : s.step (.feed []) = s := by simp [step, TelnetFilter.feed_produced,
      TelnetFilter.feed]
    rw [hnil]
    exact h
  | cons byte chunk ih =>
    rw [step_feed_cons]
    exact ih (h.feed_byte byte)

theorem Told.take_replies (h : s.Told) : (s.step .take_replies).Told := by
  refine ⟨h.subs, h.last, ?_, h.resized⟩
  show _ = s.taken ++ s.filter.replies ++ []
  rw [List.append_nil]
  exact h.queued

theorem Told.resize (h : s.Told) (cols rows : UInt16) : (s.step (.resize cols rows)).Told := by
  by_cases hsame : cols = s.filter.cols ∧ rows = s.filter.rows
  · have hstep : s.step (.resize cols rows) = s := by
      simp only [step, TelnetFilter.resize, if_pos hsame]
    rw [hstep]
    exact h
  by_cases henabled : s.filter.naws_enabled = true
  · let f : TelnetFilter := { s.filter with cols, rows }
    have hstep : s.step (.resize cols rows) =
        { filter := f, produced := s.produced ++ [⟨f.naws_payload, true, true⟩],
          taken := s.taken, resized := s.resized ++ f.naws_payload } := by
      simp only [step, TelnetFilter.resize, if_neg hsame, henabled, if_true, f]
    obtain ⟨said, hsubs, hsize⟩ := subs_naws_payload f
    rw [hstep]
    refine ⟨fun p hp => ?_, fun _ => ?_, ?_, ?_⟩
    · rcases List.mem_append.mp hp with hp | hp
      · exact h.subs p hp
      · obtain rfl := List.mem_singleton.mp hp
        exact ⟨_, hsubs, fun _ => rfl⟩
    · rw [List.flatMap_append, List.flatMap_singleton]
      show (_ ++ Telnet.window_sizes f.naws_payload).getLast? = _
      rw [hsubs.window_sizes, List.filterMap_cons_some hsize, List.filterMap_nil,
        List.getLast?_concat]
    · simp [h.queued, f]
    · simp [h.resized]
  · -- nothing is sent, but the size is the new one when the option becomes enabled
    have hstep : s.step (.resize cols rows) =
        { s with filter := { s.filter with cols, rows } } := by
      simp only [step, TelnetFilter.resize, if_neg hsame, if_neg henabled]
    rw [hstep]
    exact ⟨h.subs, fun hon => absurd hon henabled, h.queued, h.resized⟩

/-- **Step lemma**, for any call. -/
theorem Told.step (h : s.Told) : ∀ call, (s.step call).Told
  | .feed chunk => h.feed chunk
  | .take_replies => h.take_replies
  | .resize cols rows => h.resize cols rows

/-- What is produced in one call is no part of a subnegotiation begun in another. -/
theorem Told.window_sizes_bytes (h : s.Told) :
    window_sizes s.bytes = s.produced.flatMap (window_sizes ·.bytes) := by
  have hall : ∀ produced : List Produced,
      (∀ p ∈ produced, ∃ ps, Subs p.bytes ps ∧ (ps.filterMap window_size ≠ [] → p.enabled)) →
      ∃ ps, Subs (produced.flatMap Produced.bytes) ps ∧
        ps.filterMap window_size = produced.flatMap (window_sizes ·.bytes) := by
    intro produced hproduced
    induction produced with
    | nil => exact ⟨[], subs_nil, rfl⟩
    | cons p produced ih =>
      obtain ⟨⟨qs, hqs, -⟩, hrest⟩ := List.forall_mem_cons.mp hproduced
      obtain ⟨ps, hps, hsizes⟩ := ih hrest
      refine ⟨qs ++ ps, hqs.append hps, ?_⟩
      rw [List.filterMap_append, hsizes, List.flatMap_cons, hqs.window_sizes]
  obtain ⟨ps, hps, hsizes⟩ := hall s.produced h.subs
  rw [bytes, hps.window_sizes, hsizes]

end Session

/-- **The server knows the size**: after any calls, while the option is enabled the last size told
is the present one; whatever spoke of a size was produced with the option enabled; and what was
produced is what was handed out and what is still queued, in order. -/
theorem window_size_told (term_type : List Char) (cols rows : UInt16) (calls : List WindowCall) :
    let s := StepRun.run Session.step (.new term_type cols rows) calls
    (s.filter.naws_enabled = true →
      (window_sizes s.bytes).getLast? = some (some (s.filter.cols, s.filter.rows))) ∧
    (∀ p ∈ s.produced, window_sizes p.bytes ≠ [] → p.enabled = true) ∧
    window_sizes s.bytes = s.produced.flatMap (window_sizes ·.bytes) ∧
    (s.produced.filter (!·.by_resize)).flatMap Produced.bytes = s.taken ++ s.filter.replies ∧
    (s.produced.filter (·.by_resize)).flatMap Produced.bytes = s.resized := by
  intro s
  have hany : StepRun.Guarded Session.step (fun _ _ => True) (.new term_type cols rows) calls :=
    StepRun.guarded_of_forall fun _ _ => trivial
  have htold : s.Told :=
    StepRun.run_inv (fun s call hs _ => hs.step call) calls _
      (Session.told_new term_type cols rows) hany
  refine ⟨fun henabled => ?_, fun p hp hsome => ?_, htold.window_sizes_bytes, htold.queued,
    htold.resized⟩
  · rw [htold.window_sizes_bytes]
    exact htold.last henabled
  · obtain ⟨ps, hps, himp⟩ := htold.subs p hp
    rw [hps.window_sizes] at hsome
    exact himp hsome

/-- A window 255 columns wide, asked for and then changed. -/
example : window_sizes (StepRun.run Session.step (.new [] 80 24)
    [.resize 255 24, .feed [IAC, DO, OPT_NAWS], .take_replies, .resize 255 50]).bytes =
    [some (255, 24), some (255, 50)] := by decide

end WaSSH.Telnet
