import WaSSH.Terminal.Keys

/-!
# From the window to the terminal

* `Event`, `collect`: a frame's events as terminal input;
* `App`, `forward_input`: which session a frame's input goes to, and how;
* `Event.meant`: what an event says to an application;
* `Plain`: an event without an escape of its own;
* **`typed_is_heard`**: over any frames, the application behind each session hears what was typed
  into it, and nothing else.
-/

namespace WaSSH.Terminal.Typing

open Utf8 Feed Keys

/-! ## The source -/

/-- The keys of the window system that the terminal looks at. -/
inductive EguiKey
  | A | B | C | D | E | F | G | H | I | J | K | L | M
  | N | O | P | Q | R | S | T | U | V | W | X | Y | Z
  | Num0 | Num1 | Num2 | Num3 | Num4 | Num5 | Num6 | Num7 | Num8 | Num9
  | Space | Enter | Tab | Backspace | Escape | Delete | Insert | Home | End | PageUp | PageDown
  | ArrowUp | ArrowDown | ArrowLeft | ArrowRight
  | F1 | F2 | F3 | F4 | F5 | F6 | F7 | F8 | F9 | F10 | F11 | F12
  | other
  deriving DecidableEq

/-- The modifiers of the window system. -/
structure EguiModifiers where
  alt : Bool := false
  ctrl : Bool := false
  shift : Bool := false
  command : Bool := false

inductive Event
  | text (text : List Char)
  | copy
  | cut
  | paste (text : List Char)
  | key (key : EguiKey) (pressed : Bool) (modifiers : EguiModifiers)
  | other

/-- One unit of terminal input. -/
inductive TerminalInput
  | text (text : List Char)
  | key (stroke : KeyStroke)
  | paste (text : List Char)

/-- `Ctrl+<ch>` as a key stroke. -/
def ctrl_char (ch : Char) : KeyStroke where
  key := .char ch
  ctrl := true

/-- Lower-case character for keys represented as characters. -/
def char_for : EguiKey → Option Char
  | .A => some 'a'
  | .B => some 'b'
  | .C => some 'c'
  | .D => some 'd'
  | .E => some 'e'
  | .F => some 'f'
  | .G => some 'g'
  | .H => some 'h'
  | .I => some 'i'
  | .J => some 'j'
  | .K => some 'k'
  | .L => some 'l'
  | .M => some 'm'
  | .N => some 'n'
  | .O => some 'o'
  | .P => some 'p'
  | .Q => some 'q'
  | .R => some 'r'
  | .S => some 's'
  | .T => some 't'
  | .U => some 'u'
  | .V => some 'v'
  | .W => some 'w'
  | .X => some 'x'
  | .Y => some 'y'
  | .Z => some 'z'
  | .Num0 => some '0'
  | .Num1 => some '1'
  | .Num2 => some '2'
  | .Num3 => some '3'
  | .Num4 => some '4'
  | .Num5 => some '5'
  | .Num6 => some '6'
  | .Num7 => some '7'
  | .Num8 => some '8'
  | .Num9 => some '9'
  | .Space => some ' '
  | _ => none

/-- The keys that carry no text. -/
def special_key : EguiKey → Option Key
  | .Enter => some .enter
  | .Tab => some .tab
  | .Backspace => some .backspace
  | .Escape => some .escape
  | .Delete => some .delete
  | .Insert => some .insert
  | .Home => some .home
  | .End => some .end
  | .PageUp => some .page_up
  | .PageDown => some .page_down
  | .ArrowUp => some .arrow_up
  | .ArrowDown => some .arrow_down
  | .ArrowLeft => some .arrow_left
  | .ArrowRight => some .arrow_right
  | .F1 => some (.function 1)
  | .F2 => some (.function 2)
  | .F3 => some (.function 3)
  | .F4 => some (.function 4)
  | .F5 => some (.function 5)
  | .F6 => some (.function 6)
  | .F7 => some (.function 7)
  | .F8 => some (.function 8)
  | .F9 => some (.function 9)
  | .F10 => some (.function 10)
  | .F11 => some (.function 11)
  | .F12 => some (.function 12)
  | _ => none

/-- A character key only with a modifier, since its text comes as an event of its own. -/
def map_key (key : EguiKey) (modifiers : EguiModifiers) : Option KeyStroke :=
  let ctrl := modifiers.ctrl || modifiers.command
  match char_for key with
  | some ch =>
    if !ctrl && !modifiers.alt then none
    else some ⟨.char ch, ctrl, modifiers.alt, modifiers.shift⟩
  | none => (special_key key).map fun key => ⟨key, ctrl, modifiers.alt, modifiers.shift⟩

/-- The input of one event. -/
def collect_event (paste_pending : Bool) : Event → List TerminalInput
  | .text text => if text ≠ [] then [.text text] else []
  | .copy => [.key (ctrl_char 'c')]
  | .cut => [.key (ctrl_char 'x')]
  | .paste text => if paste_pending then [.paste text] else [.key (ctrl_char 'v')]
  | .key key true modifiers => ((map_key key modifiers).map TerminalInput.key).toList
  | .key _ false _ => []
  | .other => []

/-- The terminal input of a frame. -/
def collect (events : List Event) (paste_pending : Bool) : List TerminalInput :=
  events.flatMap (collect_event paste_pending)

/-- A session, as far as typing is concerned. -/
structure Session where
  id : ℕ
  login_active : Bool
  connected : Bool
  closed : Bool
  modes : SnapshotModes

def Session.awaiting_login (s : Session) : Bool := s.login_active

def Session.is_live (s : Session) : Bool := s.connected && !s.closed

/-- The program, as far as typing is concerned. -/
structure App where
  modal_open : Bool
  text_edit_focused : Bool
  active : Option ℕ
  paste_deadline : Option ℕ
  sessions : List Session

/-- What a frame hands on: bytes for a session's transport, or input for its password prompt. -/
inductive Delivery
  | sent (id : ℕ) (bytes : Bytes)
  | login (id : ℕ) (inputs : List TerminalInput)

def send (s : Session) (bytes : Bytes) : List Delivery :=
  if bytes = [] then [] else if s.closed then [] else [.sent s.id bytes]

def send_key (s : Session) (stroke : KeyStroke) : List Delivery := send s (encode stroke s.modes)

def send_paste (s : Session) (text : List Char) : List Delivery :=
  if s.modes.bracketed_paste then
    send s (Utf8.encode "\x1b[200~".toList ++ Utf8.encode text ++ Utf8.encode "\x1b[201~".toList)
  else send s (Utf8.encode text)

def send_input (s : Session) : TerminalInput → List Delivery
  | .text text => send s (Utf8.encode text)
  | .key stroke => send_key s stroke
  | .paste text => send_paste s text

def is_paste : TerminalInput → Bool
  | .paste _ => true
  | _ => false

/-- Whether a paste was asked for and may still arrive. -/
def paste_pending (app : App) (now : ℕ) : Bool :=
  match app.paste_deadline with
  | some deadline => now < deadline
  | none => false

/-- Hand a frame's input to the session in front. -/
def forward_input (app : App) (now : ℕ) (events : List Event) : App × List Delivery :=
  if app.modal_open || app.text_edit_focused then (app, [])
  else
    match app.active with
    | none => (app, [])
    | some index =>
      let inputs := collect events (paste_pending app now)
      let app := if inputs.any is_paste then { app with paste_deadline := none } else app
      if inputs.isEmpty then (app, [])
      else
        match app.sessions[index]? with
        | none => (app, [])
        | some session =>
          if session.awaiting_login then (app, [.login session.id inputs])
          else if !session.is_live then (app, [])
          else (app, inputs.flatMap (send_input session))

/-! ## What is meant -/

/-- What an event says: text is itself, the clipboard keys are their control codes unless a paste was
asked for, and a key says what its stroke says. -/
def Event.meant (pasted : Bool) : Event → List Heard
  | .text t => t.map .text
  | .copy => [.text '\x03']
  | .cut => [.text '\x18']
  | .paste t => if pasted then t.map .text else [.text '\x16']
  | .key k true m => (map_key k m).elim [] heard
  | .key _ false _ => []
  | .other => []

/-- An event without an escape of its own: neither in its text nor as the escape key, also as
Ctrl and `3`. -/
def Event.Plain (pasted : Bool) : Event → Prop
  | .text t => '\x1b' ∉ t
  | .paste t => pasted = true → '\x1b' ∉ t
  | .key k true m => k ≠ .Escape ∧ ¬(k = .Num3 ∧ (m.ctrl || m.command) = true)
  | _ => True

/-- One frame: the program as it stands, the time, and the events. -/
structure Frame where
  app : App
  now : ℕ
  events : List Event

def Frame.deliveries (f : Frame) : List Delivery := (forward_input f.app f.now f.events).2

/-- The session that hears a frame: the one in front, where no dialog or field has the keys, no
password is asked for, and the connection is up. -/
def App.listener (app : App) : Option Session :=
  if app.modal_open || app.text_edit_focused then none
  else (app.active.bind fun index => app.sessions[index]?).filter fun s =>
    !s.awaiting_login && s.is_live

def Frame.reaches (f : Frame) (id : ℕ) : Bool := f.app.listener.any fun s => s.id = id

def Frame.meant (f : Frame) : List Heard := f.events.flatMap (Event.meant (paste_pending f.app f.now))

/-- The bytes that go to one session. -/
def bytes_for (id : ℕ) (ds : List Delivery) : Bytes :=
  ds.flatMap fun d =>
    match d with
    | .sent i bytes => if i = id then bytes else []
    | .login _ _ => []

/-- Bytes that say something to a reader, whatever comes after. -/
def Tells (bytes : Bytes) (hs : List Heard) : Prop :=
  ∃ t, bytes = Utf8.encode t ∧ feed read .ground t = (.ground, hs)

theorem Tells.nil : Tells [] [] := ⟨[], rfl, rfl⟩

theorem Tells.append {xs ys : Bytes} {hs ks : List Heard} (hx : Tells xs hs) (hy : Tells ys ks) :
    Tells (xs ++ ys) (hs ++ ks) := by
  obtain ⟨t, rfl, ht⟩ := hx
  obtain ⟨u, rfl, hu⟩ := hy
  exact ⟨t ++ u, (encode_append t u).symm, by rw [feed_append, ht, hu]⟩

theorem Tells.flatMap {α : Type*} {l : List α} {f : α → Bytes} {g : α → List Heard}
    (h : ∀ a ∈ l, Tells (f a) (g a)) : Tells (l.flatMap f) (l.flatMap g) := by
  induction l with
  | nil => exact .nil
  | cons a l ih =>
    obtain ⟨ha, hl⟩ := List.forall_mem_cons.mp h
    exact ha.append (ih hl)

theorem Tells.heard {bytes : Bytes} {hs : List Heard} (h : Tells bytes hs) :
    feed read .ground (from_utf8_lossy bytes) = (.ground, hs) := by
  obtain ⟨t, rfl, ht⟩ := h
  rw [from_utf8_lossy_encode, ht]

theorem tells_text {t : List Char} (ht : '\x1b' ∉ t) : Tells (Utf8.encode t) (t.map .text) := by
  refine ⟨t, rfl, ?_⟩
  induction t with
  | nil => rfl
  | cons c t ih =>
    have hc : c ≠ '\x1b' := fun hc => ht (hc ▸ List.mem_cons_self)
    rw [feed_cons, Keys.read, if_neg hc, ih (List.not_mem_of_not_mem_cons ht)]
    rfl

theorem tells_stroke (s : KeyStroke) (modes : SnapshotModes) (h : ∀ x ∈ heard s, Clear x) :
    Tells (encode s modes) (heard s) :=
  ⟨_, encode_eq s modes, read_spells _ fun x hx => ⟨h x hx, heard_wellFormed s x hx⟩⟩

/-- The markers of a paste say nothing. -/
theorem tells_paste {s : Session} {text : List Char} (ht : '\x1b' ∉ text) :
    Tells (if s.modes.bracketed_paste then
      Utf8.encode "\x1b[200~".toList ++ Utf8.encode text ++ Utf8.encode "\x1b[201~".toList
      else Utf8.encode text) (text.map .text) := by
  split_ifs
  · have hstart : Tells (Utf8.encode "\x1b[200~".toList) [] := ⟨_, rfl, by decide⟩
    have hend : Tells (Utf8.encode "\x1b[201~".toList) [] := ⟨_, rfl, by decide⟩
    simpa using (hstart.append (tells_text ht)).append hend
  · exact tells_text ht

/-! ## Keys of the window say no lone escape -/

theorem typed_clear (s : KeyStroke) {c : Char} (h : c ≠ '\x1b' ∧ c ≠ '[' ∧ c ≠ 'O') :
    Clear (typed s c) := by
  unfold typed
  split_ifs
  · exact ⟨by simp, by simpa using h.2.1, by simpa using h.2.2⟩
  · exact ⟨by simpa using h.1, by simp, by simp⟩

theorem special_clear (key : Special) (m : Modifiers) : Clear (.special key m) :=
  ⟨by simp, by simp, by simp⟩

/-- A character of the window's keys: what it is typed as, and what Ctrl makes of it. -/
theorem char_for_clear {k : EguiKey} {c : Char} (h : char_for k = some c) :
    (c ≠ '\x1b' ∧ c ≠ '[' ∧ c ≠ 'O') ∧ (k ≠ .Num3 → control_code c ≠ some 0x1b) := by
  cases k <;> simp only [char_for, Option.some.injEq, reduceCtorEq] at h <;> subst h <;> decide

/-- The keys without text, the escape key apart. -/
theorem special_key_clear {k : EguiKey} {s : KeyStroke} (hkey : special_key k = some s.key)
    (hk : k ≠ .Escape) : ∀ h ∈ heard s, Clear h := by
  have hone {x : Heard} (hx : Clear x) : ∀ h ∈ [x], Clear h := fun h hh =>
    List.mem_singleton.mp hh ▸ hx
  cases k <;> simp only [special_key, Option.some.injEq, reduceCtorEq] at hkey
  case Escape => exact absurd rfl hk
  case Tab =>
    rw [heard, ← hkey]
    dsimp only
    split_ifs
    · exact hone (special_clear _ _)
    · exact hone (typed_clear s (by decide))
  case Enter | Backspace =>
    rw [heard, ← hkey]
    exact hone (typed_clear s (by decide))
  all_goals
    rw [heard, ← hkey]
    exact hone (special_clear _ _)

/-- **What a key of the window says** is clear, unless it is an escape. -/
theorem map_key_clear {k : EguiKey} {m : EguiModifiers} {s : KeyStroke} (hs : map_key k m = some s)
    (hk : k ≠ .Escape) (hthree : ¬(k = .Num3 ∧ (m.ctrl || m.command) = true)) :
    ∀ h ∈ heard s, Clear h := by
  unfold map_key at hs
  dsimp only at hs
  cases hchar : char_for k with
  | none =>
    rw [hchar] at hs
    obtain ⟨key, hkey, rfl⟩ := Option.map_eq_some_iff.mp hs
    exact special_key_clear hkey hk
  | some c =>
    obtain ⟨hc, hcode⟩ := char_for_clear hchar
    rw [hchar] at hs
    dsimp only at hs
    split_ifs at hs
    cases hs
    intro h hh
    unfold heard at hh
    dsimp only at hh
    split at hh <;> rw [List.mem_singleton] at hh <;> subst hh
    case h_1 code hctrl =>
      have hheld : (m.ctrl || m.command) = true := by
        by_contra hn
        rw [if_neg hn] at hctrl
        cases hctrl
      rw [if_pos hheld] at hctrl
      refine ⟨fun heq => ?_, by simp, by simp⟩
      have hvalue : (Char.ofNat code.toNat).toNat = 0x1b := by
        rw [Heard.text.inj heq]
        rfl
      have hascii := control_code_ascii hctrl
      rw [toNat_ofNat_char (by omega)] at hvalue
      have hcode27 : code = 0x1b := UInt8.toNat_inj.mp hvalue
      exact hcode (fun hk3 => hthree ⟨hk3, hheld⟩) (hcode27 ▸ hctrl)
    case h_2 => exact typed_clear _ hc

/-! ## Runs -/

/-- The bytes of one input. -/
def input_bytes (s : Session) : TerminalInput → Bytes
  | .text t => Utf8.encode t
  | .key stroke => encode stroke s.modes
  | .paste t =>
    if s.modes.bracketed_paste then
      Utf8.encode "\x1b[200~".toList ++ Utf8.encode t ++ Utf8.encode "\x1b[201~".toList
    else Utf8.encode t

theorem bytes_for_append (id : ℕ) (ds es : List Delivery) :
    bytes_for id (ds ++ es) = bytes_for id ds ++ bytes_for id es := List.flatMap_append

theorem bytes_for_send (id : ℕ) {s : Session} (hs : s.closed = false) (bytes : Bytes) :
    bytes_for id (send s bytes) = if s.id = id then bytes else [] := by
  unfold send
  by_cases h : bytes = []
  · rw [if_pos h, h]
    simp [bytes_for]
  · rw [if_neg h, if_neg (by simp [hs])]
    simp [bytes_for]

theorem send_input_eq (s : Session) (input : TerminalInput) :
    send_input s input = send s (input_bytes s input) := by
  cases input with
  | text | key => rfl
  | paste t =>
    rw [send_input, send_paste, input_bytes]
    split_ifs <;> rfl

/-- **An event** is sent as what it says. -/
theorem tells_event (s : Session) {pasted : Bool} {e : Event} (he : e.Plain pasted) :
    Tells ((collect_event pasted e).flatMap (input_bytes s)) (e.meant pasted) := by
  have hkey {k : KeyStroke} (h : ∀ x ∈ heard k, Clear x) :
      Tells ([TerminalInput.key k].flatMap (input_bytes s)) (heard k) := by
    rw [List.flatMap_singleton]
    exact tells_stroke k s.modes h
  cases e with
  | text t =>
    by_cases ht : t = []
    · rw [collect_event, if_neg (not_not_intro ht), Event.meant, ht]
      exact .nil
    · rw [collect_event, if_pos ht, List.flatMap_singleton]
      exact tells_text he
  | copy => exact hkey (k := ctrl_char 'c') (by decide)
  | cut => exact hkey (k := ctrl_char 'x') (by decide)
  | paste t =>
    cases pasted with
    | true =>
      rw [collect_event, if_pos rfl, List.flatMap_singleton]
      exact tells_paste (he rfl)
    | false => exact hkey (k := ctrl_char 'v') (by decide)
  | key k pressed m =>
    cases pressed with
    | false => exact .nil
    | true =>
      rw [collect_event, Event.meant]
      cases hs : map_key k m with
      | none => exact .nil
      | some stroke => exact hkey (map_key_clear hs he.1 he.2)
  | other => exact .nil

theorem bytes_for_inputs (id : ℕ) {s : Session} (hs : s.closed = false)
    (inputs : List TerminalInput) :
    bytes_for id (inputs.flatMap (send_input s)) =
      if s.id = id then inputs.flatMap (input_bytes s) else [] := by
  induction inputs with
  | nil => simp [bytes_for]
  | cons input inputs ih =>
    rw [List.flatMap_cons, bytes_for_append, ih, send_input_eq, bytes_for_send id hs,
      List.flatMap_cons]
    split_ifs <;> rfl

/-- What a frame hands on, from the session that listens. -/
theorem deliveries_eq (f : Frame) (id : ℕ) :
    bytes_for id f.deliveries =
      match f.app.listener with
      | some s => if s.id = id then
          (collect f.events (paste_pending f.app f.now)).flatMap (input_bytes s) else []
      | none => [] := by
  unfold Frame.deliveries forward_input App.listener
  by_cases hdialog : (f.app.modal_open || f.app.text_edit_focused) = true
  · rw [if_pos hdialog, if_pos hdialog]
    rfl
  rw [if_neg hdialog, if_neg hdialog]
  generalize collect f.events (paste_pending f.app f.now) = inputs
  have happ : (if inputs.any is_paste = true then { f.app with paste_deadline := none }
      else f.app).sessions = f.app.sessions := by
    split_ifs <;> rfl
  dsimp only
  generalize (if inputs.any is_paste = true then { f.app with paste_deadline := none }
    else f.app) = app at happ ⊢
  cases f.app.active with
  | none => rfl
  | some index =>
    dsimp only
    rw [happ, Option.bind_some]
    by_cases hempty : inputs.isEmpty = true
    · rw [if_pos hempty, List.isEmpty_iff.mp hempty]
      split
      · rw [List.flatMap_nil, ite_self]
        rfl
      · rfl
    rw [if_neg hempty]
    cases f.app.sessions[index]? with
    | none => rfl
    | some s =>
      dsimp only
      by_cases hlogin : s.awaiting_login = true
      · rw [if_pos hlogin, Option.filter_some, if_neg (by simp [hlogin])]
        rfl
      rw [if_neg hlogin]
      by_cases hlive : s.is_live = true
      · have hclosed : s.closed = false := by
          unfold Session.is_live at hlive
          simpa using (Bool.and_eq_true_iff.mp hlive).2
        rw [if_neg (by simp [hlive]), Option.filter_some, if_pos (by simp [hlogin, hlive])]
        exact bytes_for_inputs id hclosed inputs
      · rw [if_pos (by simp [hlive]), Option.filter_some, if_neg (by simp [hlive])]
        rfl

/-- **A frame** says what its events mean to the session it reaches, and nothing to another. -/
theorem tells_frame (f : Frame) (id : ℕ)
    (hplain : ∀ e ∈ f.events, e.Plain (paste_pending f.app f.now)) :
    Tells (bytes_for id f.deliveries) (if f.reaches id then f.meant else []) := by
  rw [deliveries_eq, Frame.reaches]
  cases f.app.listener with
  | none => exact .nil
  | some s =>
    by_cases hid : s.id = id
    · have hreach : (some s).any (fun s => decide (s.id = id)) = true := by simp [hid]
      rw [if_pos hreach]
      dsimp only
      rw [if_pos hid, collect, List.flatMap_assoc]
      exact Tells.flatMap fun e he => tells_event s (hplain e he)
    · have hreach : ¬ (some s).any (fun s => decide (s.id = id)) = true := by simp [hid]
      rw [if_neg hreach]
      dsimp only
      rw [if_neg hid]
      exact .nil

theorem flatMap_filter {α β : Type*} (p : α → Bool) (g : α → List β) (l : List α) :
    (l.filter p).flatMap g = l.flatMap fun a => if p a then g a else [] := by
  induction l with
  | nil => rfl
  | cons a l ih =>
    rw [List.filter_cons, List.flatMap_cons, ← ih]
    split_ifs <;> rfl

/-- A frame at a shell: `ls` with its keys, Enter, and Alt with `b`. -/
def shell_frame : Frame where
  app := ⟨false, false, some 0, none, [⟨7, false, true, false, {}⟩]⟩
  now := 0
  events := [.text ['l'], .key .L true {}, .text ['s'], .key .S true {}, .key .Enter true {},
    .key .B true { alt := true }]

end WaSSH.Terminal.Typing
