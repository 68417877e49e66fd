import WaSSH.Lib.Text

/-!
# The login prompt

A frame brings the prompt a list of inputs. It edits the line with all of them and then looks at
whether one of them was an Enter or an escape.

* `TerminalInput`, `login_input`: the source;
* `Edit`, `edits`: the inputs one keystroke at a time;
* `Outcome`, `line_editor`: a line editor that stops at the first Enter;
* `Quiet`: nothing after the first Enter of a frame counts;
* **`login_iff`**: the frames for which the prompt is that editor.
-/

namespace WaSSH.Terminal.Login

/-- A key stroke, as far as the prompt looks at it. -/
inductive Key
  | enter | backspace | escape
  | char (c : Char)
  | other
  deriving DecidableEq

structure KeyStroke where
  key : Key
  ctrl : Bool
  deriving DecidableEq

inductive TerminalInput
  | text (text : List Char)
  | paste (text : List Char)
  | key (stroke : KeyStroke)
  deriving DecidableEq

/-- `char::is_control`: the category Cc. -/
def is_control (c : Char) : Bool := c.toNat < 0x20 || (0x7f ≤ c.toNat && c.toNat < 0xa0)

/-! ## The source -/

/-- What the loop keeps: the line, and whether there was an Enter or an escape. -/
structure Loop where
  buffer : List Char
  submit : Bool := false
  cancel : Bool := false
  deriving DecidableEq

/-- One character of typed text. -/
def text_char (l : Loop) (c : Char) : Loop :=
  if c = '\r' ∨ c = '\n' then { l with submit := true }
  else if c = '\x7f' then { l with buffer := l.buffer.dropLast }
  else if c = '\x03' then { l with cancel := true }
  else if is_control c = false then { l with buffer := l.buffer ++ [c] }
  else l

/-- One input of the frame. -/
def input (l : Loop) : TerminalInput → Loop
  | .text text => text.foldl text_char l
  | .paste text => { l with buffer := l.buffer ++ text.filter fun c => !is_control c }
  | .key stroke =>
    match stroke.key with
    | .enter => { l with submit := true }
    | .backspace => { l with buffer := l.buffer.dropLast }
    | .escape => { l with cancel := true }
    | .char c =>
      if c = 'c' ∧ stroke.ctrl = true then { l with cancel := true }
      else if c = 'u' ∧ stroke.ctrl = true then { l with buffer := [] }
      else l
    | .other => l

/-- How a prompt ends, or the line it has so far. -/
inductive Outcome
  | waiting (buffer : List Char)
  | submitted (password : List Char)
  | cancelled
  deriving DecidableEq

/-- `login_input` for an active prompt with this line: `submit_login` hands the line over. -/
def login_input (buffer : List Char) (inputs : List TerminalInput) : Outcome :=
  let l := inputs.foldl input { buffer }
  if l.cancel then .cancelled
  else if l.submit then .submitted l.buffer
  else .waiting l.buffer

/-- Frame after frame, as long as the prompt is active. -/
def login_frames (buffer : List Char) : List (List TerminalInput) → Outcome
  | [] => .waiting buffer
  | inputs :: frames =>
    match login_input buffer inputs with
    | .waiting buffer => login_frames buffer frames
    | outcome => outcome

/-! ## A line editor -/

/-- One keystroke. -/
inductive Edit
  | push (c : Char)
  | pop | clear | submit | cancel | ignore
  deriving DecidableEq

def char_edit (c : Char) : Edit :=
  if c = '\r' ∨ c = '\n' then .submit
  else if c = '\x7f' then .pop
  else if c = '\x03' then .cancel
  else if is_control c = false then .push c
  else .ignore

/-- The keystrokes of an input. -/
def TerminalInput.edits : TerminalInput → List Edit
  | .text typed => typed.map char_edit
  | .paste pasted => (pasted.filter fun c => !is_control c).map .push
  | .key stroke =>
    match stroke.key with
    | .enter => [.submit]
    | .backspace => [.pop]
    | .escape => [.cancel]
    | .char c =>
      if c = 'c' ∧ stroke.ctrl = true then [.cancel]
      else if c = 'u' ∧ stroke.ctrl = true then [.clear]
      else [.ignore]
    | .other => [.ignore]

/-- The line after a keystroke. -/
def Edit.apply (buffer : List Char) : Edit → List Char
  | .push c => buffer ++ [c]
  | .pop => buffer.dropLast
  | .clear => []
  | .submit | .cancel | .ignore => buffer

/-- The editor: it stops at the first Enter, and at the first escape. -/
def line_editor (buffer : List Char) : List Edit → Outcome
  | [] => .waiting buffer
  | .submit :: _ => .submitted buffer
  | .cancel :: _ => .cancelled
  | edit :: edits => line_editor (edit.apply buffer) edits

/-- What comes after the first Enter leaves the line as it is and does not cancel. -/
def Quiet (buffer : List Char) : List Edit → Prop
  | [] => True
  | .submit :: edits => .cancel ∉ edits ∧ edits.foldl Edit.apply buffer = buffer
  | .cancel :: _ => True
  | edit :: edits => Quiet (edit.apply buffer) edits

/-- So it is in the frame in which the prompt ends. -/
def QuietFrames (buffer : List Char) : List (List TerminalInput) → Prop
  | [] => True
  | inputs :: frames =>
    Quiet buffer (inputs.flatMap TerminalInput.edits) ∧
      ∀ next, line_editor buffer (inputs.flatMap TerminalInput.edits) = .waiting next →
        QuietFrames next frames

/-! ## One frame -/

/-- The loop over keystrokes. -/
def Loop.edit (l : Loop) (e : Edit) : Loop :=
  { buffer := e.apply l.buffer
    submit := l.submit || decide (e = .submit)
    cancel := l.cancel || decide (e = .cancel) }

theorem text_char_eq (l : Loop) (c : Char) : text_char l c = l.edit (char_edit c) := by
  unfold text_char char_edit
  split_ifs <;> simp [Loop.edit, Edit.apply]

theorem foldl_push (l : Loop) (text : List Char) :
    (text.map Edit.push).foldl Loop.edit l = { l with buffer := l.buffer ++ text } := by
  induction text generalizing l with
  | nil => simp
  | cons c text ih =>
    rw [List.map_cons, List.foldl_cons, ih]
    simp [Loop.edit, Edit.apply]

/-- **The loop of the source** is the loop over the keystrokes. -/
theorem input_eq (l : Loop) (i : TerminalInput) : input l i = i.edits.foldl Loop.edit l := by
  cases i with
  | text text =>
    unfold input TerminalInput.edits
    rw [List.foldl_map]
    exact congrArg (fun f => List.foldl f l text) (funext₂ text_char_eq)
  | paste text =>
    unfold input TerminalInput.edits
    rw [foldl_push]
  | key stroke =>
    obtain ⟨key, ctrl⟩ := stroke
    cases key with
    | char c =>
      unfold input TerminalInput.edits
      dsimp only
      split_ifs <;> simp [Loop.edit, Edit.apply]
    | _ => simp [input, TerminalInput.edits, Loop.edit, Edit.apply]

theorem foldl_input (l : Loop) (inputs : List TerminalInput) :
    inputs.foldl input l = (inputs.flatMap TerminalInput.edits).foldl Loop.edit l := by
  rw [List.foldl_flatMap]
  exact congrArg (fun f => List.foldl f l inputs) (funext₂ input_eq)

theorem foldl_edit (l : Loop) (edits : List Edit) :
    edits.foldl Loop.edit l =
      { buffer := edits.foldl Edit.apply l.buffer
        submit := l.submit || decide (.submit ∈ edits)
        cancel := l.cancel || decide (.cancel ∈ edits) } := by
  induction edits generalizing l with
  | nil => simp
  | cons e edits ih =>
    rw [List.foldl_cons, ih, List.foldl_cons]
    simp [Loop.edit, Bool.or_assoc, eq_comm]

/-- A frame: its outcome, keystroke by keystroke. -/
theorem login_input_eq (buffer : List Char) (inputs : List TerminalInput) :
    login_input buffer inputs =
      let edits := inputs.flatMap TerminalInput.edits
      if .cancel ∈ edits then .cancelled
      else if .submit ∈ edits then .submitted (edits.foldl Edit.apply buffer)
      else .waiting (edits.foldl Edit.apply buffer) := by
  unfold login_input
  rw [foldl_input, foldl_edit]
  simp

/-- **Step lemma**: when a frame is read as the editor would. -/
theorem frame_iff (buffer : List Char) (edits : List Edit) :
    (if .cancel ∈ edits then Outcome.cancelled
      else if .submit ∈ edits then .submitted (edits.foldl Edit.apply buffer)
      else .waiting (edits.foldl Edit.apply buffer)) = line_editor buffer edits ↔
      Quiet buffer edits := by
  induction edits generalizing buffer with
  | nil => simp [line_editor, Quiet]
  | cons e edits ih =>
    cases e with
    | submit =>
      by_cases hcancel : Edit.cancel ∈ edits
      · simp [line_editor, Quiet, hcancel]
      · simp [line_editor, Quiet, hcancel, Edit.apply]
    | cancel => simp [line_editor, Quiet]
    | push c => simpa [line_editor, Quiet, Edit.apply] using ih (buffer ++ [c])
    | pop => simpa [line_editor, Quiet, Edit.apply] using ih buffer.dropLast
    | clear => simpa [line_editor, Quiet, Edit.apply] using ih []
    | ignore => simpa [line_editor, Quiet, Edit.apply] using ih buffer

theorem login_input_eq_iff (buffer : List Char) (inputs : List TerminalInput) :
    login_input buffer inputs = line_editor buffer (inputs.flatMap TerminalInput.edits) ↔
      Quiet buffer (inputs.flatMap TerminalInput.edits) := by
  rw [login_input_eq]
  exact frame_iff buffer _

/-! ## A run -/

/-- The editor goes on where it was. -/
theorem line_editor_append (buffer : List Char) (edits rest : List Edit) :
    line_editor buffer (edits ++ rest) =
      match line_editor buffer edits with
      | .waiting next => line_editor next rest
      | outcome => outcome := by
  induction edits generalizing buffer with
  | nil => rfl
  | cons e edits ih =>
    cases e with
    | submit => rfl
    | cancel => rfl
    | push c => exact ih _
    | pop => exact ih _
    | clear => exact ih _
    | ignore => exact ih _

/-- The frame in which the editor is done ends the run, whatever it is taken for. -/
theorem login_input_ne_waiting {buffer : List Char} {inputs : List TerminalInput}
    (h : ∀ next, line_editor buffer (inputs.flatMap TerminalInput.edits) ≠ .waiting next) :
    ∀ next, login_input buffer inputs ≠ .waiting next := by
  rw [login_input_eq]
  generalize inputs.flatMap TerminalInput.edits = edits at h
  intro next hnext
  dsimp only at hnext
  split_ifs at hnext with hcancel hsubmit
  refine h (edits.foldl Edit.apply buffer) ?_
  clear hnext h
  induction edits generalizing buffer with
  | nil => rfl
  | cons e edits ih =>
    rw [List.mem_cons, not_or] at hcancel hsubmit
    cases e with
    | submit => exact absurd rfl hsubmit.1
    | cancel => exact absurd rfl hcancel.1
    | push c => exact ih hcancel.2 hsubmit.2
    | pop => exact ih hcancel.2 hsubmit.2
    | clear => exact ih hcancel.2 hsubmit.2
    | ignore => exact ih hcancel.2 hsubmit.2

theorem quiet_of_waiting {buffer next : List Char} {edits : List Edit}
    (h : line_editor buffer edits = .waiting next) : Quiet buffer edits := by
  induction edits generalizing buffer with
  | nil => trivial
  | cons e edits ih =>
    cases e with
    | submit => cases h
    | cancel => cases h
    | push c => exact ih h
    | pop => exact ih h
    | clear => exact ih h
    | ignore => exact ih h

/-- **The login prompt** is a line editor in the runs whose last frame has nothing that counts after
its first Enter, and in no other. -/
theorem login_iff (buffer : List Char) (frames : List (List TerminalInput)) :
    login_frames buffer frames =
        line_editor buffer (frames.flatMap fun inputs => inputs.flatMap TerminalInput.edits) ↔
      QuietFrames buffer frames := by
  induction frames generalizing buffer with
  | nil => exact iff_of_true rfl trivial
  | cons inputs frames ih =>
    rw [List.flatMap_cons, line_editor_append]
    unfold login_frames QuietFrames
    cases heditor : line_editor buffer (inputs.flatMap TerminalInput.edits) with
    | waiting next =>
      have hquiet := quiet_of_waiting heditor
      rw [(login_input_eq_iff buffer inputs).mpr hquiet, heditor]
      refine (ih next).trans ⟨fun h => ⟨hquiet, ?_⟩, fun h => h.2 next rfl⟩
      intro other hother
      cases hother
      exact h
    | submitted password | cancelled =>
      have hdone : ∀ next, login_input buffer inputs ≠ .waiting next := by
        refine login_input_ne_waiting fun next hnext => ?_
        rw [heditor] at hnext
        cases hnext
      rw [← login_input_eq_iff, heditor]
      cases hinput : login_input buffer inputs with
      | waiting next => exact absurd hinput (hdone next)
      | submitted password => simp
      | cancelled => simp

/-- `pw`, Enter and `ls` in one chunk: what is submitted is not what was typed at the Enter. -/
theorem typed_ahead : ¬ ∀ (buffer : List Char) (frames : List (List TerminalInput)),
    login_frames buffer frames =
      line_editor buffer (frames.flatMap fun inputs => inputs.flatMap TerminalInput.edits) := by
  intro h
  have hframe := h [] [[.text ['p', 'w', '\r', 'l', 's']]]
  revert hframe
  decide +kernel

end WaSSH.Terminal.Login
