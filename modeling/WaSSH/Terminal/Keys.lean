import Mathlib.Tactic.FinCases
import WaSSH.Lib.Feed
import WaSSH.Lib.Text
import WaSSH.Lib.Utf8

/-!
# The keyboard

* `KeyStroke`, `encode`: the source, a stroke to bytes;
* `Heard`, `heard`: what a stroke says, apart from how it is written;
* `spell`, **`encode_eq`**: what is heard, written in one of the two cursor modes;
* `Reader`, `read`: an application's side, one character at a time;
* `Clear`: no lone escape, and no escape before what starts a sequence;
* **`strokes_are_heard`**: any strokes, each in a mode of its own, are heard as they are;
* **`strokes_eq_iff`**: the bytes tell strokes apart exactly where what they say differs.
-/

namespace WaSSH.Terminal.Keys

open Utf8 Feed

abbrev Bytes := List UInt8

/-! ## The source -/

/-- A key without text interpretation. -/
inductive Key
  | char (ch : Char)
  | enter | tab | backtab | backspace | escape | delete | insert | home | «end» | page_up | page_down
  | arrow_up | arrow_down | arrow_left | arrow_right
  | function (number : ℕ)
  deriving DecidableEq

structure KeyStroke where
  key : Key
  ctrl : Bool := false
  alt : Bool := false
  shift : Bool := false
  deriving DecidableEq

/-- The modes of the terminal that input looks at. -/
structure SnapshotModes where
  app_cursor : Bool := false
  bracketed_paste : Bool := false
  deriving DecidableEq

def KeyStroke.modifier_param (s : KeyStroke) : ℕ :=
  1 + s.shift.toNat + 2 * s.alt.toNat + 4 * s.ctrl.toNat

def KeyStroke.has_modifiers (s : KeyStroke) : Bool := s.ctrl || s.alt || s.shift

/-- The closure `push`, on the empty `out` every key finds. -/
def push (prefix_alt : Bool) (bytes : Bytes) : Bytes :=
  if prefix_alt ∧ bytes.head? ≠ some 0x1b then 0x1b :: bytes else bytes

/-- The control code of a character typed with Ctrl. -/
def control_code (ch : Char) : Option UInt8 :=
  if 'a' ≤ ch ∧ ch ≤ 'z' then some (UInt8.ofNat (ch.toNat - 'a'.toNat + 1))
  else if 'A' ≤ ch ∧ ch ≤ 'Z' then some (UInt8.ofNat (ch.toNat - 'A'.toNat + 1))
  else if ch = '@' ∨ ch = ' ' ∨ ch = '2' then some 0x00
  else if ch = '[' ∨ ch = '3' then some 0x1b
  else if ch = '\\' ∨ ch = '4' then some 0x1c
  else if ch = ']' ∨ ch = '5' then some 0x1d
  else if ch = '^' ∨ ch = '6' then some 0x1e
  else if ch = '_' ∨ ch = '/' ∨ ch = '7' then some 0x1f
  else if ch = '8' then some 0x7f
  else none

def push_cursor (final_byte : UInt8) (stroke : KeyStroke) (modes : SnapshotModes)
    (push : Bytes → Bytes) : Bytes :=
  if stroke.has_modifiers then
    push (Utf8.encode ("\x1b[1;".toList ++ Nat.toDigits 10 stroke.modifier_param ++
      [Char.ofNat final_byte.toNat]))
  else if modes.app_cursor then push [0x1b, 0x4f, final_byte]
  else push [0x1b, 0x5b, final_byte]

def push_tilde (number : ℕ) (stroke : KeyStroke) (push : Bytes → Bytes) : Bytes :=
  if stroke.has_modifiers then
    push (Utf8.encode ("\x1b[".toList ++ Nat.toDigits 10 number ++ ";".toList ++
      Nat.toDigits 10 stroke.modifier_param ++ "~".toList))
  else push (Utf8.encode ("\x1b[".toList ++ Nat.toDigits 10 number ++ "~".toList))

/-- The code of a function key, and whether it is the number of a tilde sequence. -/
def function_code : ℕ → Option (UInt8 × Bool)
  | 1 => some (0x50, false)
  | 2 => some (0x51, false)
  | 3 => some (0x52, false)
  | 4 => some (0x53, false)
  | 5 => some (15, true)
  | 6 => some (17, true)
  | 7 => some (18, true)
  | 8 => some (19, true)
  | 9 => some (20, true)
  | 10 => some (21, true)
  | 11 => some (23, true)
  | 12 => some (24, true)
  | _ => none

def push_function (number : ℕ) (stroke : KeyStroke) (push : Bytes → Bytes) : Bytes :=
  match function_code number with
  | none => []
  | some (code, tilde) =>
    if tilde then push_tilde code.toNat stroke push
    else if stroke.has_modifiers then
      push (Utf8.encode ("\x1b[1;".toList ++ Nat.toDigits 10 stroke.modifier_param ++
        [Char.ofNat code.toNat]))
    else push [0x1b, 0x4f, code]

/-- Encode a stroke for the given terminal modes. -/
def encode (stroke : KeyStroke) (modes : SnapshotModes) : Bytes :=
  let push := push (stroke.alt && !stroke.ctrl)
  match stroke.key with
  | .char ch =>
    match if stroke.ctrl then control_code ch else none with
    | some code => push [code]
    | none => push (String.utf8EncodeChar ch)
  | .enter => push [0x0d]
  | .tab => if stroke.shift then push [0x1b, 0x5b, 0x5a] else push [0x09]
  | .backtab => push [0x1b, 0x5b, 0x5a]
  | .backspace => push [0x7f]
  | .escape => push [0x1b]
  | .arrow_up => push_cursor 0x41 stroke modes push
  | .arrow_down => push_cursor 0x42 stroke modes push
  | .arrow_right => push_cursor 0x43 stroke modes push
  | .arrow_left => push_cursor 0x44 stroke modes push
  | .home => push_cursor 0x48 stroke modes push
  | .end => push_cursor 0x46 stroke modes push
  | .insert => push_tilde 2 stroke push
  | .delete => push_tilde 3 stroke push
  | .page_up => push_tilde 5 stroke push
  | .page_down => push_tilde 6 stroke push
  | .function number => push_function number stroke push

/-! ## What a stroke says -/

/-- Modifiers that a sequence can carry. -/
structure Modifiers where
  shift : Bool := false
  alt : Bool := false
  ctrl : Bool := false
  deriving DecidableEq

/-- A key that is a sequence of its own. -/
inductive Special
  | up | down | right | left | home | «end» | insert | delete | page_up | page_down | backtab
  | function (n : Fin 12)
  deriving DecidableEq

/-- What an application hears: a character, a character with Alt, or a key. -/
inductive Heard
  | text (c : Char)
  | with_alt (c : Char)
  | special (key : Special) (modifiers : Modifiers)
  deriving DecidableEq

def KeyStroke.modifiers (s : KeyStroke) : Modifiers := ⟨s.shift, s.alt, s.ctrl⟩

/-- A character from a stroke: Alt shows unless Ctrl is held, and not on an escape. -/
def typed (s : KeyStroke) (c : Char) : Heard :=
  if (s.alt ∧ s.ctrl = false) ∧ c ≠ '\x1b' then .with_alt c else .text c

/-- What a stroke says. -/
def heard (s : KeyStroke) : List Heard :=
  match s.key with
  | .char ch =>
    match if s.ctrl then control_code ch else none with
    | some code => [.text (Char.ofNat code.toNat)]
    | none => [typed s ch]
  | .enter => [typed s '\r']
  | .tab => if s.shift then [.special .backtab {}] else [typed s '\t']
  | .backtab => [.special .backtab {}]
  | .backspace => [typed s '\x7f']
  | .escape => [.text '\x1b']
  | .arrow_up => [.special .up s.modifiers]
  | .arrow_down => [.special .down s.modifiers]
  | .arrow_right => [.special .right s.modifiers]
  | .arrow_left => [.special .left s.modifiers]
  | .home => [.special .home s.modifiers]
  | .end => [.special .end s.modifiers]
  | .insert => [.special .insert s.modifiers]
  | .delete => [.special .delete s.modifiers]
  | .page_up => [.special .page_up s.modifiers]
  | .page_down => [.special .page_down s.modifiers]
  | .function number =>
    if h : 1 ≤ number ∧ number ≤ 12 then
      [.special (.function ⟨number - 1, by omega⟩) s.modifiers]
    else []

/-! ## How it is written -/

/-- The number of a set of modifiers in a sequence. -/
def Modifiers.param (m : Modifiers) : ℕ := 1 + m.shift.toNat + 2 * m.alt.toNat + 4 * m.ctrl.toNat

/-- The shapes of the sequences. -/
inductive Form
  | cursor (final : Char)
  | function (final : Char)
  | tilde (number : ℕ)
  | backtab

def Special.form : Special → Form
  | .up => .cursor 'A'
  | .down => .cursor 'B'
  | .right => .cursor 'C'
  | .left => .cursor 'D'
  | .home => .cursor 'H'
  | .end => .cursor 'F'
  | .insert => .tilde 2
  | .delete => .tilde 3
  | .page_up => .tilde 5
  | .page_down => .tilde 6
  | .backtab => .backtab
  | .function 0 => .function 'P'
  | .function 1 => .function 'Q'
  | .function 2 => .function 'R'
  | .function 3 => .function 'S'
  | .function 4 => .tilde 15
  | .function 5 => .tilde 17
  | .function 6 => .tilde 18
  | .function 7 => .tilde 19
  | .function 8 => .tilde 20
  | .function 9 => .tilde 21
  | .function 10 => .tilde 23
  | .function 11 => .tilde 24

/-- A sequence with its numbers. -/
def csi (numbers : List ℕ) (final : Char) : List Char :=
  "\x1b[".toList ++ [';'].intercalate (numbers.map (Nat.toDigits 10)) ++ [final]

def ss3 (final : Char) : List Char := ['\x1b', 'O', final]

def Form.spell (app_cursor : Bool) (m : Modifiers) : Form → List Char
  | .cursor final =>
    if m ≠ {} then csi [1, m.param] final else if app_cursor then ss3 final else csi [] final
  | .function final => if m ≠ {} then csi [1, m.param] final else ss3 final
  | .tilde number => if m ≠ {} then csi [number, m.param] '~' else csi [number] '~'
  | .backtab => csi [] 'Z'

/-- What is heard, in characters. -/
def spell (app_cursor : Bool) : Heard → List Char
  | .text c => [c]
  | .with_alt c => ['\x1b', c]
  | .special key m => key.form.spell app_cursor m

theorem has_modifiers_iff (s : KeyStroke) : s.has_modifiers ↔ s.modifiers ≠ {} := by
  unfold KeyStroke.has_modifiers KeyStroke.modifiers
  cases s.shift <;> cases s.alt <;> cases s.ctrl <;> decide

theorem modifier_param_eq (s : KeyStroke) : s.modifier_param = s.modifiers.param := rfl

theorem push_sequence (a : Bool) (bytes : Bytes) : push a (0x1b :: bytes) = 0x1b :: bytes := by
  simp [push]

theorem push_encode_sequence (a : Bool) (t : List Char) :
    push a (Utf8.encode ('\x1b' :: t)) = Utf8.encode ('\x1b' :: t) :=
  push_sequence a (Utf8.encode t)

theorem csi_one (n : ℕ) (final : Char) :
    csi [n] final = '\x1b' :: '[' :: (Nat.toDigits 10 n ++ [final]) := by
  simp [csi, List.intercalate]

theorem csi_two (n m : ℕ) (final : Char) :
    csi [n, m] final =
      '\x1b' :: '[' :: (Nat.toDigits 10 n ++ ';' :: (Nat.toDigits 10 m ++ [final])) := by
  simp [csi, List.intercalate]

/-- A cursor key, whose last byte is an ASCII character. -/
theorem push_cursor_eq {b : UInt8} {final : Char} (hb : Utf8.encode [final] = [b])
    (hfinal : Char.ofNat b.toNat = final) (s : KeyStroke) (modes : SnapshotModes) (a : Bool) :
    push_cursor b s modes (push a) =
      Utf8.encode ((Form.cursor final).spell modes.app_cursor s.modifiers) := by
  rw [push_cursor, Form.spell]
  by_cases hm : s.has_modifiers
  · rw [if_pos hm, if_pos ((has_modifiers_iff s).mp hm), hfinal, modifier_param_eq, csi_two]
    exact push_encode_sequence a _
  · rw [if_neg hm, if_neg (fun h => hm ((has_modifiers_iff s).mpr h))]
    cases modes.app_cursor with
    | true =>
      have h : Utf8.encode (ss3 final) = [0x1b, 0x4f] ++ Utf8.encode [final] :=
        encode_append ['\x1b', 'O'] [final]
      rw [if_pos rfl, if_pos rfl, push_sequence, h, hb]
      rfl
    | false =>
      have h : Utf8.encode (csi [] final) = [0x1b, 0x5b] ++ Utf8.encode [final] :=
        encode_append ['\x1b', '['] [final]
      rw [if_neg Bool.false_ne_true, if_neg Bool.false_ne_true, push_sequence, h, hb]
      rfl

theorem push_tilde_eq (number : ℕ) (s : KeyStroke) (app : Bool) (a : Bool) :
    push_tilde number s (push a) = Utf8.encode ((Form.tilde number).spell app s.modifiers) := by
  rw [push_tilde, Form.spell]
  by_cases hm : s.has_modifiers
  · rw [if_pos hm, if_pos ((has_modifiers_iff s).mp hm), modifier_param_eq, csi_two]
    simp only [List.append_assoc]
    exact push_encode_sequence a _
  · rw [if_neg hm, if_neg (fun h => hm ((has_modifiers_iff s).mpr h)), csi_one]
    exact push_encode_sequence a _

/-- A function key with a letter. -/
theorem push_letter_eq {b : UInt8} {final : Char} (hb : Utf8.encode [final] = [b])
    (hfinal : Char.ofNat b.toNat = final) (s : KeyStroke) (app : Bool) (a : Bool) :
    (if s.has_modifiers then
      push a (Utf8.encode ("\x1b[1;".toList ++ Nat.toDigits 10 s.modifier_param ++
        [Char.ofNat b.toNat]))
    else push a [0x1b, 0x4f, b]) =
      Utf8.encode ((Form.function final).spell app s.modifiers) := by
  rw [Form.spell]
  by_cases hm : s.has_modifiers
  · rw [if_pos hm, if_pos ((has_modifiers_iff s).mp hm), hfinal, modifier_param_eq, csi_two]
    exact push_encode_sequence a _
  · have h : Utf8.encode (ss3 final) = [0x1b, 0x4f] ++ Utf8.encode [final] :=
      encode_append ['\x1b', 'O'] [final]
    rw [if_neg hm, if_neg (fun h => hm ((has_modifiers_iff s).mpr h)), push_sequence, h, hb]
    rfl

/-- An escape is the one character that starts with its byte. -/
theorem head_encodeChar (c : Char) :
    (String.utf8EncodeChar c).head? = some 0x1b ↔ c = '\x1b' := by
  refine ⟨fun h => ?_, fun h => h ▸ rfl⟩
  have hmem : (0x1b : UInt8) ∈ Utf8.encode [c] := by
    rw [encode_cons]
    exact List.mem_append_left _ (List.mem_of_head? h)
  have hin := mem_of_mem_encode (t := [c]) (by decide) hmem
  exact (List.mem_singleton.mp hin).symm

/-- A character from a stroke. -/
theorem push_char (s : KeyStroke) (app : Bool) (c : Char) :
    push (s.alt && !s.ctrl) (String.utf8EncodeChar c) = Utf8.encode (spell app (typed s c)) := by
  have hsingle : Utf8.encode [c] = String.utf8EncodeChar c := List.append_nil _
  unfold push typed
  by_cases h : (s.alt ∧ s.ctrl = false) ∧ c ≠ '\x1b'
  · rw [if_pos h, if_pos ⟨by simpa using h.1, fun hc => h.2 ((head_encodeChar c).mp hc)⟩, ← hsingle]
    rfl
  · rw [if_neg h, if_neg, spell, hsingle]
    exact fun hn => h ⟨by simpa using hn.1, fun hc => hn.2 ((head_encodeChar c).mpr hc)⟩

/-- A control code is an ASCII character. -/
theorem control_code_ascii {ch : Char} {code : UInt8} (h : control_code ch = some code) :
    code.toNat < 0x80 := by
  have hletter {low high : Char} (hle : low ≤ ch ∧ ch ≤ high) (hspan : high.toNat < low.toNat + 26) :
      (UInt8.ofNat (ch.toNat - low.toNat + 1)).toNat < 0x80 := by
    have hch : ch.toNat ≤ high.toNat := UInt32.le_iff_toNat_le.mp hle.2
    rw [toNat_ofNat (by omega)]
    omega
  unfold control_code at h
  split_ifs at h with hlower hupper <;> simp only [Option.some.injEq] at h <;> subst h
  · exact hletter hlower (by decide)
  · exact hletter hupper (by decide)
  all_goals decide

/-- What Ctrl gives has no escape before it. -/
theorem push_control (s : KeyStroke) (app : Bool) {code : UInt8} (hctrl : s.ctrl = true)
    (hcode : code.toNat < 0x80) :
    push (s.alt && !s.ctrl) [code] = Utf8.encode (spell app (.text (Char.ofNat code.toNat))) := by
  have hchar : (Char.ofNat code.toNat).toNat = code.toNat := toNat_ofNat_char (by omega)
  rw [push, if_neg (by simp [hctrl]), spell, encode_cons, encodeChar_ascii (by omega), hchar]
  simp

theorem encode_spell_special (app : Bool) (key : Special) (m : Modifiers) :
    Utf8.encode ([Heard.special key m].flatMap (spell app)) =
      Utf8.encode (key.form.spell app m) := by
  rw [List.flatMap_singleton, spell]

theorem function_code_none {number : ℕ} (h : ¬(1 ≤ number ∧ number ≤ 12)) :
    function_code number = none := by
  unfold function_code
  split <;> first | rfl | omega

theorem push_function_eq {number : ℕ} {s : KeyStroke} (hkey : s.key = .function number)
    (app : Bool) (a : Bool) :
    push_function number s (push a) = Utf8.encode ((heard s).flatMap (spell app)) := by
  rw [heard, hkey]
  dsimp only
  by_cases h : 1 ≤ number ∧ number ≤ 12
  · rw [dif_pos h, encode_spell_special]
    obtain ⟨hlow, hhigh⟩ := h
    interval_cases number
    iterate 4 exact push_letter_eq rfl rfl s app a
    all_goals exact push_tilde_eq _ s app a
  · rw [dif_neg h, push_function, function_code_none h]
    rfl

/-- **The bytes of a stroke** are what it says, written in the cursor mode. -/
theorem encode_eq (s : KeyStroke) (modes : SnapshotModes) :
    encode s modes = Utf8.encode ((heard s).flatMap (spell modes.app_cursor)) := by
  have hcursor {b : UInt8} {key : Special} {final : Char} (hb : Utf8.encode [final] = [b])
      (hfinal : Char.ofNat b.toNat = final) (hform : key.form = .cursor final) :
      push_cursor b s modes (push (s.alt && !s.ctrl)) =
        Utf8.encode ([Heard.special key s.modifiers].flatMap (spell modes.app_cursor)) := by
    rw [encode_spell_special, hform, push_cursor_eq hb hfinal]
  have htilde {number : ℕ} {key : Special} (hform : key.form = .tilde number) :
      push_tilde number s (push (s.alt && !s.ctrl)) =
        Utf8.encode ([Heard.special key s.modifiers].flatMap (spell modes.app_cursor)) := by
    rw [encode_spell_special, hform, push_tilde_eq]
  have hchar (c : Char) : push (s.alt && !s.ctrl) (String.utf8EncodeChar c) =
      Utf8.encode ([typed s c].flatMap (spell modes.app_cursor)) := by
    rw [List.flatMap_singleton, push_char]
  cases hkey : s.key with
  | function number =>
    rw [encode, hkey]
    exact push_function_eq hkey modes.app_cursor _
  | char ch =>
    rw [encode, heard, hkey]
    dsimp only
    cases hcode : if s.ctrl = true then control_code ch else none with
    | none => exact hchar ch
    | some code =>
      have hctrl : s.ctrl = true := by
        by_contra h
        rw [if_neg h] at hcode
        cases hcode
      rw [if_pos hctrl] at hcode
      rw [List.flatMap_singleton]
      exact push_control s modes.app_cursor hctrl (control_code_ascii hcode)
  | tab =>
    rw [encode, heard, hkey]
    dsimp only
    by_cases hshift : s.shift = true
    · rw [if_pos hshift, if_pos hshift, push_sequence]
      rfl
    · rw [if_neg hshift, if_neg hshift]
      exact hchar '\t'
  | enter => rw [encode, heard, hkey]; exact hchar '\r'
  | backspace => rw [encode, heard, hkey]; exact hchar '\x7f'
  | backtab | escape => rw [encode, heard, hkey]; exact push_sequence _ _
  | arrow_up | arrow_down | arrow_right | arrow_left | home | «end» =>
    rw [encode, heard, hkey]; exact hcursor rfl rfl rfl
  | insert | delete | page_up | page_down => rw [encode, heard, hkey]; exact htilde rfl

/-! ## An application's side -/

/-- Where a reader stands: between keys, behind an escape, in a short sequence, or in a sequence
with the numbers so far, the last one first. -/
inductive Reader
  | ground | escape | ss3
  | csi (number : ℕ) (before : List ℕ)
  deriving DecidableEq

/-- The modifiers of a number. -/
def Modifiers.of_param (n : ℕ) : Modifiers where
  shift := (n - 1) % 2 = 1
  alt := (n - 1) / 2 % 2 = 1
  ctrl := (n - 1) / 4 % 2 = 1

theorem of_param_param (m : Modifiers) : Modifiers.of_param m.param = m := by
  obtain ⟨shift, alt, ctrl⟩ := m
  cases shift <;> cases alt <;> cases ctrl <;> rfl

/-- The key of a letter at the end. -/
def final_key (c : Char) : Option Special :=
  if c = 'A' then some .up
  else if c = 'B' then some .down
  else if c = 'C' then some .right
  else if c = 'D' then some .left
  else if c = 'H' then some .home
  else if c = 'F' then some .end
  else if c = 'P' then some (.function 0)
  else if c = 'Q' then some (.function 1)
  else if c = 'R' then some (.function 2)
  else if c = 'S' then some (.function 3)
  else if c = 'Z' then some .backtab
  else none

/-- The key of a number before a tilde. -/
def tilde_key : ℕ → Option Special
  | 2 => some .insert
  | 3 => some .delete
  | 5 => some .page_up
  | 6 => some .page_down
  | 15 => some (.function 4)
  | 17 => some (.function 5)
  | 18 => some (.function 6)
  | 19 => some (.function 7)
  | 20 => some (.function 8)
  | 21 => some (.function 9)
  | 23 => some (.function 10)
  | 24 => some (.function 11)
  | _ => none

/-- The key of a whole sequence. -/
def csi_key (numbers : List ℕ) (final : Char) : Option Heard :=
  (if final = '~' then tilde_key (numbers.headD 0) else final_key final).map fun key =>
    .special key (Modifiers.of_param (numbers.getD 1 1))

/-- One character. -/
def read : Reader → Char → Reader × List Heard
  | .ground, c => if c = '\x1b' then (.escape, []) else (.ground, [.text c])
  | .escape, c =>
    if c = '[' then (.csi 0 [], [])
    else if c = 'O' then (.ss3, [])
    else (.ground, [.with_alt c])
  | .ss3, c => (.ground, ((final_key c).map fun key => Heard.special key {}).toList)
  | .csi n before, c =>
    if c.isDigit then (.csi (10 * n + (c.toNat - '0'.toNat)) before, [])
    else if c = ';' then (.csi 0 (n :: before), [])
    else (.ground, (csi_key (n :: before).reverse c).toList)

/-- What a reader can tell from what it has begun: no lone escape, and no escape before what starts
a sequence. -/
def Clear (h : Heard) : Prop := h ≠ .text '\x1b' ∧ h ≠ .with_alt '[' ∧ h ≠ .with_alt 'O'

instance (h : Heard) : Decidable (Clear h) := by unfold Clear; infer_instance

theorem feed_digits {w : List Char} (hw : ∀ c ∈ w, c.isDigit) (n : ℕ) (before : List ℕ) :
    feed read (.csi n before) w = (.csi (Nat.ofDigitChars 10 w n) before, []) := by
  induction w generalizing n with
  | nil => rfl
  | cons c w ih =>
    obtain ⟨hc, hw⟩ := List.forall_mem_cons.mp hw
    rw [feed_cons, read, if_pos hc, ih hw]
    rfl

theorem feed_number (n : ℕ) (before : List ℕ) :
    feed read (.csi 0 before) (Nat.toDigits 10 n) = (.csi n before, []) := by
  rw [feed_digits (List.all_eq_true.mp (Text.all_isDigit_toDigits n)), Nat.ofDigitChars_ten_toDigits]

/-- The last character of a sequence. -/
theorem read_final {c : Char} (hc : c.isDigit = false ∧ c ≠ ';') (n : ℕ) (before : List ℕ) :
    feed read (.csi n before) [c] = (.ground, (csi_key (n :: before).reverse c).toList) := by
  rw [feed_cons, read, if_neg (by simp [hc.1]), if_neg hc.2]
  simp

theorem read_csi_one {c : Char} (hc : c.isDigit = false ∧ c ≠ ';') (n : ℕ) :
    feed read .ground (csi [n] c) = (.ground, (csi_key [n] c).toList) := by
  have hstart (t : List Char) :
      feed read .ground ('\x1b' :: '[' :: t) = feed read (.csi 0 []) t := rfl
  rw [csi_one, hstart, feed_append, feed_number, read_final hc]
  rfl

theorem read_csi_two {c : Char} (hc : c.isDigit = false ∧ c ≠ ';') (n m : ℕ) :
    feed read .ground (csi [n, m] c) = (.ground, (csi_key [n, m] c).toList) := by
  have hstart (t : List Char) :
      feed read .ground ('\x1b' :: '[' :: t) = feed read (.csi 0 []) t := rfl
  have hnext (t : List Char) :
      feed read (.csi n []) (';' :: t) = feed read (.csi 0 [n]) t := rfl
  rw [csi_two, hstart, feed_append, feed_number, hnext, feed_append, feed_number, read_final hc]
  rfl

/-- The letter of a key that ends in one. -/
theorem final_key_form {key : Special} {c : Char}
    (h : key.form = .cursor c ∨ key.form = .function c ∨ key.form = .backtab ∧ c = 'Z') :
    final_key c = some key ∧ c ≠ '~' ∧ c.isDigit = false ∧ c ≠ ';' := by
  cases key with
  | function n =>
    fin_cases n
    all_goals
      simp only [Special.form, Form.function.injEq, reduceCtorEq, false_and, or_false, false_or] at h
    all_goals
      subst h
      decide
  | _ =>
    simp only [Special.form, Form.cursor.injEq, reduceCtorEq, true_and, false_and, or_false, false_or] at h
    all_goals
      subst h
      decide

/-- The number of a key that ends in a tilde. -/
theorem tilde_key_form {key : Special} {n : ℕ} (h : key.form = .tilde n) :
    tilde_key n = some key := by
  cases key with
  | function k =>
    fin_cases k
    all_goals simp only [Special.form, Form.tilde.injEq, reduceCtorEq] at h
    all_goals
      subst h
      rfl
  | _ =>
    simp only [Special.form, Form.tilde.injEq, reduceCtorEq] at h
    all_goals
      subst h
      rfl

theorem csi_key_letter {key : Special} {c : Char} (h : final_key c = some key ∧ c ≠ '~')
    (numbers : List ℕ) :
    csi_key numbers c = some (.special key (Modifiers.of_param (numbers.getD 1 1))) := by
  rw [csi_key, if_neg h.2, h.1]
  rfl

theorem csi_key_tilde {key : Special} {n : ℕ} (h : tilde_key n = some key) (rest : List ℕ) :
    csi_key (n :: rest) '~' = some (.special key (Modifiers.of_param ((n :: rest).getD 1 1))) := by
  rw [csi_key, if_pos rfl, List.headD_cons, h]
  rfl

/-- **A sequence is read back** in either cursor mode. -/
theorem read_special (app_cursor : Bool) (key : Special) (m : Modifiers)
    (hm : key = .backtab → m = {}) :
    feed read .ground (key.form.spell app_cursor m) = (.ground, [.special key m]) := by
  have hletter {c : Char} (h : final_key c = some key ∧ c ≠ '~' ∧ c.isDigit = false ∧ c ≠ ';') :
      feed read .ground (csi [1, m.param] c) = (.ground, [.special key m]) := by
    rw [read_csi_two h.2.2, csi_key_letter ⟨h.1, h.2.1⟩, List.getD_cons_succ, List.getD_cons_zero,
      of_param_param]
    rfl
  have hplain {c : Char} (h : final_key c = some key ∧ c ≠ '~' ∧ c.isDigit = false ∧ c ≠ ';') :
      feed read .ground (csi [] c) = (.ground, [.special key {}]) := by
    have hstart : feed read .ground (csi [] c) = feed read (.csi 0 []) [c] := rfl
    rw [hstart, read_final h.2.2, List.reverse_singleton, csi_key_letter ⟨h.1, h.2.1⟩]
    rfl
  have hshort {c : Char} (h : final_key c = some key) :
      feed read .ground (ss3 c) = (.ground, [.special key {}]) := by
    have hstart : feed read .ground (ss3 c) = feed read .ss3 [c] := rfl
    rw [hstart, feed_cons, read, h]
    rfl
  cases hform : key.form with
  | cursor c =>
    have hc := final_key_form (.inl hform)
    rw [Form.spell]
    by_cases h : m = {}
    · rw [if_neg (not_not_intro h), h]
      cases app_cursor with
      | true => exact hshort hc.1
      | false => exact hplain hc
    · rw [if_pos h]
      exact hletter hc
  | function c =>
    have hc := final_key_form (.inr (.inl hform))
    rw [Form.spell]
    by_cases h : m = {}
    · rw [if_neg (not_not_intro h), h]
      exact hshort hc.1
    · rw [if_pos h]
      exact hletter hc
  | tilde n =>
    have hn := tilde_key_form hform
    rw [Form.spell]
    by_cases h : m = {}
    · rw [if_neg (not_not_intro h), h, read_csi_one (by decide), csi_key_tilde hn,
        List.getD_cons_succ, List.getD_nil]
      rfl
    · rw [if_pos h, read_csi_two (by decide), csi_key_tilde hn, List.getD_cons_succ,
        List.getD_cons_zero, of_param_param]
      rfl
  | backtab =>
    have hkey : key = .backtab := by
      cases key with
      | backtab => rfl
      | function n => fin_cases n <;> simp [Special.form] at hform
      | _ => simp [Special.form] at hform
    rw [hm hkey]
    exact hplain (final_key_form (.inr (.inr ⟨hform, rfl⟩)))

/-- Backtab is never heard with modifiers. -/
def WellFormed : Heard → Prop
  | .special key m => key = .backtab → m = {}
  | _ => True

theorem typed_wellFormed (s : KeyStroke) (c : Char) : WellFormed (typed s c) := by
  unfold typed
  split_ifs <;> trivial

theorem heard_wellFormed (s : KeyStroke) : ∀ h ∈ heard s, WellFormed h := by
  have hone {x : Heard} (hx : WellFormed x) : ∀ h ∈ [x], WellFormed h := fun h hh =>
    List.mem_singleton.mp hh ▸ hx
  cases hkey : s.key with
  | char ch =>
    rw [heard, hkey]
    dsimp only
    split
    · exact hone trivial
    · exact hone (typed_wellFormed s ch)
  | function n =>
    rw [heard, hkey]
    dsimp only
    split_ifs
    · exact hone fun hn => by cases hn
    · exact fun h hh => absurd hh List.not_mem_nil
  | tab =>
    rw [heard, hkey]
    dsimp only
    split_ifs
    · exact hone fun _ => rfl
    · exact hone (typed_wellFormed s '\t')
  | backtab => rw [heard, hkey]; exact hone fun _ => rfl
  | escape => rw [heard, hkey]; exact hone trivial
  | enter | backspace => rw [heard, hkey]; exact hone (typed_wellFormed s _)
  | _ => rw [heard, hkey]; exact hone fun hn => by cases hn

/-- **One thing heard is read back**, and the reader is ready for the next. -/
theorem read_spell (app_cursor : Bool) {h : Heard} (hclear : Clear h) (hwell : WellFormed h) :
    feed read .ground (spell app_cursor h) = (.ground, [h]) := by
  cases h with
  | text c =>
    have hc : c ≠ '\x1b' := fun hc => hclear.1 (hc ▸ rfl)
    rw [spell, feed_cons, read, if_neg hc]
    rfl
  | with_alt c =>
    have hbracket : c ≠ '[' := fun hc => hclear.2.1 (hc ▸ rfl)
    have hletter : c ≠ 'O' := fun hc => hclear.2.2 (hc ▸ rfl)
    have hstart : feed read .ground (spell app_cursor (.with_alt c)) = feed read .escape [c] := rfl
    rw [hstart, feed_cons, read, if_neg hbracket, if_neg hletter]
    rfl
  | special key m => exact read_special app_cursor key m hwell

/-- A stroke in the mode it was typed in. -/
abbrev Typed := KeyStroke × SnapshotModes

/-- The bytes of some strokes. -/
def sent (strokes : List Typed) : Bytes := strokes.flatMap fun s => encode s.1 s.2

/-- What some strokes say. -/
def said (strokes : List Typed) : List Heard := strokes.flatMap fun s => heard s.1

theorem sent_eq (strokes : List Typed) :
    sent strokes =
      Utf8.encode (strokes.flatMap fun s => (heard s.1).flatMap (spell s.2.app_cursor)) := by
  induction strokes with
  | nil => rfl
  | cons s strokes ih =>
    rw [List.flatMap_cons, encode_append, ← ih, ← encode_eq]
    rfl

theorem read_spells (app_cursor : Bool) {hs : List Heard} (h : ∀ x ∈ hs, Clear x ∧ WellFormed x) :
    feed read .ground (hs.flatMap (spell app_cursor)) = (.ground, hs) := by
  induction hs with
  | nil => rfl
  | cons x hs ih =>
    obtain ⟨hx, hrest⟩ := List.forall_mem_cons.mp h
    rw [List.flatMap_cons, feed_append, read_spell app_cursor hx.1 hx.2, ih hrest]
    rfl

/-- **What is typed is heard**: an application that reads the bytes of any strokes, each written in
the mode of its moment, hears what they say, and stands between keys again. -/
theorem strokes_are_heard (strokes : List Typed) (hclear : ∀ h ∈ said strokes, Clear h) :
    feed read .ground (from_utf8_lossy (sent strokes)) = (.ground, said strokes) := by
  rw [sent_eq, from_utf8_lossy_encode]
  induction strokes with
  | nil => rfl
  | cons s strokes ih =>
    obtain ⟨hs, hrest⟩ := List.forall_mem_append.mp (show ∀ h ∈ heard s.1 ++ said strokes, Clear h from hclear)
    rw [List.flatMap_cons, feed_append,
      read_spells s.2.app_cursor fun x hx => ⟨hs x hx, heard_wellFormed s.1 x hx⟩, ih hrest]
    rfl

theorem strokes_are_heard_app :
    feed read .ground (from_utf8_lossy (sent
      [(⟨.arrow_up, false, false, false⟩, ⟨true, false⟩), (⟨.char 'b', false, true, false⟩, {}),
        (⟨.page_down, true, false, true⟩, {})])) =
      (.ground, [.special .up {}, .with_alt 'b', .special .page_down ⟨true, false, true⟩]) :=
  strokes_are_heard
    [(⟨.arrow_up, false, false, false⟩, ⟨true, false⟩), (⟨.char 'b', false, true, false⟩, {}),
      (⟨.page_down, true, false, true⟩, {})] (by decide)

/-- **What the bytes tell apart**: in one mode, two lists of strokes are written with the same bytes
exactly where they say the same. -/
theorem strokes_eq_iff (modes : SnapshotModes) (strokes others : List KeyStroke)
    (hclear : ∀ h ∈ strokes.flatMap heard ++ others.flatMap heard, Clear h) :
    (strokes.flatMap fun s => encode s modes) = (others.flatMap fun s => encode s modes) ↔
      strokes.flatMap heard = others.flatMap heard := by
  have hwell (ts : List KeyStroke) : ∀ h ∈ ts.flatMap heard, WellFormed h := fun h hh => by
    obtain ⟨s, -, hs⟩ := List.mem_flatMap.mp hh
    exact heard_wellFormed s h hs
  have hwrite (ts : List KeyStroke) : (ts.flatMap fun s => encode s modes) =
      Utf8.encode ((ts.flatMap heard).flatMap (spell modes.app_cursor)) := by
    rw [List.flatMap_assoc, Utf8.encode, List.flatMap_assoc]
    exact List.flatMap_congr fun s _ => encode_eq s modes
  obtain ⟨hstrokes, hothers⟩ := List.forall_mem_append.mp hclear
  rw [hwrite, hwrite]
  constructor
  · intro h
    have hread := congrArg (feed read .ground) (encode_injective h)
    rw [read_spells _ fun x hx => ⟨hstrokes x hx, hwell strokes x hx⟩,
      read_spells _ fun x hx => ⟨hothers x hx, hwell others x hx⟩] at hread
    exact (Prod.mk.inj hread).2
  · intro h
    rw [h]

end WaSSH.Terminal.Keys
