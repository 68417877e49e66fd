import WaSSH.Lib.Marker
import WaSSH.Lib.Utf8

/-!
# Pasting into the terminal

* `Session`, `send`, `send_paste`: the source;
* `OnePaste`: the bytes are one bracketed paste, up to the marker at their end;
* **`send_paste_iff`**: which texts are sent as one bracketed paste.
-/

namespace WaSSH.Terminal.Paste

open Utf8

abbrev Bytes := List UInt8

/-- `ESC [ 200 ~`. -/
def PASTE_START : Bytes := [0x1b, 0x5b, 0x32, 0x30, 0x30, 0x7e]

/-- `ESC [ 201 ~`. -/
def PASTE_END : Bytes := [0x1b, 0x5b, 0x32, 0x30, 0x31, 0x7e]

/-- What the session's transport is, as far as input is concerned. -/
inductive Backend
  | «local» | ssh | telnet | serial | closed
  deriving DecidableEq

/-- A session: its transport, the mode of its terminal, and what was written to the transport, call
by call. -/
structure Session where
  backend : Backend
  bracketed_paste : Bool
  written : List Bytes := []

/-- Send encoded input to the transport. -/
def send (s : Session) (bytes : Bytes) : Session :=
  if bytes = [] then s
  else
    match s.backend with
    | .local | .ssh | .telnet | .serial => { s with written := s.written ++ [bytes] }
    | .closed => s

/-- Encode and send a paste, honouring bracketed paste mode. -/
def send_paste (s : Session) (text : List Char) : Session :=
  if s.bracketed_paste then send s (PASTE_START ++ encode text ++ PASTE_END)
  else send s (encode text)

/-- One bracketed paste: the end marker comes once, and nothing after it. -/
structure OnePaste (bytes : Bytes) : Prop where
  starts : PASTE_START <+: bytes
  ends : PASTE_END <:+ bytes
  once : ∀ before after, before ++ PASTE_END ++ after = bytes → after = []

/-- Every paste of the text is one bracketed paste, where the terminal has the mode enabled. -/
def Protects (text : List Char) : Prop :=
  ∀ s : Session, s.bracketed_paste = true →
    ∃ calls, (send_paste s text).written = s.written ++ calls ∧
      (s.backend ≠ .closed → calls ≠ []) ∧ ∀ bytes ∈ calls, OnePaste bytes

theorem onePaste_iff (content : Bytes) :
    OnePaste (PASTE_START ++ content ++ PASTE_END) ↔ ¬ PASTE_END <:+: content := by
  constructor
  · rintro ⟨-, -, honce⟩ ⟨before, after, rfl⟩
    have hafter := honce (PASTE_START ++ before) (after ++ PASTE_END) (by
      simp only [List.append_assoc])
    exact List.append_ne_nil_of_right_ne_nil after (List.cons_ne_nil _ _) hafter
  · intro hfree
    refine ⟨⟨content ++ PASTE_END, (List.append_assoc _ _ _).symm⟩, ⟨_, rfl⟩, ?_⟩
    intro before after h
    refine (Marker.infix_of_append_marker (by decide) h).resolve_right fun hinfix => hfree ?_
    have hstart : PASTE_END <:+: 0x1b :: PASTE_START.tail ++ content := hinfix
    exact Marker.infix_of_append_start (by decide) (by decide) (by decide) hstart

theorem written_send_paste {s : Session} (h : s.bracketed_paste = true) (text : List Char) :
    (send_paste s text).written =
      s.written ++
        if s.backend = .closed then [] else [PASTE_START ++ encode text ++ PASTE_END] := by
  have hne : PASTE_START ++ encode text ++ PASTE_END ≠ [] :=
    List.append_ne_nil_of_right_ne_nil _ (List.cons_ne_nil _ _)
  unfold send_paste send
  rw [if_pos h, if_neg hne]
  cases hbackend : s.backend with
  | closed => exact (List.append_nil _).symm
  | «local» | ssh | telnet | serial => rfl

/-- **A paste** reaches the shell as one bracketed paste exactly when the end marker is not in the
text. -/
theorem send_paste_iff (text : List Char) : Protects text ↔ ¬ PASTE_END <:+: encode text := by
  rw [← onePaste_iff]
  constructor
  · intro h
    obtain ⟨calls, hwritten, hne, hall⟩ := h ⟨.local, true, []⟩ rfl
    rw [written_send_paste rfl] at hwritten
    refine hall _ ?_
    rw [← List.append_cancel_left hwritten]
    exact List.mem_singleton_self _
  · intro h s hmode
    refine ⟨_, written_send_paste hmode text, ?_, ?_⟩
    · intro hopen
      rw [if_neg hopen]
      exact List.cons_ne_nil _ _
    · intro bytes hmem
      split at hmem
      · cases hmem
      · rwa [List.mem_singleton.mp hmem]

/-- The marker, and a command with its line end, in the middle of what was copied. -/
theorem marker_in_text :
    ¬ Protects "a\x1b[201~rm -rf .\r".toList := by
  intro h
  obtain ⟨calls, hwritten, -, hall⟩ := h ⟨.ssh, true, []⟩ rfl
  have hcalls : calls = [PASTE_START ++ encode "a\x1b[201~rm -rf .\r".toList ++ PASTE_END] := by
    exact hwritten.symm
  have honce := (hall _ (hcalls ▸ List.mem_singleton_self _)).once (PASTE_START ++ [0x61])
    (encode "rm -rf .\r".toList ++ PASTE_END) (by decide +kernel)
  revert honce
  decide +kernel

end WaSSH.Terminal.Paste
