import Mathlib.Data.List.TakeWhile
import WaSSH.Lib.Utf8

/-!
# One-shot commands on a connection

A command runs on a channel of its own; its output is collected until the channel ends.

* `run`, `receive`: the receive loop;
* `Legal`: the orders a server may send its messages in;
* **`collects_all_iff`**: everything sent is returned, unless the exit status comes after the end of
  the output.
-/

namespace WaSSH.Ssh

open Utf8

/-! ## The receive loop -/

/-- A message of the channel; `other` is any the loop passes over. -/
inductive ChannelMsg
  | data (data : List UInt8)
  | extended_data (data : List UInt8)
  | exit_status (status : UInt32)
  | eof
  | close
  | other
  deriving DecidableEq

/-- Output of a one-shot remote command. -/
structure ExecOutput where
  stdout : List Char
  stderr : List Char
  exit_status : Option UInt32
  deriving DecidableEq

/-- Why there is no output: a step before the loop failed, or the user stopped the command. -/
inductive ExecError
  | opening
  | running
  | writing
  | stopped
  deriving DecidableEq

/-- What wakes the loop. -/
inductive Wake
  | stop
  | message (message : ChannelMsg)

/-- What the loop has gathered. -/
structure Gathered where
  stdout : List UInt8 := []
  stderr : List UInt8 := []
  exit_status : Option UInt32 := none

def Gathered.output (g : Gathered) : ExecOutput :=
  ⟨from_utf8_lossy g.stdout, from_utf8_lossy g.stderr, g.exit_status⟩

/-- What one message adds. -/
def Gathered.add (g : Gathered) : ChannelMsg → Gathered
  | .data data => { g with stdout := g.stdout ++ data }
  | .extended_data data => { g with stderr := g.stderr ++ data }
  | .exit_status status => { g with exit_status := some status }
  | _ => g

/-- The message ends the loop. -/
def ChannelMsg.ends : ChannelMsg → Bool
  | eof | close => true
  | _ => false

/-- The loop. The messages run out when the connection is gone. -/
def receive (g : Gathered) : List Wake → Except ExecError ExecOutput
  | [] => .ok g.output
  | .stop :: _ => .error .stopped
  | .message m :: wakes => if m.ends then .ok g.output else receive (g.add m) wakes

/-- Run a command and collect its output; `fault` is the step before the loop that fails. -/
def run (fault : Option ExecError) (wakes : List Wake) : Except ExecError ExecOutput :=
  match fault with
  | some error => .error error
  | none => receive {} wakes

/-! ## What a server sends -/

namespace ChannelMsg

def stdout : ChannelMsg → List UInt8
  | .data bytes => bytes
  | _ => []

def stderr : ChannelMsg → List UInt8
  | .extended_data bytes => bytes
  | _ => []

def status : ChannelMsg → Option UInt32
  | .exit_status code => some code
  | _ => none

end ChannelMsg

/-- The messages of a channel: closed last, no data after the end of the output, one exit status at
most. -/
structure Legal (ms : List ChannelMsg) : Prop where
  closes : ∃ body, ms = body ++ [.close] ∧ .close ∉ body
  no_data_after_eof : ∀ before after, ms = before ++ .eof :: after →
    ∀ m ∈ after, m.stdout = [] ∧ m.stderr = []
  one_status : (ms.filterMap ChannelMsg.status).length ≤ 1

/-- All that was sent. -/
def sent (ms : List ChannelMsg) : ExecOutput :=
  ⟨from_utf8_lossy (ms.flatMap ChannelMsg.stdout), from_utf8_lossy (ms.flatMap ChannelMsg.stderr),
    (ms.filterMap ChannelMsg.status).head?⟩

/-- The exit status is sent after the end of the output. -/
def StatusAfterEof (ms : List ChannelMsg) : Prop :=
  ∃ before after status, ms = before ++ .eof :: after ∧ .exit_status status ∈ after

/-! ## What is lost -/

/-- What a list of messages adds. -/
def Gathered.add_all (g : Gathered) (ms : List ChannelMsg) : Gathered := ms.foldl Gathered.add g

theorem add_all_eq (g : Gathered) (ms : List ChannelMsg) :
    g.add_all ms = ⟨g.stdout ++ ms.flatMap ChannelMsg.stdout,
      g.stderr ++ ms.flatMap ChannelMsg.stderr,
      (ms.filterMap ChannelMsg.status).getLast?.or g.exit_status⟩ := by
  induction ms generalizing g with
  | nil => simp [Gathered.add_all]
  | cons m ms ih =>
    have hstep : g.add_all (m :: ms) = (g.add m).add_all ms := rfl
    rw [hstep, ih]
    cases m with
    | exit_status n =>
      cases h : (ms.filterMap ChannelMsg.status).getLast? with
      | none =>
        rw [List.getLast?_eq_none_iff] at h
        simp [Gathered.add, ChannelMsg.stdout, ChannelMsg.stderr, ChannelMsg.status, h]
      | some k =>
        simp [Gathered.add, ChannelMsg.stdout, ChannelMsg.stderr, ChannelMsg.status,
          List.getLast?_cons, h]
    | _ => simp [Gathered.add, ChannelMsg.stdout, ChannelMsg.stderr, ChannelMsg.status]

/-- The loop gathers the messages before the first that ends it. -/
theorem receive_messages (g : Gathered) (ms : List ChannelMsg) :
    receive g (ms.map .message) = .ok (g.add_all (ms.takeWhile fun m => !m.ends)).output := by
  induction ms generalizing g with
  | nil => rfl
  | cons m ms ih =>
    rw [List.map_cons, receive, List.takeWhile_cons]
    cases h : m.ends with
    | true => rfl
    | false => exact ih (g.add m)

section Orders

variable {ms : List ChannelMsg}

/-- What comes after the messages gathered: nothing but the close, or the end of the output and what
follows it. -/
theorem Legal.rest (h : Legal ms) :
    let before := ms.takeWhile fun m => !m.ends
    ms = before ++ [.close] ∨ ∃ after, ms = before ++ .eof :: after := by
  intro before
  obtain ⟨body, hms, hbody⟩ := h.closes
  have hsplit : ms = before ++ ms.dropWhile fun m => !m.ends := (List.takeWhile_append_dropWhile).symm
  cases hrest : ms.dropWhile fun m => !m.ends with
  | nil =>
    rw [List.dropWhile_eq_nil_iff] at hrest
    have := hrest .close (by rw [hms]; simp)
    simp [ChannelMsg.ends] at this
  | cons m after =>
    rw [hrest] at hsplit
    have hm : m.ends = true := by
      have := List.head_dropWhile_not (fun m : ChannelMsg => !m.ends) (l := ms) (by rw [hrest]; simp)
      simpa [hrest] using this
    cases m with
    | eof => exact .inr ⟨after, hsplit⟩
    | close =>
      left
      have hlast : before ++ .close :: after = body ++ [.close] := hsplit.symm.trans hms
      rcases List.eq_nil_or_concat after with rfl | ⟨init, last, rfl⟩
      · exact hsplit
      · have hcat : (before ++ .close :: init) ++ [last] = body ++ [.close] := by simpa using hlast
        obtain ⟨hbody', -⟩ := List.append_inj' hcat rfl
        exact absurd (hbody' ▸ List.mem_append_right _ (List.mem_cons_self)) hbody
    | _ => exact nomatch hm

theorem statusAfterEof_iff {before after : List ChannelMsg} (hbefore : .eof ∉ before) :
    StatusAfterEof (before ++ .eof :: after) ↔ after.filterMap ChannelMsg.status ≠ [] := by
  constructor
  · rintro ⟨pre, post, n, heq, hn⟩ hnil
    have hpost : n ∈ (pre ++ .eof :: post).filterMap ChannelMsg.status ∧ post <:+ after := by
      refine ⟨List.mem_filterMap.mpr ⟨.exit_status n, by simp [hn], rfl⟩, ?_⟩
      rcases List.append_eq_append_iff.mp heq with ⟨mid, rfl, hmid⟩ | ⟨mid, hpre, hmid⟩
      · cases mid with
        | nil => exact (List.cons.inj hmid).2 ▸ List.suffix_refl _
        | cons m mid =>
          obtain ⟨-, hafter⟩ := List.cons.inj hmid
          exact ⟨mid ++ [.eof], by rw [hafter]; simp⟩
      · cases mid with
        | nil => exact (List.cons.inj hmid).2 ▸ List.suffix_refl _
        | cons m mid =>
          obtain ⟨hm, -⟩ := List.cons.inj hmid
          exact absurd (hpre ▸ List.mem_append_right _ (hm ▸ List.mem_cons_self)) hbefore
    have : n ∈ after.filterMap ChannelMsg.status :=
      List.mem_filterMap.mpr ⟨.exit_status n, hpost.2.mem hn, rfl⟩
    rw [hnil] at this
    exact List.not_mem_nil this
  · intro hne
    obtain ⟨n, hn⟩ := List.exists_mem_of_ne_nil _ hne
    obtain ⟨m, hm, hstatus⟩ := List.mem_filterMap.mp hn
    cases m with
    | exit_status k => exact ⟨before, after, k, rfl, hm⟩
    | _ => exact nomatch hstatus

theorem not_eof_mem_takeWhile : .eof ∉ ms.takeWhile fun m : ChannelMsg => !m.ends :=
  fun h => by simpa [ChannelMsg.ends] using List.mem_takeWhile_imp h

theorem getLast?_eq_head? {α : Type*} {l : List α} (h : l.length ≤ 1) :
    l.getLast? = l.head? := by
  rcases l with _ | ⟨a, _ | ⟨b, rest⟩⟩
  · rfl
  · rfl
  · simp at h

/-- **All data and the exit status sent are returned exactly if no exit status comes after the end of
the output.** -/
theorem collects_all_iff (h : Legal ms) :
    run none (ms.map .message) = .ok (sent ms) ↔ ¬ StatusAfterEof ms := by
  change receive {} _ = _ ↔ _
  rw [receive_messages, add_all_eq, Except.ok.injEq]
  have hone := h.one_status
  set before := ms.takeWhile fun m => !m.ends with hbefore
  have heof : .eof ∉ before := not_eof_mem_takeWhile
  rcases h.rest with hms | ⟨after, hms⟩
  · rw [← hbefore] at hms
    have hsent : sent ms = sent before := by
      rw [hms]
      simp [sent, ChannelMsg.stdout, ChannelMsg.stderr, ChannelMsg.status]
    refine iff_of_true ?_ ?_
    · rw [hsent]
      have hlen : (before.filterMap ChannelMsg.status).length ≤ 1 := by
        rw [hms, List.filterMap_append, List.length_append] at hone
        omega
      simp [Gathered.output, sent, getLast?_eq_head? hlen]
    · rintro ⟨pre, post, n, heq, -⟩
      have hmem : ChannelMsg.eof ∈ before ++ [.close] := by
        rw [← hms, heq]
        simp
      rcases List.mem_append.mp hmem with hmem | hmem
      · exact heof hmem
      · simp at hmem
  · rw [← hbefore] at hms
    have hdata := h.no_data_after_eof before after hms
    rw [hms, statusAfterEof_iff heof, not_not]
    rw [hms, List.filterMap_append, List.length_append] at hone
    have hout : after.flatMap ChannelMsg.stdout = [] :=
      List.flatMap_eq_nil_iff.mpr fun m hm => (hdata m hm).1
    have herr : after.flatMap ChannelMsg.stderr = [] :=
      List.flatMap_eq_nil_iff.mpr fun m hm => (hdata m hm).2
    have hcons : (ChannelMsg.eof :: after).filterMap ChannelMsg.status =
        after.filterMap ChannelMsg.status := rfl
    rw [hcons] at hone
    simp only [Gathered.output, sent, List.nil_append, Option.or_none, List.flatMap_append,
      List.flatMap_cons, ChannelMsg.stdout, ChannelMsg.stderr, hout, herr, List.append_nil,
      List.filterMap_append, hcons, ExecOutput.mk.injEq, true_and]
    rcases hafter : after.filterMap ChannelMsg.status with _ | ⟨n, rest⟩
    · refine iff_of_true ?_ rfl
      rw [hafter] at hone
      rw [getLast?_eq_head? hone, List.append_nil]
    · refine iff_of_false ?_ (List.cons_ne_nil _ _)
      rw [hafter, List.length_cons] at hone
      rw [List.length_eq_zero_iff.mp (by omega : (before.filterMap ChannelMsg.status).length = 0)]
      simp

end Orders

/-- The end of the output, then the exit status, as many servers send them. -/
def eof_first : List ChannelMsg := [.data [104, 105], .eof, .exit_status 3, .close]

theorem legal_eof_first : Legal eof_first where
  closes := ⟨[.data [104, 105], .eof, .exit_status 3], rfl, by decide⟩
  no_data_after_eof := by
    intro before after h
    rcases before with _ | ⟨b, _ | ⟨c, before⟩⟩
    · exact nomatch (List.cons.inj h).1
    · obtain rfl : [.exit_status 3, .close] = after := (List.cons.inj (List.cons.inj h).2).2
      decide
    · have hrest : [.exit_status 3, .close] = before ++ .eof :: after :=
        (List.cons.inj (List.cons.inj h).2).2
      have hmem : ChannelMsg.eof ∈ [.exit_status 3, .close] := by
        rw [hrest]
        exact List.mem_append_right _ List.mem_cons_self
      exact absurd hmem (by decide)
  one_status := by decide

theorem collects_all_eof_first :
    run none (eof_first.map .message) = .ok (sent eof_first) ↔ ¬ StatusAfterEof eof_first :=
  collects_all_iff legal_eof_first

/-- Its exit status is not returned. -/
theorem eof_first_loses_status :
    Legal eof_first ∧ run none (eof_first.map .message) ≠ .ok (sent eof_first) :=
  ⟨legal_eof_first, by decide⟩

end WaSSH.Ssh
