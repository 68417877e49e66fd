import Mathlib.Algebra.Order.Group.Multiset
import Mathlib.Tactic
import WaSSH.Files.Request

/-!
# The ledger of accepted requests

A request accepted from a caller waits in the queue, runs in the slot (as a job, or as the archive
packed from what it fetched), or its answer has been taken with its own description.

* `Ledger`, `Accounted`: the places of a request and their balance;
* `enqueue`, `start`, `start_next`, `take` and one balance lemma for each;
* `answered_own`, `tickets_nodup`: what the balance says of one request.
-/

namespace WaSSH.Files

/-! ## The ledger -/

/-- The fields that say where each request is. -/
structure Ledger where
  accepted : List FileJob
  answered : List (Ticket × Option FileJob)
  pack : Option (Ticket × String × String)
  pending : Option Ticket
  job : Option FileJob
  queue : List (Ticket × String)

/-- A request and the description its answer needs. -/
abbrev Entry := Ticket × Option FileJob

/-- The description an answer is applied with. A resolved path is applied by its outcome alone. -/
def described : Option FileJob → Option FileJob
  | some .resolve => none
  | job => job

@[simp] theorem described_none : described none = none := rfl

@[simp] theorem described_zip (dir archive : String) :
    described (some (.zip dir archive)) = some (.zip dir archive) := rfl

@[simp] theorem described_transfer (done : String) :
    described (some (.transfer done)) = some (.transfer done) := rfl

/-- What a poll takes off the channels. -/
inductive Taken
  | nothing
  /-- The archive is written, or given up. -/
  | pack
  /-- The tree of an archive has landed; packing starts. -/
  | tree
  | answer
  deriving DecidableEq

/-! ### Entries -/

def accepted_entries (jobs : List FileJob) : Multiset Entry :=
  ↑(jobs.zipIdx.map fun (job, ticket) => (ticket, described (some job)))

def answered_entries (answers : List (Ticket × Option FileJob)) : Multiset Entry :=
  ↑(answers.map fun (ticket, job) => (ticket, described job))

def pack_entry : Option (Ticket × String × String) → Multiset Entry
  | some (ticket, dir, archive) => {(ticket, some (.zip dir archive))}
  | none => 0

def slot_entry : Option Ticket → Option FileJob → Multiset Entry
  | some ticket, job => {(ticket, described job)}
  | none, _ => 0

def queue_entries (queue : List (Ticket × String)) : Multiset Entry :=
  ↑(queue.map fun (ticket, done) => (ticket, some (FileJob.transfer done)))

@[simp] theorem accepted_entries_concat (jobs : List FileJob) (job : FileJob) :
    accepted_entries (jobs ++ [job]) =
      accepted_entries jobs + {(jobs.length, described (some job))} := by
  simp [accepted_entries, List.zipIdx_append, ← Multiset.coe_add]

@[simp] theorem answered_entries_concat (answers : List (Ticket × Option FileJob)) (ticket : Ticket)
    (job : Option FileJob) :
    answered_entries (answers ++ [(ticket, job)]) =
      answered_entries answers + {(ticket, described job)} := by
  simp [answered_entries, ← Multiset.coe_add]

@[simp] theorem pack_entry_some (ticket : Ticket) (dir archive : String) :
    pack_entry (some (ticket, dir, archive)) = {(ticket, some (.zip dir archive))} := rfl

@[simp] theorem pack_entry_none : pack_entry none = 0 := rfl

@[simp] theorem slot_entry_some (ticket : Ticket) (job : Option FileJob) :
    slot_entry (some ticket) job = {(ticket, described job)} := rfl

@[simp] theorem slot_entry_none (job : Option FileJob) : slot_entry none job = 0 := rfl

@[simp] theorem queue_entries_nil : queue_entries [] = 0 := rfl

@[simp] theorem queue_entries_cons (ticket : Ticket) (done : String)
    (queue : List (Ticket × String)) :
    queue_entries ((ticket, done) :: queue) =
      {(ticket, some (.transfer done))} + queue_entries queue := rfl

@[simp] theorem queue_entries_concat (ticket : Ticket) (done : String)
    (queue : List (Ticket × String)) :
    queue_entries (queue ++ [(ticket, done)]) =
      queue_entries queue + {(ticket, some (.transfer done))} := by
  simp [queue_entries, ← Multiset.coe_add]

theorem slot_entry_eq_zero_iff (pending : Option Ticket) (job : Option FileJob) :
    slot_entry pending job = 0 ↔ pending = none := by
  cases pending <;> simp

namespace Ledger

variable (l : Ledger)

/-- **The balance**: every accepted request is in exactly one place, once, with its own
description. -/
def Accounted : Prop :=
  accepted_entries l.accepted =
    answered_entries l.answered + pack_entry l.pack + slot_entry l.pending l.job +
      queue_entries l.queue

/-! ## Operations -/

/-- Accept a request and let it wait. -/
def enqueue (done : String) : Ledger :=
  { l with
    accepted := l.accepted ++ [.transfer done]
    queue := l.queue ++ [(l.accepted.length, done)] }

/-- Accept a request and give it the slot. -/
def start (job : FileJob) : Ledger :=
  { l with
    accepted := l.accepted ++ [job], pending := some l.accepted.length, job := some job }

/-- Nothing runs. -/
def Free : Prop := l.pending = none ∧ l.pack = none

instance : Decidable l.Free := inferInstanceAs (Decidable (_ ∧ _))

/-- The head of the queue leaves it when nothing runs, into the slot when there is a file system. -/
def start_next (browsable : Bool) : Ledger :=
  if l.Free then
    match l.queue with
    | [] => l
    | (ticket, done) :: queue =>
      if browsable then { l with queue, pending := some ticket, job := some (.transfer done) }
      else { l with queue }
  else l

/-- The archive's answer is taken. -/
def take_pack : Ledger :=
  match l.pack with
  | some (ticket, dir, archive) =>
    { l with
      pack := none, job := none
      answered := l.answered ++ [(ticket, some (.zip dir archive))] }
  | none => l

/-- The archive's tree has landed. -/
def take_tree : Ledger :=
  match l.pack, l.pending, l.job with
  | none, some ticket, some (.zip dir archive) =>
    { l with pending := none, job := none, pack := some (ticket, dir, archive) }
  | _, _, _ => l

/-- The answer of the request in flight is taken. -/
def take_answer : Ledger :=
  match l.pending with
  | some ticket =>
    { l with pending := none, job := none, answered := l.answered ++ [(ticket, l.job)] }
  | none => l

def take : Taken → Ledger
  | .nothing => l
  | .pack => l.take_pack
  | .tree => l.take_tree
  | .answer => l.take_answer

/-! ### The balance under each operation -/

variable {l}

theorem enqueue_accounted (h : l.Accounted) (done : String) : (l.enqueue done).Accounted := by
  unfold Accounted at h ⊢
  simp only [enqueue, accepted_entries_concat, queue_entries_concat, h, add_assoc, described_transfer]

theorem start_accounted_iff (h : l.Accounted) (job : FileJob) :
    (l.start job).Accounted ↔ l.pending = none := by
  unfold Accounted at h ⊢
  simp only [start, accepted_entries_concat, slot_entry_some, h]
  rw [← slot_entry_eq_zero_iff l.pending l.job, ← add_eq_left
    (a := answered_entries l.answered + pack_entry l.pack +
      {(l.accepted.length, described (some job))} + queue_entries l.queue)]
  refine Eq.congr ?_ rfl
  abel

theorem ite_start_accounted_iff (h : l.Accounted) (browsable : Bool) (job : FileJob) :
    (if browsable then l.start job else l).Accounted ↔ (browsable → l.pending = none) := by
  cases browsable
  · exact iff_of_true h fun hb => nomatch hb
  · exact (start_accounted_iff h job).trans ⟨fun hp _ => hp, fun hp => hp rfl⟩

theorem start_next_accounted_iff (h : l.Accounted) (browsable : Bool) :
    (l.start_next browsable).Accounted ↔ (l.Free → l.queue = [] ∨ browsable) := by
  unfold start_next
  by_cases hf : l.Free
  · rw [if_pos hf]
    obtain ⟨hpending, hpack⟩ := hf
    unfold Accounted at h
    rw [hpending, hpack, pack_entry_none, slot_entry_none, add_zero, add_zero] at h
    rcases hq : l.queue with _ | ⟨⟨ticket, done⟩, queue⟩
    · refine iff_of_true ?_ fun _ => .inl rfl
      simp [Accounted, h, hq, hpending, hpack]
    · rw [hq, queue_entries_cons] at h
      cases browsable
      · refine iff_of_false (fun hb => ?_) fun hd => by simpa using hd ⟨hpending, hpack⟩
        have hb' : accepted_entries l.accepted =
            answered_entries l.answered + queue_entries queue := by
          simpa [Accounted, hpending, hpack] using hb
        have hcard := congrArg Multiset.card (h.symm.trans hb')
        simp at hcard
      · refine iff_of_true ?_ fun _ => .inr rfl
        simp only [Accounted, if_true, hpack, h, pack_entry_none, slot_entry_some,
          described_transfer, add_zero, add_assoc]
  · rw [if_neg hf]
    exact iff_of_true h fun hf' => absurd hf' hf

theorem take_pack_accounted_iff (h : l.Accounted) :
    l.take_pack.Accounted ↔ (l.pack.isSome → l.pending.isSome → described l.job = none) := by
  unfold take_pack
  rcases hp : l.pack with _ | ⟨ticket, dir, archive⟩
  · exact iff_of_true h fun hn => nomatch hn
  · unfold Accounted at h ⊢
    simp only [answered_entries_concat, pack_entry_none, h, hp, pack_entry_some, described_zip,
      add_zero, add_left_inj, add_right_inj, Option.isSome_some, true_implies]
    cases l.pending with
    | none => simp
    | some running => simp

theorem take_tree_accounted (h : l.Accounted) : l.take_tree.Accounted := by
  unfold take_tree
  split
  · next ticket dir archive hpack hpending hjob =>
    unfold Accounted at h ⊢
    simp only [h, hpack, hpending, hjob, pack_entry_none, pack_entry_some, slot_entry_none,
      slot_entry_some, described_zip, add_zero]
  · exact h

theorem take_answer_accounted (h : l.Accounted) : l.take_answer.Accounted := by
  unfold take_answer
  split
  · next ticket hpending =>
    unfold Accounted at h ⊢
    simp only [h, hpending, answered_entries_concat, slot_entry_some, slot_entry_none, add_zero]
    rw [add_right_comm (answered_entries l.answered)]
  · exact h

theorem take_accounted_iff (h : l.Accounted) (t : Taken) :
    (l.take t).Accounted ↔
      (t = .pack → l.pack.isSome → l.pending.isSome → described l.job = none) := by
  cases t with
  | nothing => exact iff_of_true h fun ht => nomatch ht
  | pack => exact (take_pack_accounted_iff h).trans ⟨fun hp _ => hp, fun hp => hp rfl⟩
  | tree => exact iff_of_true (take_tree_accounted h) fun ht => nomatch ht
  | answer => exact iff_of_true (take_answer_accounted h) fun ht => nomatch ht

/-! ### What the balance says of one request -/

theorem mem_accepted_entries {jobs : List FileJob} {e : Entry} (he : e ∈ accepted_entries jobs) :
    ∃ job, jobs[e.1]? = some job ∧ e.2 = described (some job) := by
  obtain ⟨⟨job, ticket⟩, hmem, rfl⟩ := List.mem_map.mp (Multiset.mem_coe.mp he)
  exact ⟨job, List.mk_mem_zipIdx_iff_getElem?.mp hmem, rfl⟩

/-- An answer is applied with the description its own request was accepted with. -/
theorem answered_own (h : l.Accounted) {ticket : Ticket} {job : Option FileJob}
    (hmem : (ticket, job) ∈ l.answered) :
    ∃ own, l.accepted[ticket]? = some own ∧ described job = described (some own) := by
  have he : (ticket, described job) ∈ answered_entries l.answered :=
    Multiset.mem_coe.mpr (List.mem_map.mpr ⟨_, hmem, rfl⟩)
  have hacc : (ticket, described job) ∈ accepted_entries l.accepted := by
    rw [h]
    simp only [Multiset.mem_add]
    exact .inl (.inl (.inl he))
  exact mem_accepted_entries hacc

/-- No ticket is in two places, or twice in one. -/
theorem tickets_nodup (h : l.Accounted) :
    ((answered_entries l.answered + pack_entry l.pack + slot_entry l.pending l.job +
      queue_entries l.queue).map Prod.fst).Nodup := by
  rw [← h, accepted_entries, Multiset.map_coe, List.map_map, Multiset.coe_nodup]
  have hsnd : l.accepted.zipIdx.map Prod.snd = List.range' 0 l.accepted.length :=
    List.zipIdx_map_snd 0 l.accepted
  exact hsnd ▸ List.nodup_range'

end Ledger

end WaSSH.Files
