import WaSSH.Lib.Run

/-!
# Packets in a stream

A decoder answers a buffer with a packet and the number of symbols it used, with an error, or with
nothing while the buffer does not hold a whole packet. A reader hands packets on and keeps the
symbols it has not used.

* `Decoder`: a decoder whose answers later symbols do not change;
* `drain`, `read`: the reader on one buffer and on one more chunk;
* **`run_read`**: how the stream is cut into chunks does not show;
* **`drain_flatMap`**: a reader of encoded packets hands on exactly those packets.
-/

namespace Framed

/-- A decoder whose packets use a part of the buffer, and whose answers later symbols do not
change. -/
structure Decoder (α π ε : Type*) where
  decode : List α → Except ε (Option (π × ℕ))
  decode_nil : decode [] = .ok none
  used_bound : ∀ {b p n}, decode b = .ok (some (p, n)) → 0 < n ∧ n ≤ b.length
  packet_append : ∀ {b p n} (c : List α), decode b = .ok (some (p, n)) →
    decode (b ++ c) = .ok (some (p, n))
  error_append : ∀ {b e} (c : List α), decode b = .error e → decode (b ++ c) = .error e

/-- Where a reader stands. -/
inductive Reader (α ε : Type*)
  | waiting (buffer : List α)
  | failed (error : ε)
  | stopped

variable {α π ε σ : Type*} (D : Decoder α π ε) (handle : σ → π → σ × Bool)

/-- Hand the packets of a buffer on, one by one, until `handle` stops the reader, the decoder
fails, or it needs more symbols. -/
def drain (s : σ) (b : List α) : σ × Reader α ε :=
  match _h : D.decode b with
  | .error e => (s, .failed e)
  | .ok none => (s, .waiting b)
  | .ok (some (p, n)) =>
    match handle s p with
    | (t, true) => drain t (b.drop n)
    | (t, false) => (t, .stopped)
termination_by b.length
decreasing_by
  have := D.used_bound _h
  rw [List.length_drop]
  omega

/-- One more chunk. -/
def read (r : σ × Reader α ε) (chunk : List α) : σ × Reader α ε :=
  match r with
  | (s, .waiting buffer) => drain D handle s (buffer ++ chunk)
  | r => r

/-- `handle` on a list of packets, and whether the reader goes on. -/
def process : σ → List π → σ × Bool
  | s, [] => (s, true)
  | s, p :: ps =>
    match handle s p with
    | (t, true) => process t ps
    | (t, false) => (t, false)

variable {D handle} {s t : σ} {b : List α} {p : π} {n : ℕ}

theorem drain_error {e : ε} (h : D.decode b = .error e) :
    drain D handle s b = (s, .failed e) := by
  rw [drain]
  split <;> simp_all

theorem drain_none (h : D.decode b = .ok none) : drain D handle s b = (s, .waiting b) := by
  rw [drain]
  split <;> simp_all

theorem drain_packet (h : D.decode b = .ok (some (p, n))) (hs : handle s p = (t, true)) :
    drain D handle s b = drain D handle t (b.drop n) := by
  rw [drain]
  split <;> simp_all

theorem drain_stop (h : D.decode b = .ok (some (p, n))) (hs : handle s p = (t, false)) :
    drain D handle s b = (t, .stopped) := by
  rw [drain]
  split <;> simp_all

/-- **Draining a longer buffer** is draining its beginning and reading the rest. -/
theorem drain_append (s : σ) (b c : List α) :
    drain D handle s (b ++ c) = read D handle (drain D handle s b) c := by
  induction hb : b.length using Nat.strong_induction_on generalizing s b with
  | _ _ ih =>
    rcases h : D.decode b with e | _ | ⟨p, n⟩
    · rw [drain_error h, drain_error (D.error_append c h)]
      rfl
    · rw [drain_none h]
      rfl
    · have hn := D.used_bound h
      rcases hs : handle s p with ⟨t, _ | _⟩
      · rw [drain_stop h hs, drain_stop (D.packet_append c h) hs]
        rfl
      · rw [drain_packet h hs, drain_packet (D.packet_append c h) hs,
          List.drop_append_of_le_length hn.2]
        exact ih _ (by rw [List.length_drop]; omega) t _ rfl

/-- **Chunks do not show**: reading a stream chunk by chunk is draining it in one piece. -/
theorem run_read (s : σ) (b : List α) (chunks : List (List α)) :
    StepRun.run (read D handle) (drain D handle s b) chunks =
      drain D handle s (b ++ chunks.flatten) := by
  induction chunks generalizing b with
  | nil => simp
  | cons chunk chunks ih =>
    rw [StepRun.run_cons, ← drain_append, ih, List.flatten_cons, List.append_assoc]

theorem run_read_nil (s : σ) (chunks : List (List α)) :
    StepRun.run (read D handle) (s, .waiting []) chunks = drain D handle s chunks.flatten := by
  rw [← drain_none D.decode_nil, run_read, List.nil_append]

/-- A reader waits only where the decoder has no answer. -/
theorem decode_of_waiting {s t : σ} {b r : List α} (h : drain D handle s b = (t, .waiting r)) :
    D.decode r = .ok none := by
  induction hb : b.length using Nat.strong_induction_on generalizing s b with
  | _ _ ih =>
    rcases hd : D.decode b with e | _ | ⟨p, n⟩
    · rw [drain_error hd] at h
      cases h
    · rw [drain_none hd] at h
      cases h
      exact hd
    · have hn := D.used_bound hd
      rcases hs : handle s p with ⟨u, _ | _⟩
      · rw [drain_stop hd hs] at h
        cases h
      · rw [drain_packet hd hs] at h
        exact ih _ (by rw [List.length_drop]; omega) h rfl

/-- What every packet preserves, a buffer preserves. -/
theorem drain_inv {I : σ → Prop} (hstep : ∀ s p, I s → I (handle s p).1) {s : σ} (hs : I s)
    (b : List α) : I (drain D handle s b).1 := by
  induction hb : b.length using Nat.strong_induction_on generalizing s b with
  | _ _ ih =>
    rcases hd : D.decode b with e | _ | ⟨p, n⟩
    · rwa [drain_error hd]
    · rwa [drain_none hd]
    · have hn := D.used_bound hd
      have ht := hstep s p hs
      rcases h : handle s p with ⟨u, _ | _⟩
      · rw [drain_stop hd h]
        rwa [h] at ht
      · rw [drain_packet hd h]
        rw [h] at ht
        exact ih _ (by rw [List.length_drop]; omega) ht _ rfl

/-- **Encoded packets**: where the decoder undoes the encoder whatever follows, a reader hands on
the packets of the stream in order, and nothing is left of the stream unless it was stopped. -/
theorem drain_flatMap {ρ : Type*} {encode : ρ → List α} {view : ρ → π} {ps : List ρ}
    (h : ∀ p ∈ ps, ∀ rest, D.decode (encode p ++ rest) = .ok (some (view p, (encode p).length)))
    (s : σ) :
    drain D handle s (ps.flatMap encode) =
      ((process handle s (ps.map view)).1,
        if (process handle s (ps.map view)).2 then .waiting [] else .stopped) := by
  induction ps generalizing s with
  | nil => exact drain_none D.decode_nil
  | cons p ps ih =>
    have hp := h p List.mem_cons_self (ps.flatMap encode)
    rw [List.flatMap_cons, List.map_cons]
    rcases hs : handle s (view p) with ⟨t, _ | _⟩
    · rw [drain_stop hp hs]
      simp [process, hs]
    · rw [drain_packet hp hs, List.drop_left, ih (fun q hq => h q (List.mem_cons_of_mem p hq))]
      simp only [process, hs]

end Framed
