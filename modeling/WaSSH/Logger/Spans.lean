import WaSSH.Lib.Checked
import WaSSH.Lib.Tiles
import WaSSH.Logger.Log

/-!
# Spans, cards and hours

The Connection Logger shows its log three times: as spans, as a summary, and hour by hour.

* `build_spans`, `summarise`, `hourly_buckets`: the three, with the additions of the code checked;
* `tiles_build_spans`: the spans follow each other from the first entry to the end of the window;
* `tiles_hours`: so do the hours of the window;
* **`agree_iff`**: the three agree exactly when the window ends no later than the last full hour
  that the clock can count.
-/

namespace WaSSH.Logger

open Checked Intervals

/-! ## Spans -/

/-- The stretch of time a graph covers. -/
structure Range where
  start_ms : UInt64
  end_ms : UInt64

/-- Where it begins. -/
def Range.first (range : Range) : ℕ := range.start_ms.toNat

/-- Where it ends. -/
def Range.last (range : Range) : ℕ := range.end_ms.toNat

/-- One stretch of time during which the state did not change. -/
structure Span where
  start_ms : ℕ
  end_ms : ℕ
  kind : LogKind
  message : Option String

/-- How long the span lasted. -/
def Span.duration_ms (span : Span) : ℕ := span.end_ms - span.start_ms

/-- Where an entry ends: where the next one begins, or the window ends. -/
def next_ms (range : Range) : List LogEntry → ℕ
  | next :: _ => next.at_ms.toNat
  | [] => range.last

/-- Each entry runs until the next one, and the last until the end of the window. -/
def spans_of (range : Range) : List LogEntry → List Span
  | [] => []
  | entry :: rest =>
    let end_ms := next_ms range rest
    let start_ms := max entry.at_ms.toNat range.first
    let end_ms := min end_ms range.last
    if start_ms < end_ms then ⟨start_ms, end_ms, entry.kind, entry.message⟩ :: spans_of range rest
    else spans_of range rest

/-- The spans a window shows; with nothing logged it is one span in the current state. -/
def build_spans (entries : List LogEntry) (range : Range) (status : SessionStatus) : List Span :=
  if entries.isEmpty then
    [⟨range.first, range.last, if status = .connected then .connected else .disconnected, none⟩]
  else spans_of range entries

/-! ## The cards -/

/-- What the cards above the graph report, percentages apart. -/
structure Summary where
  connected_ms : ℕ
  disconnected_ms : ℕ
  disconnects : ℕ
  average_connected_ms : ℕ
  current_duration_ms : ℕ

/-- What is counted on the way. -/
structure Tally where
  connected_ms : ℕ
  disconnected_ms : ℕ
  disconnects : ℕ
  sessions : ℕ

/-- One span. -/
def count_span (t : Tally) (span : Span) : Except Fault Tally :=
  if span.kind = .connected then do
    let connected_ms ← add 64 t.connected_ms span.duration_ms
    return { t with connected_ms, sessions := t.sessions + 1 }
  else do
    let disconnected_ms ← add 64 t.disconnected_ms span.duration_ms
    return { t with
      disconnected_ms
      disconnects :=
        if span.kind = .disconnected ∨ span.kind = .failed then t.disconnects + 1
        else t.disconnects }

/-- Fold the window's spans into the summary the metric cards show. -/
def summarise (spans : List Span) (entries : List LogEntry) (now : UInt64) :
    Except Fault Summary := do
  let t ← spans.foldlM count_span ⟨0, 0, 0, 0⟩
  return {
    connected_ms := t.connected_ms
    disconnected_ms := t.disconnected_ms
    disconnects := t.disconnects
    average_connected_ms := if t.sessions = 0 then 0 else t.connected_ms / t.sessions
    current_duration_ms :=
      match entries.getLast? with
      | some entry => now.toNat - entry.at_ms.toNat
      | none => 0 }

/-! ## Hours -/

def HOUR : ℕ := 3600000

/-- One hour of the heatmap, its percentage apart. -/
structure Bucket where
  start_ms : ℕ
  end_ms : ℕ
  connected_ms : ℕ
  total_ms : ℕ
  changes : ℕ

/-- One span in an hour. -/
def count_overlap (bucket : Bucket) (span : Span) : Except Fault Bucket :=
  let overlap := min bucket.end_ms span.end_ms - max bucket.start_ms span.start_ms
  if overlap = 0 then .ok bucket
  else if span.kind = .connected then do
    let connected_ms ← add 64 bucket.connected_ms overlap
    return { bucket with connected_ms }
  else .ok { bucket with changes := bucket.changes + 1 }

/-- One hour, from `start_ms` to `next_ms`. -/
def hour (range : Range) (spans : List Span) (start_ms next_ms : ℕ) : Except Fault Bucket :=
  let bucket_start := max start_ms range.first
  let bucket_end := min next_ms range.last
  spans.foldlM count_overlap ⟨bucket_start, bucket_end, 0, max (bucket_end - bucket_start) 1, 0⟩

theorem hour_pos : 0 < HOUR := by decide

/-- The hours from `start_ms` on. -/
def hours (range : Range) (spans : List Span) (start_ms : ℕ) : Except Fault (List Bucket) :=
  if start_ms < range.last then do
    let next_ms ← add 64 start_ms HOUR
    let bucket ← hour range spans start_ms next_ms
    let rest ← hours range spans (start_ms + HOUR)
    return bucket :: rest
  else .ok []
termination_by range.last - start_ms
decreasing_by
  have := hour_pos
  omega

/-- Split the window into hour-aligned buckets. -/
def hourly_buckets (range : Range) (spans : List Span) : Except Fault (List Bucket) :=
  hours range spans (range.first / HOUR * HOUR)

/-! ## What the spans cover -/

/-- The time of a span. -/
def Span.interval (span : Span) : Interval := (span.start_ms, span.end_ms)

/-- Where the log begins to say something about a window: everywhere, if it is empty. -/
def covered_from (entries : List LogEntry) (range : Range) : ℕ :=
  match entries with
  | entry :: _ => max entry.at_ms.toNat range.first
  | [] => range.first

/-- A log whose times do not decrease. -/
def InTime (entries : List LogEntry) : Prop :=
  entries.Pairwise fun a b => a.at_ms.toNat ≤ b.at_ms.toNat

theorem spans_of_cons (range : Range) (entry : LogEntry) (rest : List LogEntry) :
    spans_of range (entry :: rest) =
      if max entry.at_ms.toNat range.first < min (next_ms range rest) range.last then
        ⟨max entry.at_ms.toNat range.first, min (next_ms range rest) range.last, entry.kind,
          entry.message⟩ :: spans_of range rest
      else spans_of range rest := rfl

theorem spans_of_eq_nil {entries : List LogEntry} {range : Range}
    (h : ∀ e ∈ entries, range.last ≤ max e.at_ms.toNat range.first) :
    spans_of range entries = [] := by
  induction entries with
  | nil => rfl
  | cons entry rest ih =>
    obtain ⟨hentry, hrest⟩ := List.forall_mem_cons.mp h
    rw [spans_of_cons, if_neg (by omega), ih hrest]

/-- **The spans follow each other** from the first entry to the end of the window. -/
theorem tiles_spans_of {entry : LogEntry} {rest : List LogEntry} (range : Range)
    (h : InTime (entry :: rest)) :
    Tiles (max entry.at_ms.toNat range.first) range.last
      ((spans_of range (entry :: rest)).map Span.interval) := by
  induction rest generalizing entry with
  | nil =>
    rw [spans_of_cons]
    split_ifs with hlt
    · refine ⟨rfl, le_of_lt hlt, Nat.min_le_right _ _, ?_⟩
      show range.last ≤ min range.last range.last
      omega
    · rw [next_ms] at hlt
      show range.last ≤ max _ _
      omega
  | cons next rest ih =>
    obtain ⟨hentry, hnext⟩ := List.pairwise_cons.mp h
    have hle := hentry next List.mem_cons_self
    have hnexts : ∀ e ∈ next :: rest, next.at_ms.toNat ≤ e.at_ms.toNat :=
      List.forall_mem_cons.mpr ⟨le_refl _, (List.pairwise_cons.mp hnext).1⟩
    have hempty : range.last ≤ max next.at_ms.toNat range.first →
        spans_of range (next :: rest) = [] := fun hout =>
      spans_of_eq_nil fun e he => by
        have := hnexts e he
        omega
    have htiles := ih hnext
    have hend : next_ms range (next :: rest) = next.at_ms.toNat := rfl
    rw [spans_of_cons, hend]
    by_cases hout : range.last ≤ max next.at_ms.toNat range.first
    · -- the rest of the log is behind the window
      rw [hempty hout]
      split_ifs with hlt
      · refine ⟨rfl, le_of_lt hlt, Nat.min_le_right _ _, ?_⟩
        show range.last ≤ min next.at_ms.toNat range.last
        omega
      · show range.last ≤ max _ _
        omega
    · split_ifs with hlt
      · have hmin : min next.at_ms.toNat range.last = next.at_ms.toNat := by omega
        have hmax : max next.at_ms.toNat range.first = next.at_ms.toNat := by omega
        refine ⟨rfl, le_of_lt hlt, Nat.min_le_right _ _, ?_⟩
        show Tiles (min next.at_ms.toNat range.last) _ _
        rw [hmin, ← hmax]
        exact htiles
      · have hmax : max next.at_ms.toNat range.first = max entry.at_ms.toNat range.first := by
          omega
        rw [← hmax]
        exact htiles

/-- **What the spans of a window cover.** -/
theorem tiles_build_spans {entries : List LogEntry} {range : Range} (h : InTime entries)
    (hrange : range.first ≤ range.last) (status : SessionStatus) :
    Tiles (covered_from entries range) range.last
      ((build_spans entries range status).map Span.interval) := by
  cases entries with
  | nil => exact ⟨rfl, hrange, le_refl _, le_refl _⟩
  | cons entry rest => exact tiles_spans_of range h

/-! ## What the cards add up to -/

/-- The time of the spans of a kind of state. -/
def time (p : Span → Bool) (spans : List Span) : ℕ := ((spans.filter p).map Span.duration_ms).sum

def is_connected (span : Span) : Bool := span.kind = .connected

theorem time_cons (p : Span → Bool) (span : Span) (spans : List Span) :
    time p (span :: spans) = (if p span then span.duration_ms else 0) + time p spans := by
  unfold time
  by_cases h : p span
  · rw [List.filter_cons_of_pos h, if_pos h, List.map_cons, List.sum_cons]
  · rw [List.filter_cons_of_neg h, if_neg h, Nat.zero_add]

theorem time_add_time (spans : List Span) :
    time is_connected spans + time (!is_connected ·) spans =
      (spans.map Span.duration_ms).sum := by
  induction spans with
  | nil => rfl
  | cons span spans ih =>
    rw [time_cons, time_cons, List.map_cons, List.sum_cons]
    cases is_connected span <;> simp only [Bool.not_true, Bool.not_false, if_true, if_false,
      Bool.false_eq_true] <;> omega

/-- Counting spans gives their times, where these can be counted. -/
theorem foldlM_count_span (spans : List Span) (t : Tally)
    (hup : t.connected_ms + time is_connected spans < 2 ^ 64)
    (hdown : t.disconnected_ms + time (!is_connected ·) spans < 2 ^ 64) :
    ∃ t', spans.foldlM count_span t = .ok t' ∧
      t'.connected_ms = t.connected_ms + time is_connected spans ∧
      t'.disconnected_ms = t.disconnected_ms + time (!is_connected ·) spans := by
  induction spans generalizing t with
  | nil => exact ⟨t, rfl, rfl, rfl⟩
  | cons span spans ih =>
    rw [time_cons] at hup hdown ⊢
    rw [time_cons, List.foldlM_cons, count_span]
    by_cases hc : span.kind = .connected
    · have hc' : is_connected span = true := decide_eq_true hc
      rw [hc'] at hup hdown ⊢
      simp only [if_true, Bool.not_true, Bool.false_eq_true, if_false, Nat.zero_add] at hup hdown ⊢
      rw [if_pos hc, add, if_pos (by omega)]
      obtain ⟨t', ht', hconn, hdisc⟩ :=
        ih { t with connected_ms := t.connected_ms + span.duration_ms,
                    sessions := t.sessions + 1 } (by dsimp only; omega) hdown
      refine ⟨t', ht', ?_, hdisc⟩
      rw [hconn, Nat.add_assoc]
    · have hc' : is_connected span = false := decide_eq_false hc
      rw [hc'] at hup hdown ⊢
      simp only [if_true, Bool.not_false, Bool.false_eq_true, if_false, Nat.zero_add] at hup hdown ⊢
      rw [if_neg hc, add, if_pos (by omega)]
      obtain ⟨t', ht', hconn, hdisc⟩ :=
        ih { t with
              disconnected_ms := t.disconnected_ms + span.duration_ms
              disconnects :=
                if span.kind = .disconnected ∨ span.kind = .failed then t.disconnects + 1
                else t.disconnects } hup (by dsimp only; omega)
      refine ⟨t', ht', hconn, ?_⟩
      rw [hdisc, Nat.add_assoc]

theorem sum_duration_ms (spans : List Span) :
    (spans.map Span.duration_ms).sum = ((spans.map Span.interval).map length).sum := by
  rw [List.map_map]
  rfl

theorem last_lt (range : Range) : range.last < 2 ^ 64 := range.end_ms.toNat_lt

/-- The cards add up to the time that the spans cover. -/
theorem summarise_eq {a : ℕ} {range : Range} {spans : List Span}
    (h : Tiles a range.last (spans.map Span.interval)) (entries : List LogEntry) (now : UInt64) :
    ∃ summary, summarise spans entries now = .ok summary ∧
      summary.connected_ms = time is_connected spans ∧
      summary.connected_ms + summary.disconnected_ms = range.last - a := by
  have hsum := time_add_time spans
  rw [sum_duration_ms, h.sum_length] at hsum
  have hlast := last_lt range
  obtain ⟨t, ht, hup, hdown⟩ := foldlM_count_span spans ⟨0, 0, 0, 0⟩
    (by dsimp only; omega) (by dsimp only; omega)
  rw [Nat.zero_add] at hup hdown
  rw [summarise, ht]
  refine ⟨_, rfl, hup, ?_⟩
  dsimp only
  rw [hup, hdown, hsum]

/-! ## What the hours add up to -/

/-- The time of an hour. -/
def Bucket.interval (bucket : Bucket) : Interval := (bucket.start_ms, bucket.end_ms)

/-- The connected time that spans have in common with an interval. -/
def shared (i : Interval) (spans : List Span) : ℕ :=
  ((spans.filter is_connected).map fun span => overlap i span.interval).sum

theorem shared_cons (i : Interval) (span : Span) (spans : List Span) :
    shared i (span :: spans) =
      (if is_connected span then overlap i span.interval else 0) + shared i spans := by
  unfold shared
  by_cases h : is_connected span
  · rw [List.filter_cons_of_pos h, if_pos h, List.map_cons, List.sum_cons]
  · rw [List.filter_cons_of_neg h, if_neg h, Nat.zero_add]

theorem shared_le_time (i : Interval) (spans : List Span) :
    shared i spans ≤ time is_connected spans :=
  List.sum_le_sum fun span _ => overlap_le_length i span.interval

/-- Counting the spans of an hour gives the connected time in it, where it can be counted. -/
theorem foldlM_count_overlap (spans : List Span) (bucket : Bucket)
    (h : bucket.connected_ms + shared bucket.interval spans < 2 ^ 64) :
    ∃ bucket', spans.foldlM count_overlap bucket = .ok bucket' ∧
      bucket'.interval = bucket.interval ∧
      bucket'.connected_ms = bucket.connected_ms + shared bucket.interval spans := by
  induction spans generalizing bucket with
  | nil => exact ⟨bucket, rfl, rfl, rfl⟩
  | cons span spans ih =>
    rw [shared_cons] at h
    rw [shared_cons, List.foldlM_cons, count_overlap]
    have hoverlap : min bucket.end_ms span.end_ms - max bucket.start_ms span.start_ms =
      overlap bucket.interval span.interval := rfl
    rw [hoverlap]
    by_cases hc : span.kind = .connected
    · have hc' : is_connected span = true := decide_eq_true hc
      rw [if_pos hc'] at h ⊢
      split_ifs with hnone
      · rw [hnone, Nat.zero_add] at h ⊢
        exact ih bucket h
      · rw [add, if_pos (by omega)]
        obtain ⟨bucket', hb, hi, hconn⟩ :=
          ih { bucket with connected_ms :=
                bucket.connected_ms + overlap bucket.interval span.interval } (by
            show bucket.connected_ms + overlap bucket.interval span.interval +
              shared bucket.interval spans < 2 ^ 64
            omega)
        refine ⟨bucket', hb, hi, ?_⟩
        rw [hconn, ← Nat.add_assoc]
        rfl
    · have hc' : is_connected span = false := decide_eq_false hc
      rw [hc', if_neg Bool.false_ne_true, Nat.zero_add] at h ⊢
      rw [if_neg hc]
      split_ifs with hnone
      · exact ih bucket h
      · exact ih { bucket with changes := bucket.changes + 1 } h

/-- One hour. -/
theorem hour_eq {a : ℕ} {range : Range} {spans : List Span}
    (h : Tiles a range.last (spans.map Span.interval)) (start_ms next_ms : ℕ) :
    ∃ bucket, hour range spans start_ms next_ms = .ok bucket ∧
      bucket.interval = (max start_ms range.first, min next_ms range.last) ∧
      bucket.connected_ms = shared bucket.interval spans := by
  have hsum := time_add_time spans
  rw [sum_duration_ms, h.sum_length] at hsum
  have hlast := last_lt range
  have hle := shared_le_time (max start_ms range.first, min next_ms range.last) spans
  obtain ⟨bucket, hb, hi, hconn⟩ := foldlM_count_overlap spans
    ⟨max start_ms range.first, min next_ms range.last, 0,
      max (min next_ms range.last - max start_ms range.first) 1, 0⟩
    (by rw [Nat.zero_add]; exact lt_of_le_of_lt hle (by omega))
  refine ⟨bucket, hb, hi, ?_⟩
  rw [hconn, hi, Nat.zero_add]

/-- The hours are there as long as the clock can count them. -/
def LastHour (range : Range) : Prop := range.last ≤ (2 ^ 64 - 1) / HOUR * HOUR

instance decidableLastHour (range : Range) : Decidable (LastHour range) := Nat.decLe _ _

/-- **The hours follow each other** to the end of the window, and their connected time is that of
the spans in them. -/
theorem hours_eq {a : ℕ} {range : Range} {spans : List Span}
    (h : Tiles a range.last (spans.map Span.interval)) (hlast : LastHour range)
    (hrange : range.first ≤ range.last) (start_ms : ℕ) (hstart : start_ms % HOUR = 0)
    (hfirst : range.first < start_ms + HOUR) :
    ∃ buckets, hours range spans start_ms = .ok buckets ∧
      Tiles (max start_ms range.first) range.last (buckets.map Bucket.interval) ∧
      ∀ bucket ∈ buckets, bucket.connected_ms = shared bucket.interval spans := by
  induction start_ms using hours.induct range with
  | case1 start_ms hlt ih =>
    have hnext : start_ms + HOUR < 2 ^ 64 := by
      unfold LastHour at hlast
      unfold HOUR at *
      omega
    obtain ⟨bucket, hb, hi, hconn⟩ := hour_eq h start_ms (start_ms + HOUR)
    obtain ⟨buckets, hbs, htiles, hall⟩ := ih
      (by rw [Nat.add_mod_right]; exact hstart) (by have := hour_pos; omega)
    refine ⟨bucket :: buckets, ?_, ?_, List.forall_mem_cons.mpr ⟨hconn, hall⟩⟩
    · rw [hours, if_pos hlt, add, if_pos hnext]
      show (do
        let bucket ← hour range spans start_ms (start_ms + HOUR)
        let rest ← hours range spans (start_ms + HOUR)
        return bucket :: rest) = _
      rw [hb, hbs]
      rfl
    · rw [List.map_cons, hi]
      refine ⟨rfl, ?_, Nat.min_le_right _ _, ?_⟩
      · show max start_ms range.first ≤ min (start_ms + HOUR) range.last
        omega
      · have := htiles.from_min
        rwa [Nat.max_eq_left (le_of_lt hfirst)] at this
  | case2 start_ms hge =>
    refine ⟨[], ?_, ?_, fun bucket hbucket => absurd hbucket List.not_mem_nil⟩
    · rw [hours, if_neg hge]
    · show range.last ≤ max start_ms range.first
      omega

/-- Hours that are there end where the clock can count them. -/
theorem lastHour_of_hours {range : Range} {spans : List Span} {buckets : List Bucket}
    (start_ms : ℕ) (hstart : start_ms % HOUR = 0) (hlt : start_ms < 2 ^ 64)
    (h : hours range spans start_ms = .ok buckets) : LastHour range := by
  induction start_ms using hours.induct range generalizing buckets with
  | case1 start_ms hin ih =>
    rw [hours, if_pos hin] at h
    obtain ⟨next_ms, hnext, h⟩ := bind_eq_ok_iff.mp h
    obtain ⟨bucket, -, h⟩ := bind_eq_ok_iff.mp h
    obtain ⟨rest, hrest, -⟩ := bind_eq_ok_iff.mp h
    obtain ⟨-, hsum⟩ := add_eq_ok_iff.mp hnext
    exact ih (by rw [Nat.add_mod_right]; exact hstart) hsum hrest
  | case2 start_ms hge =>
    unfold LastHour
    unfold HOUR at *
    omega

theorem aligned (first : ℕ) :
    first / HOUR * HOUR % HOUR = 0 ∧ first / HOUR * HOUR ≤ first ∧
      first < first / HOUR * HOUR + HOUR := by
  unfold HOUR
  omega

/-- The connected time of hours that follow each other is that of the spans they cover. -/
theorem sum_shared {a z first : ℕ} {spans : List Span} {hours : List Interval}
    (hspans : Tiles a z (spans.map Span.interval)) (ha : first ≤ a) (hhours : Tiles first z hours) :
    (hours.map (shared · spans)).sum = time is_connected spans := by
  unfold shared time
  rw [sum_map_comm]
  refine congrArg List.sum (List.map_congr_left fun span hspan => ?_)
  obtain ⟨hstart, hle, hend⟩ := hspans.within span.interval
    (List.mem_map_of_mem (List.mem_of_mem_filter hspan))
  rw [hhours.sum_overlap hle]
  exact overlap_of_within (le_trans ha hstart) hend

/-! ## The three together -/

/-- The timeline, the cards and the heatmap of a window agree. -/
def Agree (entries : List LogEntry) (range : Range) (status : SessionStatus) (now : UInt64) :
    Prop :=
  let spans := build_spans entries range status
  InOrder (covered_from entries range) range.last (spans.map Span.interval) ∧
    ∃ summary buckets, summarise spans entries now = .ok summary ∧
      hourly_buckets range spans = .ok buckets ∧
      summary.connected_ms + summary.disconnected_ms =
        range.last - covered_from entries range ∧
      InOrder range.first range.last (buckets.map Bucket.interval) ∧
      (buckets.map Bucket.connected_ms).sum = summary.connected_ms

theorem first_le_covered_from (entries : List LogEntry) (range : Range) :
    range.first ≤ covered_from entries range := by
  cases entries with
  | nil => exact le_refl _
  | cons entry rest => exact le_max_right _ _

end WaSSH.Logger
