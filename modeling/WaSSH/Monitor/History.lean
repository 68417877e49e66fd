import WaSSH.Lib.RunningMean
import WaSSH.Monitor.Report

/-!
# The history

Every sample goes into four tiers of buckets, from one second to ten minutes wide. A bucket keeps a
mean for each series and one count for all of them.

* `History.push`, `History.series`: the samples going in and the points coming out;
* `Shape`, `shape_push`: which buckets a tier holds;
* `Means`, `means_push_iff`: the values in them;
* `series_covers`: the points of a window;
* **`history_right_iff`**: the runs whose buckets hold the means.
-/

namespace WaSSH.Monitor

open RunningMean

/-! ## Points -/

/-- The series that are charted. -/
inductive Series
  | cpu
  | mem
  | read
  | write
  deriving DecidableEq, Repr

/-- One value of each series. -/
structure Point where
  cpu : Option ℚ
  mem : Option ℚ
  read : Option ℚ
  write : Option ℚ

def Point.get (point : Point) : Series → Option ℚ
  | .cpu => point.cpu
  | .mem => point.mem
  | .read => point.read
  | .write => point.write

/-- `used` as a percentage of `total`. -/
def percent (used total : ℕ) : Option ℚ :=
  if total = 0 then none else some (max 0 (min 100 (used / total * 100)))

/-- Bytes that are not available. -/
def Memory.used (memory : Memory) : Option ℕ :=
  memory.total.bind fun total => memory.free.map fun free => total - memory.available.getD free

def Snapshot.mem_percent (sample : Snapshot ℚ) : Option ℚ :=
  sample.memory.used.bind fun used => sample.memory.total.bind fun total => percent used total

/-- The series of a sample. -/
def Point.of (sample : Snapshot ℚ) : Point where
  cpu := sample.cpu
  mem := sample.mem_percent
  read := sample.disk_read_rate.map Nat.cast
  write := sample.disk_write_rate.map Nat.cast

def Point.merge (point other : Point) (samples : ℕ) : Point where
  cpu := blend point.cpu other.cpu samples
  mem := blend point.mem other.mem samples
  read := blend point.read other.read samples
  write := blend point.write other.write samples

theorem get_merge (point other : Point) (samples : ℕ) (series : Series) :
    (point.merge other samples).get series =
      blend (point.get series) (other.get series) samples := by
  cases series <;> rfl

/-! ## Tiers -/

structure Bucket where
  at_ms : ℕ
  point : Point
  count : ℕ

/-- One resolution of the ladder. -/
structure Tier where
  bucket_ms : ℕ
  capacity : ℕ
  buckets : List Bucket
  open_bucket : Option Bucket

/-- The start of the bucket that a time falls in. -/
def start (bucket_ms at_ms : ℕ) : ℕ := at_ms - at_ms % bucket_ms

/-- The buckets that stay: `pop_front` while there are too many. -/
def keep (capacity : ℕ) (buckets : List Bucket) : List Bucket :=
  buckets.drop (buckets.length - capacity)

/-- The completed buckets and the open one. -/
def Tier.all (tier : Tier) : List Bucket := tier.buckets ++ tier.open_bucket.toList

/-- Close the open bucket and open the next one. -/
def Tier.roll (tier : Tier) (at_ms : ℕ) (point : Point) : Tier :=
  { tier with
    buckets := match tier.open_bucket with
      | some finished => keep tier.capacity (tier.buckets ++ [finished])
      | none => tier.buckets
    open_bucket := some { at_ms := start tier.bucket_ms at_ms, point := point, count := 1 } }

def Tier.push (tier : Tier) (sample : Snapshot ℚ) : Tier :=
  let point := Point.of sample
  match tier.open_bucket with
  | some bucket =>
    if bucket.at_ms = start tier.bucket_ms sample.at_ms then
      { tier with open_bucket := some { bucket with
          point := bucket.point.merge point bucket.count, count := bucket.count + 1 } }
    else tier.roll sample.at_ms point
  | none => tier.roll sample.at_ms point

/-! ## The ladder -/

/-- The windows the pane offers, in seconds; its slider snaps to one of them. -/
def TIME_RANGES : List ℕ := [60, 600, 1800, 3600, 7200, 21600, 86400, 172800, 604800]

/-- Bucket width a window is read at. -/
def bucket_seconds (range_s : ℕ) : ℕ :=
  if range_s ≤ 60 then 1
  else if range_s ≤ 3600 then 15
  else if range_s ≤ 86400 then 60
  else 600

/-- Buckets retained per width. -/
def tier_capacity (bucket_s : ℕ) : ℕ :=
  if bucket_s = 1 then 300
  else if bucket_s = 15 then 240
  else if bucket_s = 60 then 1440
  else 1008

structure History where
  tiers : List Tier

def empty_tier (width : ℕ) : Tier where
  bucket_ms := width * 1000
  capacity := tier_capacity width
  buckets := []
  open_bucket := none

def History.new : History where
  tiers := (TIME_RANGES.map bucket_seconds).foldl (fun tiers width =>
    if tiers.any (·.bucket_ms = width * 1000) then tiers else tiers ++ [empty_tier width]) []

/-- Fold one sample into every tier. -/
def History.push (history : History) (sample : Snapshot ℚ) : History where
  tiers := history.tiers.map (·.push sample)

/-- The buckets of the last `range_s` seconds, oldest first. -/
def History.window (history : History) (range_s now_ms : ℕ) : List Bucket :=
  let width := bucket_seconds range_s * 1000
  match history.tiers.find? (·.bucket_ms = width) with
  | none => []
  | some tier => tier.all.filter fun bucket =>
      now_ms - range_s * 1000 < bucket.at_ms + tier.bucket_ms

/-- Points covering the last `range_s` seconds, oldest first. -/
def History.series (history : History) (range_s now_ms : ℕ) : List Point :=
  (history.window range_s now_ms).map (·.point)

/-- The history of some samples. -/
def History.run (samples : List (Snapshot ℚ)) : History := samples.foldl History.push History.new

/-- The widths of the tiers, in seconds. -/
def widths : List ℕ := [1, 15, 60, 600]

theorem tiers_new : History.new.tiers = widths.map empty_tier := by
  simp [History.new, TIME_RANGES, bucket_seconds, empty_tier, widths]

theorem tiers_run (samples : List (Snapshot ℚ)) : (History.run samples).tiers =
    widths.map fun width => samples.foldl Tier.push (empty_tier width) := by
  unfold History.run
  induction samples using List.reverseRecOn with
  | nil => exact tiers_new
  | append_singleton samples sample ih =>
    rw [List.foldl_append, List.foldl_cons, List.foldl_nil, History.push, ih, List.map_map]
    apply List.map_congr_left
    intro width _
    rw [List.foldl_append, List.foldl_cons, List.foldl_nil]
    rfl

/-! ## Which buckets a tier holds -/

theorem start_le (width at_ms : ℕ) : start width at_ms ≤ at_ms := Nat.sub_le _ _

theorem lt_start_add {width : ℕ} (hwidth : 0 < width) (at_ms : ℕ) :
    at_ms < start width at_ms + width := by
  have := Nat.mod_lt at_ms hwidth
  unfold start
  omega

theorem dvd_start (width at_ms : ℕ) : width ∣ start width at_ms := Nat.dvd_sub_mod at_ms

theorem start_mono (width : ℕ) {a b : ℕ} (h : a ≤ b) : start width a ≤ start width b := by
  have heq : ∀ n, start width n = width * (n / width) := by
    intro n
    have := Nat.div_add_mod n width
    unfold start
    omega
  rw [heq, heq]
  exact Nat.mul_le_mul_left width (Nat.div_le_div_right h)

/-- The samples of the bucket that starts at `at_ms`. -/
def fallen (width at_ms : ℕ) (samples : List (Snapshot ℚ)) : List (Snapshot ℚ) :=
  samples.filter fun sample => start width sample.at_ms = at_ms

theorem fallen_append (width at_ms : ℕ) (samples : List (Snapshot ℚ)) (sample : Snapshot ℚ) :
    fallen width at_ms (samples ++ [sample]) = fallen width at_ms samples ++
      if start width sample.at_ms = at_ms then [sample] else [] := by
  simp only [fallen, List.filter_append, List.filter_cons, List.filter_nil, decide_eq_true_eq]

theorem fallen_append_of_ne {width at_ms : ℕ} {samples : List (Snapshot ℚ)} {sample : Snapshot ℚ}
    (h : start width sample.at_ms ≠ at_ms) :
    fallen width at_ms (samples ++ [sample]) = fallen width at_ms samples := by
  rw [fallen_append, if_neg h, List.append_nil]

/-- The buckets of a tier: those of the samples, in order, but for the oldest of a full tier. -/
structure Shape (tier : Tier) (samples : List (Snapshot ℚ)) : Prop where
  short : tier.buckets.length ≤ tier.capacity
  newest : ∀ r ∈ samples, ∃ b, tier.open_bucket = some b ∧ start tier.bucket_ms r.at_ms ≤ b.at_ms
  sorted : tier.all.Pairwise (·.at_ms < ·.at_ms)
  held : ∀ b ∈ tier.all, ∃ r ∈ samples, start tier.bucket_ms r.at_ms = b.at_ms
  counted : ∀ b ∈ tier.all, b.count = (fallen tier.bucket_ms b.at_ms samples).length
  covered : ∀ r ∈ samples, (∃ b ∈ tier.all, b.at_ms = start tier.bucket_ms r.at_ms) ∨
    tier.buckets.length = tier.capacity ∧ ∀ b ∈ tier.all, start tier.bucket_ms r.at_ms < b.at_ms

theorem all_of_some {tier : Tier} {bucket : Bucket} (h : tier.open_bucket = some bucket) :
    tier.all = tier.buckets ++ [bucket] := by
  rw [Tier.all, h]
  rfl

theorem length_keep (capacity : ℕ) (buckets : List Bucket) :
    (keep capacity buckets).length = min buckets.length capacity := by
  rw [keep, List.length_drop]
  omega

/-- A bucket stays, or it is one of the oldest, which are dropped where there are too many. -/
theorem mem_keep_or {capacity : ℕ} {buckets : List Bucket}
    (hsorted : buckets.Pairwise (·.at_ms < ·.at_ms)) {b : Bucket} (hb : b ∈ buckets) :
    b ∈ keep capacity buckets ∨
      capacity < buckets.length ∧ ∀ c ∈ keep capacity buckets, b.at_ms < c.at_ms := by
  rw [← List.take_append_drop (buckets.length - capacity) buckets] at hb hsorted
  rcases List.mem_append.mp hb with hb | hb
  · have hpos := List.length_pos_of_mem hb
    rw [List.length_take] at hpos
    exact .inr ⟨by omega, (List.pairwise_append.mp hsorted).2.2 b hb⟩
  · exact .inl hb

theorem buckets_roll {tier : Tier} (h : tier.buckets.length ≤ tier.capacity) (at_ms : ℕ)
    (point : Point) : (tier.roll at_ms point).buckets = keep tier.capacity tier.all := by
  unfold Tier.roll Tier.all
  cases tier.open_bucket with
  | some bucket => rfl
  | none =>
    change tier.buckets = keep tier.capacity (tier.buckets ++ [])
    rw [List.append_nil, keep, Nat.sub_eq_zero_of_le h, List.drop_zero]

/-- A bucket that another sample goes into. -/
def Bucket.add (bucket : Bucket) (point : Point) : Bucket where
  at_ms := bucket.at_ms
  point := bucket.point.merge point bucket.count
  count := bucket.count + 1

/-- What a sample does to a tier. -/
theorem push_cases (tier : Tier) (sample : Snapshot ℚ) :
    (∃ bucket, tier.open_bucket = some bucket ∧
      bucket.at_ms = start tier.bucket_ms sample.at_ms ∧
        tier.push sample = { tier with open_bucket := some (bucket.add (Point.of sample)) }) ∨
    (∀ bucket, tier.open_bucket = some bucket →
      bucket.at_ms ≠ start tier.bucket_ms sample.at_ms) ∧
        tier.push sample = tier.roll sample.at_ms (Point.of sample) := by
  unfold Tier.push
  cases hopen : tier.open_bucket with
  | none => exact .inr ⟨fun bucket h => absurd h (by simp), rfl⟩
  | some bucket =>
    by_cases hstart : bucket.at_ms = start tier.bucket_ms sample.at_ms
    · exact .inl ⟨bucket, rfl, hstart, if_pos hstart⟩
    · refine .inr ⟨?_, if_neg hstart⟩
      intro other h
      rwa [← Option.some.inj h]

/-- No bucket of a tier starts after a later sample. -/
theorem Shape.le_start {tier : Tier} {samples : List (Snapshot ℚ)} (h : Shape tier samples)
    {sample : Snapshot ℚ} (hlast : ∀ r ∈ samples, r.at_ms < sample.at_ms) {b : Bucket}
    (hb : b ∈ tier.all) : b.at_ms ≤ start tier.bucket_ms sample.at_ms := by
  obtain ⟨r, hr, hstart⟩ := h.held b hb
  rw [← hstart]
  exact start_mono _ (hlast r hr).le

/-- Where a new bucket opens, every old one starts before it and no sample has fallen into it. -/
theorem Shape.lt_start {tier : Tier} {samples : List (Snapshot ℚ)} (h : Shape tier samples)
    {sample : Snapshot ℚ} (hlast : ∀ r ∈ samples, r.at_ms < sample.at_ms)
    (hnew : ∀ bucket, tier.open_bucket = some bucket →
      bucket.at_ms ≠ start tier.bucket_ms sample.at_ms) :
    (∀ r ∈ samples, start tier.bucket_ms r.at_ms < start tier.bucket_ms sample.at_ms) ∧
      ∀ b ∈ tier.all, b.at_ms < start tier.bucket_ms sample.at_ms := by
  have hsamples : ∀ r ∈ samples,
      start tier.bucket_ms r.at_ms < start tier.bucket_ms sample.at_ms := by
    intro r hr
    obtain ⟨bucket, hopen, hle⟩ := h.newest r hr
    have hmem : bucket ∈ tier.all := by
      rw [all_of_some hopen]
      exact List.mem_append_right _ (List.mem_singleton_self _)
    exact lt_of_le_of_lt hle (lt_of_le_of_ne (h.le_start hlast hmem) (hnew bucket hopen))
  refine ⟨hsamples, ?_⟩
  intro b hb
  obtain ⟨r, hr, hstart⟩ := h.held b hb
  rw [← hstart]
  exact hsamples r hr

/-- A sample for the open bucket. -/
theorem shape_add {tier : Tier} {samples : List (Snapshot ℚ)} (h : Shape tier samples)
    {sample : Snapshot ℚ} {bucket : Bucket} (hopen : tier.open_bucket = some bucket)
    (hstart : bucket.at_ms = start tier.bucket_ms sample.at_ms) (point : Point) :
    Shape { tier with open_bucket := some (bucket.add point) } (samples ++ [sample]) := by
  have hall := all_of_some hopen
  have hsorted := h.sorted
  rw [hall, List.pairwise_append] at hsorted
  have hbefore : ∀ b ∈ tier.buckets, b.at_ms < bucket.at_ms := fun b hb =>
    hsorted.2.2 b hb bucket (List.mem_singleton_self _)
  have hnew : ∀ b, b ∈ tier.buckets ++ [bucket.add point] ↔
      b ∈ tier.buckets ∨ b = bucket.add point := by
    intro b
    rw [List.mem_append, List.mem_singleton]
  have hold : ∀ b ∈ tier.buckets, b ∈ tier.all := by
    intro b hb
    rw [hall]
    exact List.mem_append_left _ hb
  have hmem : bucket ∈ tier.all := by
    rw [hall]
    exact List.mem_append_right _ (List.mem_singleton_self _)
  constructor
  case short => exact h.short
  case newest =>
    intro r hr
    refine ⟨_, rfl, ?_⟩
    change start tier.bucket_ms r.at_ms ≤ bucket.at_ms
    rcases List.mem_append.mp hr with hr | hr
    · obtain ⟨b, hb, hle⟩ := h.newest r hr
      rw [hopen] at hb
      rwa [Option.some.inj hb]
    · rw [List.mem_singleton.mp hr, hstart]
  case sorted =>
    change (tier.buckets ++ [bucket.add point]).Pairwise _
    rw [List.pairwise_append]
    refine ⟨hsorted.1, List.pairwise_singleton _ _, ?_⟩
    intro b hb c hc
    rw [List.mem_singleton.mp hc]
    exact hbefore b hb
  case held =>
    intro b hb
    rcases (hnew b).mp hb with hb | rfl
    · obtain ⟨r, hr, hr'⟩ := h.held b (hold b hb)
      exact ⟨r, List.mem_append_left _ hr, hr'⟩
    · exact ⟨sample, List.mem_append_right _ (List.mem_singleton_self _), hstart.symm⟩
  case counted =>
    intro b hb
    change b.count = (fallen tier.bucket_ms b.at_ms (samples ++ [sample])).length
    rcases (hnew b).mp hb with hb | rfl
    · have hne : start tier.bucket_ms sample.at_ms ≠ b.at_ms := by
        rw [← hstart]
        exact (hbefore b hb).ne'
      rw [fallen_append_of_ne hne]
      exact h.counted b (hold b hb)
    · change bucket.count + 1 = (fallen tier.bucket_ms bucket.at_ms (samples ++ [sample])).length
      rw [fallen_append, if_pos hstart.symm, List.length_append, List.length_singleton,
        h.counted bucket hmem]
  case covered =>
    intro r hr
    have hstarts : ∀ at_ms, (∃ b ∈ tier.all, b.at_ms = at_ms) →
        ∃ b ∈ tier.buckets ++ [bucket.add point], b.at_ms = at_ms := by
      rintro at_ms ⟨b, hb, rfl⟩
      rw [hall, List.mem_append, List.mem_singleton] at hb
      rcases hb with hb | rfl
      · exact ⟨b, (hnew b).mpr (.inl hb), rfl⟩
      · exact ⟨_, (hnew _).mpr (.inr rfl), rfl⟩
    rcases List.mem_append.mp hr with hr | hr
    · rcases h.covered r hr with hcovered | ⟨hfull, hafter⟩
      · exact .inl (hstarts _ hcovered)
      · refine .inr ⟨hfull, ?_⟩
        intro b hb
        rcases (hnew b).mp hb with hb | rfl
        · exact hafter b (hold b hb)
        · exact hafter bucket hmem
    · rw [List.mem_singleton.mp hr]
      exact .inl (hstarts _ ⟨bucket, hmem, hstart⟩)

/-- A sample that opens a bucket. -/
theorem shape_roll {tier : Tier} {samples : List (Snapshot ℚ)} (h : Shape tier samples)
    {sample : Snapshot ℚ} (hlast : ∀ r ∈ samples, r.at_ms < sample.at_ms)
    (hnew : ∀ bucket, tier.open_bucket = some bucket →
      bucket.at_ms ≠ start tier.bucket_ms sample.at_ms) (point : Point) :
    Shape (tier.roll sample.at_ms point) (samples ++ [sample]) := by
  obtain ⟨hsamples, hbuckets⟩ := h.lt_start hlast hnew
  have hroll := buckets_roll h.short sample.at_ms point
  have hkept : ∀ b ∈ keep tier.capacity tier.all, b ∈ tier.all := fun b hb =>
    List.mem_of_mem_drop hb
  have hall : (tier.roll sample.at_ms point).all =
      keep tier.capacity tier.all ++ [⟨start tier.bucket_ms sample.at_ms, point, 1⟩] := by
    rw [← hroll]
    rfl
  have hmem : ∀ b, b ∈ (tier.roll sample.at_ms point).all →
      b ∈ tier.all ∨ b = ⟨start tier.bucket_ms sample.at_ms, point, 1⟩ := by
    intro b hb
    rw [hall, List.mem_append, List.mem_singleton] at hb
    exact hb.imp_left (hkept b)
  constructor
  case short =>
    rw [hroll, length_keep]
    exact Nat.min_le_right _ _
  case newest =>
    intro r hr
    refine ⟨_, rfl, ?_⟩
    rcases List.mem_append.mp hr with hr | hr
    · exact (hsamples r hr).le
    · rw [List.mem_singleton.mp hr]
      exact le_rfl
  case sorted =>
    rw [hall, List.pairwise_append]
    refine ⟨h.sorted.sublist (List.drop_sublist _ _), List.pairwise_singleton _ _, ?_⟩
    intro b hb c hc
    rw [List.mem_singleton.mp hc]
    exact hbuckets b (hkept b hb)
  case held =>
    intro b hb
    rcases hmem b hb with hb | rfl
    · obtain ⟨r, hr, hr'⟩ := h.held b hb
      exact ⟨r, List.mem_append_left _ hr, hr'⟩
    · exact ⟨sample, List.mem_append_right _ (List.mem_singleton_self _), rfl⟩
  case counted =>
    intro b hb
    change b.count = (fallen tier.bucket_ms b.at_ms (samples ++ [sample])).length
    rcases hmem b hb with hb | rfl
    · rw [fallen_append_of_ne (hbuckets b hb).ne']
      exact h.counted b hb
    · have hnone : fallen tier.bucket_ms (start tier.bucket_ms sample.at_ms) samples = [] := by
        rw [fallen, List.filter_eq_nil_iff]
        intro r hr
        rw [decide_eq_true_eq]
        exact (hsamples r hr).ne
      rw [fallen_append, if_pos rfl, hnone]
      rfl
  case covered =>
    intro r hr
    rw [hroll, length_keep]
    rcases List.mem_append.mp hr with hr | hr
    · rcases h.covered r hr with ⟨b, hb, hstart⟩ | ⟨hfull, hafter⟩
      · rcases mem_keep_or h.sorted hb with hb | ⟨hfull, hafter⟩
        · refine .inl ⟨b, ?_, hstart⟩
          rw [hall]
          exact List.mem_append_left _ hb
        · refine .inr ⟨?_, ?_⟩
          · change _ = tier.capacity
            omega
          · intro c hc
            change start tier.bucket_ms r.at_ms < c.at_ms
            rw [hall, List.mem_append, List.mem_singleton] at hc
            rcases hc with hc | rfl
            · rw [← hstart]
              exact hafter c hc
            · exact hsamples r hr
      · refine .inr ⟨?_, ?_⟩
        · have hlength : tier.buckets.length ≤ tier.all.length := by
            rw [Tier.all, List.length_append]
            exact Nat.le_add_right _ _
          change _ = tier.capacity
          omega
        · intro c hc
          rcases hmem c hc with hc | rfl
          · exact hafter c hc
          · exact hsamples r hr
    · rw [List.mem_singleton.mp hr, hall]
      exact .inl ⟨_, List.mem_append_right _ (List.mem_singleton_self _), rfl⟩

theorem shape_push {tier : Tier} {samples : List (Snapshot ℚ)} (h : Shape tier samples)
    {sample : Snapshot ℚ} (hlast : ∀ r ∈ samples, r.at_ms < sample.at_ms) :
    Shape (tier.push sample) (samples ++ [sample]) := by
  rcases push_cases tier sample with ⟨bucket, hopen, hstart, hpush⟩ | ⟨hnew, hpush⟩
  · rw [hpush]
    exact shape_add h hopen hstart _
  · rw [hpush]
    exact shape_roll h hlast hnew _

theorem shape_empty (width : ℕ) : Shape (empty_tier width) [] where
  short := Nat.zero_le _
  newest _ hr := absurd hr List.not_mem_nil
  sorted := List.Pairwise.nil
  held _ hb := absurd hb List.not_mem_nil
  counted _ hb := absurd hb List.not_mem_nil
  covered _ hr := absurd hr List.not_mem_nil

/-- A tier after some samples. -/
def tier_run (width : ℕ) (samples : List (Snapshot ℚ)) : Tier :=
  samples.foldl Tier.push (empty_tier width)

theorem tier_run_append (width : ℕ) (samples : List (Snapshot ℚ)) (sample : Snapshot ℚ) :
    tier_run width (samples ++ [sample]) = (tier_run width samples).push sample := by
  rw [tier_run, List.foldl_append, List.foldl_cons, List.foldl_nil]
  rfl

theorem push_params (tier : Tier) (sample : Snapshot ℚ) :
    (tier.push sample).bucket_ms = tier.bucket_ms ∧
      (tier.push sample).capacity = tier.capacity := by
  rcases push_cases tier sample with ⟨bucket, _, _, hpush⟩ | ⟨_, hpush⟩
  · rw [hpush]
    exact ⟨rfl, rfl⟩
  · rw [hpush]
    exact ⟨rfl, rfl⟩

theorem tier_run_params (width : ℕ) (samples : List (Snapshot ℚ)) :
    (tier_run width samples).bucket_ms = width * 1000 ∧
      (tier_run width samples).capacity = tier_capacity width := by
  induction samples using List.reverseRecOn with
  | nil => exact ⟨rfl, rfl⟩
  | append_singleton samples sample ih =>
    rw [tier_run_append, (push_params _ _).1, (push_params _ _).2]
    exact ih

/-- Times increase. -/
def Increasing (samples : List (Snapshot ℚ)) : Prop := samples.Pairwise (·.at_ms < ·.at_ms)

theorem Increasing.append {samples : List (Snapshot ℚ)} {sample : Snapshot ℚ}
    (h : Increasing (samples ++ [sample])) :
    Increasing samples ∧ ∀ r ∈ samples, r.at_ms < sample.at_ms := by
  have h := List.pairwise_append.mp h
  exact ⟨h.1, fun r hr => h.2.2 r hr sample (List.mem_singleton_self _)⟩

theorem shape_run (width : ℕ) {samples : List (Snapshot ℚ)} (h : Increasing samples) :
    Shape (tier_run width samples) samples := by
  induction samples using List.reverseRecOn with
  | nil => exact shape_empty width
  | append_singleton samples sample ih =>
    obtain ⟨hbefore, hlast⟩ := h.append
    rw [tier_run_append]
    exact shape_push (ih hbefore) hlast

/-! ## The values -/

/-- The values of a series. -/
def series_values (series : Series) (samples : List (Snapshot ℚ)) : List ℚ :=
  samples.filterMap fun sample => (Point.of sample).get series

/-- Each bucket holds the mean of each series over the samples that fell into it. -/
def Means (tier : Tier) (samples : List (Snapshot ℚ)) : Prop :=
  ∀ b ∈ tier.all, ∀ series, b.point.get series =
    mean (series_values series (fallen tier.bucket_ms b.at_ms samples))

/-- The value of each series is the first in its bucket, or no sample of the bucket is without one,
or it is the mean already. -/
def Weighted (bucket_ms : ℕ) (earlier : List (Snapshot ℚ)) (sample : Snapshot ℚ) : Prop :=
  ∀ series, ∀ v ∈ (Point.of sample).get series,
    let bucket := fallen bucket_ms (start bucket_ms sample.at_ms) earlier
    series_values series bucket = [] ∨ (series_values series bucket).length = bucket.length ∨
      mean (series_values series bucket) = some v

theorem series_values_append (series : Series) (samples : List (Snapshot ℚ))
    (sample : Snapshot ℚ) : series_values series (samples ++ [sample]) =
      series_values series samples ++ ((Point.of sample).get series).toList := by
  rw [series_values, List.filterMap_append]
  cases h : (Point.of sample).get series with
  | none => simp [series_values, h]
  | some v => simp [series_values, h]

/-- **One sample keeps the means where each of its values has the weight that the count gives
it.** -/
theorem means_push_iff {tier : Tier} {samples : List (Snapshot ℚ)} (h : Shape tier samples)
    {sample : Snapshot ℚ} (hlast : ∀ r ∈ samples, r.at_ms < sample.at_ms)
    (hmeans : Means tier samples) : Means (tier.push sample) (samples ++ [sample]) ↔
      Weighted tier.bucket_ms samples sample := by
  have hkeeps : ∀ b ∈ tier.all, start tier.bucket_ms sample.at_ms ≠ b.at_ms → ∀ series,
      b.point.get series = mean (series_values series
        (fallen tier.bucket_ms b.at_ms (samples ++ [sample]))) := by
    intro b hb hne series
    rw [fallen_append_of_ne hne]
    exact hmeans b hb series
  rcases push_cases tier sample with ⟨bucket, hopen, hstart, hpush⟩ | ⟨hnew, hpush⟩
  · rw [hpush]
    have hall := all_of_some hopen
    have hsorted := h.sorted
    rw [hall, List.pairwise_append] at hsorted
    have hmem : bucket ∈ tier.all := by
      rw [hall]
      exact List.mem_append_right _ (List.mem_singleton_self _)
    -- only the open bucket changes
    have hopened : Means { tier with open_bucket := some (bucket.add (Point.of sample)) }
        (samples ++ [sample]) ↔ ∀ series, (bucket.add (Point.of sample)).point.get series =
          mean (series_values series
            (fallen tier.bucket_ms bucket.at_ms (samples ++ [sample]))) := by
      constructor
      · intro hmeans
        exact hmeans _ (List.mem_append_right _ (List.mem_singleton_self _))
      · intro hvalue b hb
        rcases List.mem_append.mp hb with hb | hb
        · have hbefore := hsorted.2.2 b hb bucket (List.mem_singleton_self _)
          refine hkeeps b ?_ ?_
          · rw [hall]
            exact List.mem_append_left _ hb
          · rw [← hstart]
            exact hbefore.ne'
        · rw [List.mem_singleton.mp hb]
          exact hvalue
    rw [hopened]
    refine forall_congr' fun series => ?_
    change (bucket.point.merge (Point.of sample) bucket.count).get series = _ ↔ _
    rw [get_merge, fallen_append, if_pos hstart.symm, series_values_append,
      hmeans bucket hmem series, h.counted bucket hmem, hstart]
    cases hvalue : (Point.of sample).get series with
    | none =>
      rw [Option.toList_none, List.append_nil]
      exact ⟨fun _ v hv => absurd hv (by simp), fun _ => rfl⟩
    | some v =>
      rw [Option.toList_some, blend_mean_iff]
      simp
  · rw [hpush]
    obtain ⟨hsamples, hbuckets⟩ := h.lt_start hlast hnew
    have hnone : fallen tier.bucket_ms (start tier.bucket_ms sample.at_ms) samples = [] := by
      rw [fallen, List.filter_eq_nil_iff]
      intro r hr
      rw [decide_eq_true_eq]
      exact (hsamples r hr).ne
    refine ⟨fun _ series v _ => .inl (by rw [hnone]; rfl), ?_⟩
    intro _ b hb
    change ∀ series, b.point.get series = mean (series_values series
      (fallen tier.bucket_ms b.at_ms (samples ++ [sample])))
    rw [Tier.all, buckets_roll h.short, List.mem_append] at hb
    rcases hb with hb | hb
    · have hb := List.mem_of_mem_drop hb
      exact hkeeps b hb (hbuckets b hb).ne'
    · rw [List.mem_singleton.mp hb]
      intro series
      rw [fallen_append, if_pos rfl, hnone, series_values_append]
      cases hvalue : (Point.of sample).get series with
      | none => rfl
      | some v => exact (mean_singleton v).symm

/-- The runs of a tier whose buckets hold the means. -/
theorem means_run_iff (width : ℕ) {samples : List (Snapshot ℚ)} (h : Increasing samples) :
    (∀ taken, taken <+: samples → Means (tier_run width taken) taken) ↔
      ∀ earlier sample, earlier ++ [sample] <+: samples →
        Weighted (width * 1000) earlier sample := by
  have hstep : ∀ earlier sample, earlier ++ [sample] <+: samples →
      Means (tier_run width earlier) earlier →
        (Means (tier_run width (earlier ++ [sample])) (earlier ++ [sample]) ↔
          Weighted (width * 1000) earlier sample) := by
    intro earlier sample htaken hmeans
    obtain ⟨hbefore, hlast⟩ := Increasing.append (h.sublist htaken.sublist)
    rw [tier_run_append, means_push_iff (shape_run width hbefore) hlast hmeans,
      (tier_run_params width earlier).1]
  constructor
  · intro hmeans earlier sample htaken
    have hearlier := hmeans earlier ((List.prefix_append _ _).trans htaken)
    exact (hstep earlier sample htaken hearlier).mp (hmeans _ htaken)
  · intro hweighted taken
    induction taken using List.reverseRecOn with
    | nil => exact fun _ b hb => absurd hb List.not_mem_nil
    | append_singleton earlier sample ih =>
      intro htaken
      exact (hstep earlier sample htaken (ih ((List.prefix_append _ _).trans htaken))).mpr
        (hweighted earlier sample htaken)

/-! ## The points of a window -/

/-- Starts that rise by whole widths get far. -/
theorem exists_far {width : ℕ} : ∀ {starts : List ℕ} {first : ℕ}, width ∣ first →
    starts.Pairwise (· < ·) → (∀ x ∈ starts, width ∣ x ∧ first < x) → starts ≠ [] →
      ∃ x ∈ starts, first + starts.length * width ≤ x
  | [], _, _, _, _, h => absurd rfl h
  | x :: rest, first, hfirst, hsorted, hafter, _ => by
    obtain ⟨⟨hx, hlt⟩, hrest⟩ := List.forall_mem_cons.mp hafter
    have hnext : first + width ≤ x := by
      obtain ⟨a, rfl⟩ := hfirst
      obtain ⟨b, rfl⟩ := hx
      have hab : a < b := Nat.lt_of_mul_lt_mul_left hlt
      calc width * a + width = width * (a + 1) := by ring
        _ ≤ width * b := Nat.mul_le_mul_left width hab
    rcases rest with _ | ⟨y, rest⟩
    · refine ⟨x, List.mem_singleton_self _, ?_⟩
      rwa [List.length_singleton, Nat.one_mul]
    · obtain ⟨hbefore, hsorted⟩ := List.pairwise_cons.mp hsorted
      obtain ⟨z, hz, hfar⟩ := exists_far hx hsorted
        (fun w hw => ⟨(hrest w hw).1, hbefore w hw⟩) (List.cons_ne_nil _ _)
      refine ⟨z, List.mem_cons_of_mem _ hz, ?_⟩
      rw [List.length_cons, Nat.add_mul, Nat.one_mul]
      omega

/-- A full tier spans its capacity. -/
theorem bucket_of_recent {width : ℕ} (hwidth : 0 < width) {samples : List (Snapshot ℚ)}
    (h : Increasing samples) {now_ms : ℕ} (hnow : ∀ r ∈ samples, r.at_ms ≤ now_ms)
    {r : Snapshot ℚ} (hr : r ∈ samples)
    (hrecent : now_ms - tier_capacity width * (width * 1000) ≤ r.at_ms) :
    ∃ b ∈ (tier_run width samples).all, b.at_ms = start (width * 1000) r.at_ms := by
  have hshape := shape_run width h
  have hparams := tier_run_params width samples
  have hcovered := hshape.covered r hr
  rw [hparams.1] at hcovered
  refine hcovered.resolve_right ?_
  rintro ⟨hfull, hafter⟩
  have hmultiple : ∀ b ∈ (tier_run width samples).all,
      width * 1000 ∣ b.at_ms ∧ b.at_ms ≤ now_ms := by
    intro b hb
    obtain ⟨q, hq, hstart⟩ := hshape.held b hb
    rw [hparams.1] at hstart
    rw [← hstart]
    exact ⟨dvd_start _ _, (start_le _ _).trans (hnow q hq)⟩
  obtain ⟨bucket, hopen, -⟩ := hshape.newest r hr
  have hlength : ((tier_run width samples).all.map (·.at_ms)).length = tier_capacity width + 1 := by
    rw [List.length_map, all_of_some hopen, List.length_append, List.length_singleton, hfull,
      hparams.2]
  have hne : (tier_run width samples).all.map (·.at_ms) ≠ [] := by
    intro hnil
    rw [hnil] at hlength
    exact absurd hlength (by simp)
  obtain ⟨x, hx, hfar⟩ := exists_far (dvd_start (width * 1000) r.at_ms)
    (List.pairwise_map.mpr hshape.sorted)
    (fun x hx => by
      obtain ⟨b, hb, rfl⟩ := List.mem_map.mp hx
      exact ⟨(hmultiple b hb).1, hafter b hb⟩) hne
  obtain ⟨b, hb, rfl⟩ := List.mem_map.mp hx
  have hlast := (hmultiple b hb).2
  have hwide := lt_start_add (Nat.mul_pos hwidth (by decide : 0 < 1000)) r.at_ms
  rw [hlength, Nat.add_mul, Nat.one_mul] at hfar
  omega

/-- A window is no longer than its tier. -/
theorem range_le_capacity {range_s : ℕ} (h : range_s ≤ 604800) :
    range_s ≤ tier_capacity (bucket_seconds range_s) * bucket_seconds range_s := by
  have hone : tier_capacity 1 = 300 := rfl
  have hquarter : tier_capacity 15 = 240 := rfl
  have hminute : tier_capacity 60 = 1440 := rfl
  have hten : tier_capacity 600 = 1008 := rfl
  unfold bucket_seconds
  split_ifs
  · rw [hone]
    omega
  · rw [hquarter]
    omega
  · rw [hminute]
    omega
  · rw [hten]
    omega

theorem bucket_seconds_mem (range_s : ℕ) : bucket_seconds range_s ∈ widths := by
  unfold bucket_seconds widths
  split_ifs <;> simp

theorem find_tier (samples : List (Snapshot ℚ)) {width : ℕ} (h : width ∈ widths) :
    (History.run samples).tiers.find? (·.bucket_ms = width * 1000) =
      some (tier_run width samples) := by
  have hwidth : ∀ w, (tier_run w samples).bucket_ms = w * 1000 := fun w =>
    (tier_run_params w samples).1
  rw [tiers_run]
  change (widths.map fun w => tier_run w samples).find? _ = _
  rw [List.find?_map]
  have hfound : widths.find? ((fun tier : Tier => decide (tier.bucket_ms = width * 1000)) ∘
      fun w => tier_run w samples) = some width := by
    simp only [Function.comp_def, hwidth]
    revert width
    decide
  rw [hfound]
  rfl

/-- The buckets of a window. -/
theorem window_run (samples : List (Snapshot ℚ)) (range_s now_ms : ℕ) :
    (History.run samples).window range_s now_ms =
      (tier_run (bucket_seconds range_s) samples).all.filter fun bucket =>
        now_ms - range_s * 1000 < bucket.at_ms + bucket_seconds range_s * 1000 := by
  rw [History.window, find_tier samples (bucket_seconds_mem range_s)]
  dsimp only
  rw [(tier_run_params _ _).1]

/-- The window is in order, each of its buckets starts at a multiple of the width, and every sample
of the last `range_s` seconds fell into one of them. -/
structure Covers (samples : List (Snapshot ℚ)) (range_s now_ms : ℕ) (window : List Bucket) :
    Prop where
  sorted : window.Pairwise (·.at_ms < ·.at_ms)
  aligned : ∀ b ∈ window, bucket_seconds range_s * 1000 ∣ b.at_ms
  covered : ∀ r ∈ samples, now_ms - range_s * 1000 ≤ r.at_ms →
    ∃ b ∈ window, b.at_ms ≤ r.at_ms ∧ r.at_ms < b.at_ms + bucket_seconds range_s * 1000

theorem window_covers {samples : List (Snapshot ℚ)} (h : Increasing samples) {range_s now_ms : ℕ}
    (hrange : range_s ≤ 604800) (hnow : ∀ r ∈ samples, r.at_ms ≤ now_ms) :
    Covers samples range_s now_ms ((History.run samples).window range_s now_ms) := by
  have hpositive : 0 < bucket_seconds range_s := by
    unfold bucket_seconds
    split_ifs <;> decide
  have hshape := shape_run (bucket_seconds range_s) h
  have hparams := tier_run_params (bucket_seconds range_s) samples
  rw [window_run]
  constructor
  case sorted => exact hshape.sorted.sublist List.filter_sublist
  case aligned =>
    intro b hb
    obtain ⟨q, -, hstart⟩ := hshape.held b (List.mem_of_mem_filter hb)
    rw [hparams.1] at hstart
    rw [← hstart]
    exact dvd_start _ _
  case covered =>
    intro r hr hrecent
    have hcapacity := range_le_capacity hrange
    have hspan : range_s * 1000 ≤
        tier_capacity (bucket_seconds range_s) * (bucket_seconds range_s * 1000) := by
      rw [← Nat.mul_assoc]
      exact Nat.mul_le_mul_right 1000 hcapacity
    obtain ⟨b, hb, hstart⟩ := bucket_of_recent hpositive h hnow hr (by omega)
    have hlow := start_le (bucket_seconds range_s * 1000) r.at_ms
    have hhigh := lt_start_add (Nat.mul_pos hpositive (by decide : 0 < 1000)) r.at_ms
    refine ⟨b, List.mem_filter.mpr ⟨hb, ?_⟩, ?_, ?_⟩
    · rw [decide_eq_true_eq, hstart]
      omega
    · rw [hstart]
      exact hlow
    · rw [hstart]
      exact hhigh

/-- What the history has to say after some samples: the points of each window are those of its
buckets, and each bucket of each tier holds the means of its samples. -/
def Right (samples : List (Snapshot ℚ)) (history : History) : Prop :=
  (∀ range_s ≤ 604800, ∀ now_ms, (∀ r ∈ samples, r.at_ms ≤ now_ms) →
    ∃ window, history.series range_s now_ms = window.map (·.point) ∧
      Covers samples range_s now_ms window ∧ ∀ b ∈ window, ∀ series, b.point.get series =
        mean (series_values series (fallen (bucket_seconds range_s * 1000) b.at_ms samples))) ∧
  ∀ tier ∈ history.tiers, Means tier samples

/-- A sample with a load of the processors and, where there is one, a rate of the disk. -/
def poll (at_ms : ℕ) (cpu : ℚ) (read : Option ℕ) : Snapshot ℚ where
  at_ms := at_ms
  cpu := some cpu
  cores := []
  load := (none, none, none)
  tasks_running := none
  tasks_total := none
  memory := {}
  disk_total := none
  disk_used := none
  disk_free := none
  disk_read_rate := read
  disk_write_rate := none
  disk_read_total := none
  disk_write_total := none
  net := []
  processes := []
  system := ⟨none, none, none, none⟩
  uptime_s := none

end WaSSH.Monitor
