import WaSSH.Lib.Checked
import WaSSH.Lib.Separated

/-!
# The monitor's report

One shell command prints ten sections, and `parse_report` takes them apart and works out the rates
since the previous sample.

* `sections`, `run`: the report and its parts;
* `parse_cpu`, `parse_memory`, `parse_diskstats`, ...: the readers of the parts;
* `finish`, `parse_report`: a snapshot, and the counters for the next one;
* **`sections_run_iff`**: the outputs that come back as the sections;
* **`report_returns_iff`**: the texts whose numbers stay in range.
-/

namespace WaSSH.Monitor

open Text Checked

/-! ## Numbers -/

/-- What the model takes from floating point numbers of type `F`. -/
structure Floats (F : Type) where
  /-- `str::parse::<f32>`. -/
  parse : List Char → Option F
  /-- `0.0`. -/
  zero : F
  /-- `str::parse::<f64>`, as whole seconds. -/
  seconds : List Char → Option ℕ
  /-- `(part / whole * 100).clamp(0, 100)`. -/
  percentage : (part whole : ℕ) → 0 < whole → F
  /-- `(delta / (ms / 1000)) as u64`. -/
  per_second : (delta ms : ℕ) → 0 < ms → ℕ

/-- `str::parse::<u64>`. -/
def parse_u64 (t : List Char) : Option ℕ := parse_usize t

/-- `str::parse::<u32>`. -/
def parse_u32 (t : List Char) : Option ℕ := (parse_usize t).filter (· < 2 ^ 32)

/-- `str::parse::<i64>`. -/
def parse_i64 (t : List Char) : Option ℤ :=
  let (negative, digits) := split_sign t
  if digits ≠ [] ∧ digits.all Char.isDigit then
    let size : ℤ := Nat.ofDigitChars 10 digits 0
    let value := if negative then -size else size
    if -2 ^ 63 ≤ value ∧ value < 2 ^ 63 then some value else none
  else none

/-! ## Load and processors -/

/-- `/proc/loadavg`: the load averages and the task counts in the fourth field. -/
def parse_loadavg {F : Type} (floats : Floats F) (text : List Char) :
    (Option F × Option F × Option F) × Option ℕ × Option ℕ :=
  match (lines text).find? (fun line => trim line ≠ []) with
  | none => ((none, none, none), none, none)
  | some line =>
    let fields := split_whitespace line
    let load (i : ℕ) := fields[i]?.bind floats.parse
    let tasks := fields[3]?.bind fun field => (split_once '/' field).bind fun (running, total) =>
      (parse_u32 running).bind fun running => (parse_u32 total).map fun total => (running, total)
    ((load 0, load 1, load 2), tasks.map Prod.fst, tasks.map Prod.snd)

/-- The counters of a processor, in jiffies. -/
structure CpuTimes where
  total : ℕ
  idle : ℕ
  deriving DecidableEq, Repr

/-- The numbers of a line of `/proc/stat`. -/
def values (line : List Char) : List ℕ := ((split_whitespace line).drop 1).filterMap parse_u64

def cpu_line (line : List Char) : Except Fault (Option CpuTimes) :=
  match values line with
  | user :: nice :: system :: idle :: iowait :: rest => do
    let idle_total ← add 64 idle iowait
    let total ← sum 64 ((user :: nice :: system :: idle :: iowait :: rest).take 8)
    return some { total := total, idle := idle_total }
  | _ => return none

/-- The line of all processors together: the first that begins with `cpu`. -/
def aggregate_line (text : List Char) : Option (List Char) :=
  (lines text).find? fun line => starts_with line "cpu".toList

/-- The lines `cpuN`. -/
def core_lines (text : List Char) : List (List Char) :=
  (lines text).filter fun l => starts_with l "cpu".toList && l[3]?.any Char.isDigit

def parse_cpu (text : List Char) : Except Fault (Option CpuTimes) :=
  match aggregate_line text with
  | none => return none
  | some line => cpu_line line

def parse_cores (text : List Char) : Except Fault (List CpuTimes) := do
  let found ← (core_lines text).mapM cpu_line
  return found.reduceOption

/-! ## Memory, file system and uptime -/

/-- Memory in bytes. -/
structure Memory where
  total : Option ℕ := none
  free : Option ℕ := none
  available : Option ℕ := none
  buffers : Option ℕ := none
  cached : Option ℕ := none
  swap_total : Option ℕ := none
  swap_free : Option ℕ := none
  deriving DecidableEq, Repr

/-- Buffers and page cache. -/
def Memory.cached_total (memory : Memory) : Except Fault (Option ℕ) := do
  let sum ← add 64 (memory.buffers.getD 0) (memory.cached.getD 0)
  return some sum

def Memory.set (memory : Memory) (name : List Char) (bytes : ℕ) : Memory :=
  if name = "MemTotal:".toList then { memory with total := some bytes }
  else if name = "MemFree:".toList then { memory with free := some bytes }
  else if name = "MemAvailable:".toList then { memory with available := some bytes }
  else if name = "Buffers:".toList then { memory with buffers := some bytes }
  else if name = "Cached:".toList then { memory with cached := some bytes }
  else if name = "SwapTotal:".toList then { memory with swap_total := some bytes }
  else if name = "SwapFree:".toList then { memory with swap_free := some bytes }
  else memory

/-- The name and the number of a line of `/proc/meminfo`. -/
def memory_entry (line : List Char) : Option (List Char × ℕ) :=
  match split_whitespace line with
  | name :: value :: _ => (parse_u64 value).map (name, ·)
  | _ => none

def parse_memory (text : List Char) : Memory :=
  ((lines text).filterMap memory_entry).foldl
    (fun memory (name, value) => memory.set name (saturating_mul 64 value 1024)) {}

def DF_BLOCK_BYTES : ℕ := 1024

/-- The first row of `df -kP` with numbers: total, used and free bytes. -/
def parse_disk (text : List Char) : Option ℕ × Option ℕ × Option ℕ :=
  let row (line : List Char) : Option (Option ℕ × Option ℕ × Option ℕ) :=
    match split_whitespace line with
    | _ :: total :: used :: free :: _ =>
      let total := parse_u64 total
      let used := parse_u64 used
      let bytes := Option.map (saturating_mul 64 · DF_BLOCK_BYTES)
      if total.isSome || used.isSome then some (bytes total, bytes used, bytes (parse_u64 free))
      else none
    | _ => none
  (((lines text).drop 1).findSome? row).getD (none, none, none)

/-- `/proc/uptime`, in whole seconds. -/
def parse_uptime {F : Type} (floats : Floats F) (text : List Char) : Option ℕ :=
  (split_whitespace text).head?.bind floats.seconds

/-! ## Network -/

/-- `/proc/net/dev` without the loopback: name, bytes received and bytes sent. -/
def parse_net (text : List Char) : List (List Char × ℕ × ℕ) :=
  let row (line : List Char) : Option (List Char × ℕ × ℕ) :=
    (split_once ':' line).bind fun (name, counters) =>
      let name := trim name
      if name = [] ∨ name = "lo".toList then none
      else match split_whitespace counters with
        | rx :: _ :: _ :: _ :: _ :: _ :: _ :: _ :: tx :: _ =>
          some (name, (parse_u64 rx).getD 0, (parse_u64 tx).getD 0)
        | _ => none
  ((lines text).drop 2).filterMap row

/-- The link speeds in Mbit/s; zero, negative numbers and `4294967295` mean unknown. -/
def parse_speeds (text : List Char) : List (List Char × Option ℕ) :=
  (lines text).filterMap fun line =>
    match split_whitespace line with
    | [] => none
    | name :: rest =>
      let mbps := (rest.head?.bind parse_i64).filter fun value => 0 < value ∧ value ≠ 2 ^ 32 - 1
      some (name, mbps.map Int.toNat)

/-! ## Disks -/

/-- Devices that are left out: loop, memory and optical ones, and device mapper. -/
def skipped (name : List Char) : Bool :=
  starts_with name "loop".toList || starts_with name "ram".toList ||
    starts_with name "sr".toList || starts_with name "dm-".toList ||
    starts_with name "zram".toList

/-- What the code takes for the name of a partition. -/
def is_partition (name : List Char) : Bool :=
  match strip_prefix "nvme".toList name with
  | some rest => rest.contains 'p'
  | none => name.getLast?.any Char.isDigit

/-- The device's bytes are added. -/
def counted (name : List Char) : Bool :=
  !skipped name && !(is_partition name && !starts_with name "nvme".toList)

/-- The bytes read and written that a line of `/proc/diskstats` adds. -/
def disk_bytes (line : List Char) : Option (ℕ × ℕ) :=
  match split_whitespace line with
  | _ :: _ :: name :: _ :: _ :: sectors_read :: _ :: _ :: _ :: sectors_written :: _ =>
    if counted name then
      some (saturating_mul 64 ((parse_u64 sectors_read).getD 0) 512,
        saturating_mul 64 ((parse_u64 sectors_written).getD 0) 512)
    else none
  | _ => none

/-- `read += ..; written += ..`. -/
def add_bytes (totals bytes : ℕ × ℕ) : Except Fault (ℕ × ℕ) := do
  let read ← add 64 totals.1 bytes.1
  let written ← add 64 totals.2 bytes.2
  return (read, written)

def parse_diskstats (text : List Char) : Except Fault (ℕ × ℕ) :=
  ((lines text).filterMap disk_bytes).foldlM add_bytes (0, 0)

/-! ## Processes and system -/

/-- A row of `ps`. -/
structure Process (F : Type) where
  pid : ℕ
  user : List Char
  state : List Char
  nice : ℤ
  threads : ℕ
  cpu : F
  mem : F
  command : List Char

def COMMAND_CHARS : ℕ := 200

def clip_command (text : List Char) : List Char := text.take COMMAND_CHARS

/-- The text from the first place where `needle` stands, and all of it where it does not. -/
def find_from (needle : List Char) (t : List Char) : List Char :=
  (t.tails.find? (needle.isPrefixOf ·)).getD t

def process_row {F : Type} (floats : Floats F) (line : List Char) : Option (Process F) :=
  match split_whitespace line with
  | pid :: user :: state :: nice :: threads :: cpu :: mem :: command :: _ =>
    (parse_u32 pid).map fun pid =>
      { pid := pid
        user := user
        state := state.take 1
        nice := (parse_i32 nice).getD 0
        threads := (parse_u32 threads).getD 0
        cpu := (floats.parse cpu).getD floats.zero
        mem := (floats.parse mem).getD floats.zero
        command := clip_command (trim (find_from command line)) }
  | _ => none

def parse_processes {F : Type} (floats : Floats F) (text : List Char) : List (Process F) :=
  (lines text).filterMap (process_row floats)

structure SystemInfo where
  os : Option (List Char)
  kernel : Option (List Char)
  arch : Option (List Char)
  ip : Option (List Char)

def parse_system (text : List Char) : SystemInfo :=
  let found := ((lines text).map trim).filter (· ≠ [])
  { os := found[0]?
    kernel := found[1]?
    arch := found[2]?
    ip := found[3]?.bind fun line => (split_whitespace line).head? }

/-! ## The rates -/

structure NetIface where
  name : List Char
  rx_total : ℕ
  tx_total : ℕ
  rx_rate : Option ℕ
  tx_rate : Option ℕ
  speed : Option ℕ

/-- The counters that the next sample is compared with. -/
structure Counters where
  at_ms : ℕ
  cpu : CpuTimes
  cores : List CpuTimes
  net : List (List Char × ℕ × ℕ)
  disk_read : ℕ
  disk_write : ℕ

/-- What one probe reported. -/
structure Sample (F : Type) where
  cpu : Option CpuTimes
  cores : List CpuTimes
  load : Option F × Option F × Option F
  tasks_running : Option ℕ
  tasks_total : Option ℕ
  memory : Memory
  disk : Option ℕ × Option ℕ × Option ℕ
  net : List (List Char × ℕ × ℕ)
  speeds : List (List Char × Option ℕ)
  disk_io : ℕ × ℕ
  processes : List (Process F)
  system : SystemInfo
  uptime_s : Option ℕ

/-- One poll of the host. -/
structure Snapshot (F : Type) where
  at_ms : ℕ
  cpu : Option F
  cores : List F
  load : Option F × Option F × Option F
  tasks_running : Option ℕ
  tasks_total : Option ℕ
  memory : Memory
  disk_total : Option ℕ
  disk_used : Option ℕ
  disk_free : Option ℕ
  disk_read_rate : Option ℕ
  disk_write_rate : Option ℕ
  disk_read_total : Option ℕ
  disk_write_total : Option ℕ
  net : List NetIface
  processes : List (Process F)
  system : SystemInfo
  uptime_s : Option ℕ

variable {F : Type} (floats : Floats F)

/-- The busy jiffies and all jiffies between two samples, where any passed. -/
def busy_of (previous current : CpuTimes) : Option (ℕ × {total : ℕ // 0 < total}) :=
  if previous.total ≤ current.total ∧ previous.idle ≤ current.idle then
    let total := current.total - previous.total
    let idle := current.idle - previous.idle
    if h : 0 < total then some (total - min idle total, ⟨total, h⟩) else none
  else none

/-- Busy percentage between two samples. -/
def cpu_percent (previous current : CpuTimes) : Option F :=
  (busy_of previous current).map fun (busy, total) => floats.percentage busy total.1 total.2

def core_percents (previous current : List CpuTimes) : List F :=
  ((previous.zip current).map fun (previous, current) =>
    cpu_percent floats previous current).reduceOption

/-- The interval between two samples, in milliseconds, where it is not empty. -/
def elapsed (previous : Option Counters) (at_ms : ℕ) : Option {ms : ℕ // 0 < ms} :=
  previous.bind fun previous =>
    if h : 0 < at_ms - previous.at_ms then some ⟨at_ms - previous.at_ms, h⟩ else none

def rate (previous current : ℕ) (elapsed : Option {ms : ℕ // 0 < ms}) : Option ℕ :=
  elapsed.map fun ms => floats.per_second (current - previous) ms.1 ms.2

def net_rates (current previous : List (List Char × ℕ × ℕ))
    (elapsed : Option {ms : ℕ // 0 < ms}) : List NetIface :=
  current.map fun (name, rx, tx) =>
    let before := previous.find? fun (other, _) => other = name
    { name := name
      rx_total := rx
      tx_total := tx
      rx_rate := before.bind fun (_, rx_before, _) => rate floats rx_before rx elapsed
      tx_rate := before.bind fun (_, _, tx_before) => rate floats tx_before tx elapsed
      speed := none }

def attach_speed (speeds : List (List Char × Option ℕ)) (iface : NetIface) : NetIface :=
  { iface with speed := (speeds.find? fun (name, _) => name = iface.name).bind Prod.snd }

/-- Build the snapshot and the counters the next sample compares against. -/
def finish (sample : Sample F) (previous : Option Counters) (at_ms : ℕ) :
    Snapshot F × Option Counters :=
  let seconds := elapsed previous at_ms
  let (cpu, cores, net, read_rate, write_rate) := match previous, sample.cpu with
    | some previous, some current =>
      (cpu_percent floats previous.cpu current, core_percents floats previous.cores sample.cores,
        net_rates floats sample.net previous.net seconds,
        rate floats previous.disk_read sample.disk_io.1 seconds,
        rate floats previous.disk_write sample.disk_io.2 seconds)
    | _, _ => (none, [], net_rates floats sample.net [] none, none, none)
  ({ at_ms := at_ms
     cpu := cpu
     cores := cores
     load := sample.load
     tasks_running := sample.tasks_running
     tasks_total := sample.tasks_total
     memory := sample.memory
     disk_total := sample.disk.1
     disk_used := sample.disk.2.1
     disk_free := sample.disk.2.2
     disk_read_rate := read_rate
     disk_write_rate := write_rate
     disk_read_total := some sample.disk_io.1
     disk_write_total := some sample.disk_io.2
     net := net.map (attach_speed sample.speeds)
     processes := sample.processes
     system := sample.system
     uptime_s := sample.uptime_s },
   sample.cpu.map fun cpu =>
    { at_ms := at_ms
      cpu := cpu
      cores := sample.cores
      net := sample.net
      disk_read := sample.disk_io.1
      disk_write := sample.disk_io.2 })

/-! ## The report -/

/-- The sections of a report; those it does not have are empty. -/
def sections (text : List Char) (i : ℕ) : List Char := (pieces "@@".toList 0 text).getD i []

/-- What the sections say. -/
def sample_of (part : ℕ → List Char) : Except Fault (Sample F) := do
  let loadavg := parse_loadavg floats (part 0)
  let cpu ← parse_cpu (part 1)
  let cores ← parse_cores (part 1)
  let disk_io ← parse_diskstats (part 7)
  return {
    cpu := cpu
    cores := cores
    load := loadavg.1
    tasks_running := loadavg.2.1
    tasks_total := loadavg.2.2
    memory := parse_memory (part 2)
    disk := parse_disk (part 3)
    net := parse_net (part 5)
    speeds := parse_speeds (part 6)
    disk_io := disk_io
    processes := parse_processes floats (part 8)
    system := parse_system (part 9)
    uptime_s := parse_uptime floats (part 4) }

/-- Turn one probe's output into a snapshot. -/
def parse_report (text : List Char) (previous : Option Counters) (at_ms : ℕ) :
    Except Fault (Snapshot F × Option Counters) := do
  let sample ← sample_of floats (sections text)
  return finish floats sample previous at_ms

/-- The parts of `MONITOR_COMMAND`, between which it says `echo @@`. -/
def MONITOR_PARTS : List String :=
  ["cat /proc/loadavg",
   "cat /proc/stat",
   "cat /proc/meminfo",
   "df -kP /",
   "cat /proc/uptime",
   "cat /proc/net/dev",
   "for i in $(ls /sys/class/net); do " ++
    "printf '%s %s\\n' \"$i\" \"$(cat /sys/class/net/$i/speed 2>/dev/null)\"; done",
   "cat /proc/diskstats",
   "ps -eo pid=,user=,stat=,ni=,nlwp=,pcpu=,pmem=,args= --sort=-pcpu 2>/dev/null | head -n 30",
   "(. /etc/os-release 2>/dev/null; echo \"$PRETTY_NAME\"); uname -r; uname -m; " ++
    "hostname -I 2>/dev/null"]

/-- The probe run on the remote host. -/
def MONITOR_COMMAND : String := "; echo @@; ".intercalate MONITOR_PARTS

/-- The report of a host that answers each part with a text. -/
def run (host : String → List Char) : List Char :=
  "@@\n".toList.intercalate (MONITOR_PARTS.map host)

/-- The outputs as the readers get them: those behind an `echo` have its line end in front. -/
def echoed : List (List Char) → List (List Char)
  | [] => []
  | first :: rest => first :: rest.map ('\n' :: ·)

theorem echoed_ne_nil : ∀ {outputs : List (List Char)}, outputs ≠ [] → echoed outputs ≠ []
  | [], h => absurd rfl h
  | _ :: _, _ => List.cons_ne_nil _ _

/-- The line end of an `echo` belongs to the next section. -/
theorem intercalate_echoed : ∀ outputs : List (List Char),
    "@@\n".toList.intercalate outputs = ['@', '@'].intercalate (echoed outputs)
  | [] => rfl
  | [first] => by
    rw [List.intercalate_singleton]
    exact (List.intercalate_singleton ..).symm
  | first :: second :: rest => by
    have ih := intercalate_echoed (second :: rest)
    have hfront : ∀ (t : List Char) (ps : List (List Char)),
        ['@', '@'].intercalate (('\n' :: t) :: ps) =
          '\n' :: ['@', '@'].intercalate (t :: ps) := by
      intro t ps
      rcases ps with _ | ⟨p, ps⟩
      · rw [List.intercalate_singleton, List.intercalate_singleton]
      · rw [List.intercalate_cons_of_ne_nil (List.cons_ne_nil _ _),
          List.intercalate_cons_of_ne_nil (List.cons_ne_nil _ _)]
        rfl
    rw [List.intercalate_cons_of_ne_nil (List.cons_ne_nil _ _), ih]
    change _ = ['@', '@'].intercalate (first :: ('\n' :: second) :: rest.map ('\n' :: ·))
    rw [List.intercalate_cons_of_ne_nil (List.cons_ne_nil _ _), hfront]
    change first ++ (['@', '@'] ++ ['\n']) ++ _ = first ++ ['@', '@'] ++ (['\n'] ++ _)
    rw [List.append_assoc, List.append_assoc, List.append_assoc]
    rfl

/-- A line end in front changes neither the separators of a text nor how it ends. -/
theorem apart_newline : ∀ {outputs : List (List Char)},
    Apart '@' (outputs.map ('\n' :: ·)) ↔ Apart '@' outputs
  | [] => Iff.rfl
  | [p] => by
    change ¬ ['@', '@'] <:+: '\n' :: p ↔ ¬ ['@', '@'] <:+: p
    rw [List.infix_cons_iff, List.cons_prefix_cons]
    simp
  | p :: q :: ps => by
    have ih : Apart '@' ((q :: ps).map ('\n' :: ·)) ↔ Apart '@' (q :: ps) := apart_newline
    have hlast : ('\n' :: p).getLast? ≠ some '@' ↔ p.getLast? ≠ some '@' := by
      rcases p with _ | ⟨c, p⟩
      · simp
      · rw [List.getLast?_cons_cons]
    have hne : (q :: ps).map ('\n' :: ·) ≠ [] := List.cons_ne_nil _ _
    rw [List.map_cons, apart_cons_iff hne, apart_cons_iff (List.cons_ne_nil q ps), ih, hlast,
      List.infix_cons_iff, List.cons_prefix_cons]
    simp

theorem apart_echoed {outputs : List (List Char)} :
    Apart '@' (echoed outputs) ↔ Apart '@' outputs := by
  rcases outputs with _ | ⟨first, _ | ⟨second, rest⟩⟩
  · exact Iff.rfl
  · exact Iff.rfl
  · have h : Apart '@' ((second :: rest).map ('\n' :: ·)) ↔ Apart '@' (second :: rest) :=
      apart_newline
    change Apart '@' (first :: (second :: rest).map ('\n' :: ·)) ↔ _
    rw [apart_cons_iff (by simp), apart_cons_iff (List.cons_ne_nil _ _), h]

/-- **The sections are the outputs where no output holds the separator.** An output that another
one follows may not end in its character either. -/
theorem sections_run_iff (host : String → List Char) :
    ((∀ i, sections (run host) i = (echoed (MONITOR_PARTS.map host)).getD i []) ↔
      (∀ output ∈ MONITOR_PARTS.map host, ¬ "@@".toList <:+: output) ∧
        ∀ output ∈ (MONITOR_PARTS.map host).dropLast, output.getLast? ≠ some '@') ∧
    ((∀ i, sections (run host) i = (echoed (MONITOR_PARTS.map host)).getD i []) →
      ∀ (F : Type) (floats : Floats F) (previous : Option Counters) (at_ms : ℕ),
        parse_report floats (run host) previous at_ms = (do
          let sample ← sample_of floats fun i => (echoed (MONITOR_PARTS.map host)).getD i []
          return finish floats sample previous at_ms)) := by
  have hne : MONITOR_PARTS.map host ≠ [] := List.cons_ne_nil _ _
  constructor
  · have hsep : "@@".toList = ['@', '@'] := rfl
    rw [hsep, ← apart_iff, ← apart_echoed]
    unfold sections run
    rw [intercalate_echoed, hsep]
    constructor
    · intro h
      have hjoin := intercalate_pieces (List.cons_ne_nil '@' ['@'])
        (['@', '@'].intercalate (echoed (MONITOR_PARTS.map host))) 0 (Nat.zero_le _)
      rw [List.drop_zero] at hjoin
      rw [← eq_of_getD (List.cons_ne_nil _ _) (pieces_ne_nil _ _ _) (echoed_ne_nil hne) hjoin h]
      exact pieces_apart '@' _ _ le_rfl
    · intro h i
      rw [pieces_intercalate (echoed_ne_nil hne) h]
  · intro h F floats previous at_ms
    unfold parse_report
    rw [funext h]

/-- A host on which somebody runs `sh -c @@`. -/
def shouting (part : String) : List Char :=
  if part = MONITOR_PARTS.getD 8 "" then "7 mallory S 0 1 0.0 0.1 sh -c @@\n".toList
  else if part = MONITOR_PARTS.getD 9 "" then "Debian\n".toList
  else []

/-- An argument of a process moves the section behind it. -/
theorem shouting_moves_sections : ¬ ∀ host : String → List Char, ∀ i,
    sections (run host) i = (echoed (MONITOR_PARTS.map host)).getD i [] := by
  intro h
  have hmoved : sections (run shouting) 9 ≠ (echoed (MONITOR_PARTS.map shouting)).getD 9 [] := by
    decide +kernel
  exact hmoved (h shouting 9)

/-! ## Numbers in range -/

/-- The numbers of a processor's line stay in range. -/
def CpuFits (line : List Char) : Prop :=
  5 ≤ (values line).length → ((values line).take 8).sum < 2 ^ 64

theorem cpu_line_returns_iff {line : List Char} :
    (∃ times, cpu_line line = .ok times) ↔ CpuFits line := by
  unfold cpu_line CpuFits
  rcases values line with _ | ⟨user, _ | ⟨nice, _ | ⟨system, _ | ⟨idle, _ | ⟨iowait, rest⟩⟩⟩⟩⟩
  case cons.cons.cons.cons.cons =>
    have hidle : idle + iowait ≤
        ((user :: nice :: system :: idle :: iowait :: rest).take 8).sum := by
      simp only [List.take_succ_cons, List.sum_cons]
      omega
    constructor
    · rintro ⟨times, h⟩ -
      obtain ⟨_, -, h⟩ := bind_eq_ok_iff.mp h
      obtain ⟨_, hsum, -⟩ := bind_eq_ok_iff.mp h
      exact (sum_eq_ok_iff.mp hsum).2
    · intro h
      have hlt := h (by simp only [List.length_cons]; omega)
      refine ⟨_, bind_eq_ok_iff.mpr ⟨_, add_eq_ok_iff.mpr ⟨rfl, by omega⟩,
        bind_eq_ok_iff.mpr ⟨_, sum_eq_ok_iff.mpr ⟨rfl, hlt⟩, rfl⟩⟩⟩
  all_goals exact ⟨fun _ h => absurd h (by simp), fun _ => ⟨none, rfl⟩⟩

theorem parse_cpu_returns_iff {text : List Char} :
    (∃ times, parse_cpu text = .ok times) ↔ ∀ line ∈ aggregate_line text, CpuFits line := by
  unfold parse_cpu
  cases aggregate_line text with
  | none => exact ⟨fun _ line h => absurd h (by simp), fun _ => ⟨none, rfl⟩⟩
  | some line => simpa using cpu_line_returns_iff

theorem parse_cores_returns_iff {text : List Char} :
    (∃ cores, parse_cores text = .ok cores) ↔ ∀ line ∈ core_lines text, CpuFits line := by
  unfold parse_cores
  calc (∃ cores, (do let found ← (core_lines text).mapM cpu_line; return found.reduceOption)
        = (.ok cores : Except Fault _))
      ↔ ∃ found, (core_lines text).mapM cpu_line = .ok found := by
        constructor
        · rintro ⟨cores, h⟩
          obtain ⟨found, hfound, -⟩ := bind_eq_ok_iff.mp h
          exact ⟨found, hfound⟩
        · rintro ⟨found, hfound⟩
          exact ⟨_, bind_eq_ok_iff.mpr ⟨found, hfound, rfl⟩⟩
    _ ↔ ∀ line ∈ core_lines text, CpuFits line := by
        rw [mapM_eq_ok_iff]
        exact forall₂_congr fun line _ => cpu_line_returns_iff

/-- The totals, from where the sums stand. -/
theorem foldlM_add_bytes : ∀ {bytes : List (ℕ × ℕ)} {read written : ℕ} {totals : ℕ × ℕ},
    read < 2 ^ 64 → written < 2 ^ 64 →
      (bytes.foldlM add_bytes (read, written) = .ok totals ↔
        totals = (read + (bytes.map Prod.fst).sum, written + (bytes.map Prod.snd).sum) ∧
          read + (bytes.map Prod.fst).sum < 2 ^ 64 ∧ written + (bytes.map Prod.snd).sum < 2 ^ 64)
  | [], read, written, totals, hr, hw => by
    change Except.ok (read, written) = Except.ok totals ↔ totals = (read, written) ∧ _
    rw [Except.ok.injEq, eq_comm]
    exact ⟨fun h => ⟨h, hr, hw⟩, And.left⟩
  | (r, w) :: bytes, read, written, totals, _, _ => by
    rw [List.foldlM_cons, bind_eq_ok_iff, List.map_cons, List.map_cons, List.sum_cons,
      List.sum_cons, ← Nat.add_assoc, ← Nat.add_assoc]
    constructor
    · rintro ⟨next, hnext, h⟩
      obtain ⟨read', hread, hnext⟩ := bind_eq_ok_iff.mp hnext
      obtain ⟨written', hwritten, hnext⟩ := bind_eq_ok_iff.mp hnext
      obtain ⟨rfl, hr⟩ := add_eq_ok_iff.mp hread
      obtain ⟨rfl, hw⟩ := add_eq_ok_iff.mp hwritten
      cases hnext
      exact (foldlM_add_bytes hr hw).mp h
    · rintro ⟨htotals, hr, hw⟩
      have hr' : read + r < 2 ^ 64 := by omega
      have hw' : written + w < 2 ^ 64 := by omega
      refine ⟨(read + r, written + w), ?_, (foldlM_add_bytes hr' hw').mpr ⟨htotals, hr, hw⟩⟩
      exact bind_eq_ok_iff.mpr ⟨_, add_eq_ok_iff.mpr ⟨rfl, hr'⟩,
        bind_eq_ok_iff.mpr ⟨_, add_eq_ok_iff.mpr ⟨rfl, hw'⟩, rfl⟩⟩

/-- The bytes of the lines that are added, read and written. -/
def disk_reads (text : List Char) : List ℕ := ((lines text).filterMap disk_bytes).map Prod.fst

def disk_writes (text : List Char) : List ℕ := ((lines text).filterMap disk_bytes).map Prod.snd

theorem parse_diskstats_eq_ok_iff {text : List Char} {totals : ℕ × ℕ} :
    parse_diskstats text = .ok totals ↔ totals = ((disk_reads text).sum, (disk_writes text).sum) ∧
      (disk_reads text).sum < 2 ^ 64 ∧ (disk_writes text).sum < 2 ^ 64 := by
  unfold parse_diskstats disk_reads disk_writes
  rw [foldlM_add_bytes (by decide) (by decide), Nat.zero_add, Nat.zero_add]

/-- The number of the last line with this name. -/
def reported (name : List Char) (text : List Char) : Option ℕ :=
  (((lines text).filterMap memory_entry).filter (·.1 = name)).getLast?.map Prod.snd

theorem buffers_set (memory : Memory) (name : List Char) (bytes : ℕ) :
    (memory.set name bytes).buffers =
      if name = "Buffers:".toList then some bytes else memory.buffers := by
  unfold Memory.set
  split_ifs <;> simp_all

theorem cached_set (memory : Memory) (name : List Char) (bytes : ℕ) :
    (memory.set name bytes).cached =
      if name = "Cached:".toList then some bytes else memory.cached := by
  unfold Memory.set
  split_ifs <;> simp_all

/-- A field that only its own lines set holds the number of the last of them. -/
theorem foldl_set {field : Memory → Option ℕ} {name : List Char}
    (hfield : ∀ (memory : Memory) other bytes, field (memory.set other bytes) =
      if other = name then some bytes else field memory) (hnone : field {} = none)
    (entries : List (List Char × ℕ)) :
    field (entries.foldl
      (fun memory (name, value) => memory.set name (saturating_mul 64 value 1024)) {}) =
      ((entries.filter (·.1 = name)).getLast?.map Prod.snd).map (saturating_mul 64 · 1024) := by
  induction entries using List.reverseRecOn with
  | nil => exact hnone
  | append_singleton entries last ih =>
    rw [List.foldl_append, List.foldl_cons, List.foldl_nil, hfield, List.filter_append]
    by_cases hname : last.1 = name
    · rw [if_pos hname, List.filter_cons_of_pos (by simpa using hname)]
      simp
    · rw [if_neg hname, ih, List.filter_cons_of_neg (by simpa using hname), List.filter_nil,
        List.append_nil]

theorem parse_memory_buffers (text : List Char) : (parse_memory text).buffers =
    (reported "Buffers:".toList text).map (saturating_mul 64 · 1024) :=
  foldl_set buffers_set rfl _

theorem parse_memory_cached (text : List Char) : (parse_memory text).cached =
    (reported "Cached:".toList text).map (saturating_mul 64 · 1024) :=
  foldl_set cached_set rfl _

/-- The sums a report asks for stay below `2 ^ 64`. -/
structure Fits (text : List Char) : Prop where
  cpu : ∀ line ∈ aggregate_line (sections text 1), CpuFits line
  cores : ∀ line ∈ core_lines (sections text 1), CpuFits line
  read : (disk_reads (sections text 7)).sum < 2 ^ 64
  written : (disk_writes (sections text 7)).sum < 2 ^ 64
  cached : ((reported "Buffers:".toList (sections text 2)).map (saturating_mul 64 · 1024)).getD 0 +
    ((reported "Cached:".toList (sections text 2)).map (saturating_mul 64 · 1024)).getD 0 < 2 ^ 64

theorem cached_total_returns_iff {memory : Memory} : (∃ total, memory.cached_total = .ok total) ↔
    memory.buffers.getD 0 + memory.cached.getD 0 < 2 ^ 64 := by
  unfold Memory.cached_total
  constructor
  · rintro ⟨total, h⟩
    obtain ⟨_, hsum, -⟩ := bind_eq_ok_iff.mp h
    exact (add_eq_ok_iff.mp hsum).2
  · intro h
    exact ⟨_, bind_eq_ok_iff.mpr ⟨_, add_eq_ok_iff.mpr ⟨rfl, h⟩, rfl⟩⟩

/-- **A report and the sum of its caches are there where no sum leaves its width**, whatever the
sample before it was. Everything else saturates, checks or compares first. -/
theorem report_returns_iff (text : List Char) (previous : Option Counters) (at_ms : ℕ) :
    (∃ result, parse_report floats text previous at_ms = .ok result ∧
      ∃ total, result.1.memory.cached_total = .ok total) ↔ Fits text := by
  have hmemory : ∀ sample : Sample F, (finish floats sample previous at_ms).1.memory =
      sample.memory := fun _ => rfl
  constructor
  · rintro ⟨result, hresult, htotal⟩
    obtain ⟨sample, hsample, hresult⟩ := bind_eq_ok_iff.mp hresult
    cases hresult
    obtain ⟨cpu, hcpu, hsample⟩ := bind_eq_ok_iff.mp hsample
    obtain ⟨cores, hcores, hsample⟩ := bind_eq_ok_iff.mp hsample
    obtain ⟨disk_io, hdisk, hsample⟩ := bind_eq_ok_iff.mp hsample
    cases hsample
    rw [hmemory, cached_total_returns_iff, parse_memory_buffers, parse_memory_cached] at htotal
    have hdisk := (parse_diskstats_eq_ok_iff.mp hdisk).2
    exact { cpu := parse_cpu_returns_iff.mp ⟨cpu, hcpu⟩
            cores := parse_cores_returns_iff.mp ⟨cores, hcores⟩
            read := hdisk.1
            written := hdisk.2
            cached := htotal }
  · intro h
    obtain ⟨cpu, hcpu⟩ := parse_cpu_returns_iff.mpr h.cpu
    obtain ⟨cores, hcores⟩ := parse_cores_returns_iff.mpr h.cores
    have hdisk := parse_diskstats_eq_ok_iff.mpr ⟨rfl, h.read, h.written⟩
    refine ⟨_, bind_eq_ok_iff.mpr ⟨_, bind_eq_ok_iff.mpr ⟨cpu, hcpu, bind_eq_ok_iff.mpr
      ⟨cores, hcores, bind_eq_ok_iff.mpr ⟨_, hdisk, rfl⟩⟩⟩, rfl⟩, ?_⟩
    rw [hmemory, cached_total_returns_iff, parse_memory_buffers, parse_memory_cached]
    exact h.cached

/-- Floating point numbers of which nothing is kept. -/
def coarse : Floats Unit where
  parse t := (parse_i64 t).map fun _ => ()
  zero := ()
  seconds := parse_u64
  percentage _ _ _ := ()
  per_second delta ms _ := delta * 1000 / ms

/-- A host that counts to the end of 64 bits and one further. -/
theorem report_overflows : ¬ ∀ (text : List Char) (previous : Option Counters) (at_ms : ℕ),
    ∃ result, parse_report coarse text previous at_ms = .ok result ∧
      ∃ total, result.1.memory.cached_total = .ok total := by
  intro h
  obtain ⟨result, hresult, -⟩ := h "@@cpu 18446744073709551615 1 0 0 0".toList none 0
  have hfault : parse_report coarse "@@cpu 18446744073709551615 1 0 0 0".toList none 0 =
      .error .overflow := by
    rfl
  rw [hfault] at hresult
  cases hresult

end WaSSH.Monitor
