import Mathlib.Data.Nat.Notation
import Mathlib.Data.List.Basic

/-!
# Connection parameters

The values a saved host stores and a session runs with.

* `ConnectionParams`, `normalized`: the values, and the clamping of the ones out of range;
* **`normalized_normalized`**: clamping twice is clamping once.
-/

namespace WaSSH.Hosts

/-- Transport used to reach the target. -/
inductive ConnectionType
  | ssh | telnet | serial | «local»
  deriving DecidableEq

/-- Port used when the user has not chosen one. -/
def ConnectionType.default_port : ConnectionType → ℕ
  | .ssh => 22
  | .telnet => 23
  | .serial | .local => 0

/-- How to authenticate an SSH session. -/
inductive AuthMethod
  | password | private_key
  /-- Prompt for credentials, store nothing. -/
  | none
  deriving DecidableEq

/-- When to reconnect automatically. -/
inductive ReconnectMode
  | none | on_focus | always
  deriving DecidableEq

/-- Serial port configuration. -/
structure SerialConfig where
  path : String := ""
  baud : ℕ := 115200
  data_bits : ℕ := 8
  deriving DecidableEq

def MIN_BAUD : ℕ := 300
def MAX_BAUD : ℕ := 3000000
def MIN_FONT_SIZE_PX : ℕ := 8
def MAX_FONT_SIZE_PX : ℕ := 48
def MIN_SCROLLBACK_LINES : ℕ := 100
def MAX_SCROLLBACK_LINES : ℕ := 100000

/-- `Ord::clamp`. -/
def clamp (low high n : ℕ) : ℕ := if n < low then low else if high < n then high else n

def SerialConfig.normalized (s : SerialConfig) : SerialConfig :=
  { s with baud := clamp MIN_BAUD MAX_BAUD s.baud, data_bits := clamp 5 8 s.data_bits }

/-- One port-forwarding rule. -/
structure Tunnel where
  id : String
  enabled : Bool
  listen_host : String
  listen_port : ℕ
  dest_host : String
  dest_port : ℕ
  deriving DecidableEq

/-- Style overrides; the application default where there is none. -/
structure SessionStyle where
  font_size : Option ℕ := .none
  scrollback : Option ℕ := .none
  deriving DecidableEq

def SessionStyle.normalized (s : SessionStyle) : SessionStyle :=
  { font_size := s.font_size.map (clamp MIN_FONT_SIZE_PX MAX_FONT_SIZE_PX)
    scrollback := s.scrollback.map (clamp MIN_SCROLLBACK_LINES MAX_SCROLLBACK_LINES) }

/-- Everything a session needs, minus secrets. -/
structure ConnectionParams where
  kind : ConnectionType := .ssh
  host : String := ""
  port : ℕ := 0
  username : String := ""
  auth : AuthMethod := .password
  private_key_path : Option String := .none
  jump_host_id : Option String := .none
  tunnels : List Tunnel := []
  x11 : Bool := false
  /-- Whether the session attaches to a terminal multiplexer. -/
  remote_session : Bool := false
  serial : SerialConfig := {}
  reconnect : ReconnectMode := .on_focus
  style : SessionStyle := {}
  deriving DecidableEq

namespace ConnectionParams

/-- What a kind of transport leaves no room for. -/
def for_kind (c : ConnectionParams) : ConnectionParams :=
  match c.kind with
  | .local =>
    -- A local shell has no transport to dial again.
    { c with host := "", port := 0, username := "", auth := .none, reconnect := .none }
  | .serial => { c with port := 0, username := "", auth := .none }
  | .ssh | .telnet => c

/-- Fill in the protocol default port and clamp numeric fields. -/
def normalized (c : ConnectionParams) : ConnectionParams :=
  let c := if c.port = 0 then { c with port := c.kind.default_port } else c
  let c := c.for_kind
  let c :=
    if c.kind ≠ .ssh then
      { c with tunnels := [], x11 := false, remote_session := false, jump_host_id := .none }
    else c
  { c with
    serial := c.serial.normalized
    style := c.style.normalized
    tunnels := c.tunnels.filter fun tunnel => tunnel.listen_port ≠ 0 }

end ConnectionParams

/-! ## Clamping twice -/

theorem clamp_clamp {low high : ℕ} (h : low ≤ high) (n : ℕ) :
    clamp low high (clamp low high n) = clamp low high n := by
  unfold clamp
  split_ifs <;> omega

theorem SerialConfig.normalized_normalized (s : SerialConfig) :
    s.normalized.normalized = s.normalized := by
  simp only [normalized, clamp_clamp (by decide : MIN_BAUD ≤ MAX_BAUD),
    clamp_clamp (by decide : 5 ≤ 8)]

theorem SessionStyle.normalized_normalized (s : SessionStyle) :
    s.normalized.normalized = s.normalized := by
  have hfont : clamp MIN_FONT_SIZE_PX MAX_FONT_SIZE_PX ∘ clamp MIN_FONT_SIZE_PX MAX_FONT_SIZE_PX =
      clamp MIN_FONT_SIZE_PX MAX_FONT_SIZE_PX := funext (clamp_clamp (by decide))
  have hlines : clamp MIN_SCROLLBACK_LINES MAX_SCROLLBACK_LINES ∘
      clamp MIN_SCROLLBACK_LINES MAX_SCROLLBACK_LINES =
      clamp MIN_SCROLLBACK_LINES MAX_SCROLLBACK_LINES := funext (clamp_clamp (by decide))
  simp only [normalized, Option.map_map, hfont, hlines]

namespace ConnectionParams

@[simp] theorem normalized_kind (c : ConnectionParams) : c.normalized.kind = c.kind := by
  cases h : c.kind <;> simp only [normalized, for_kind] <;> split <;> simp [h]

/-- **Idempotence**: clamping twice is clamping once. -/
theorem normalized_normalized (c : ConnectionParams) : c.normalized.normalized = c.normalized := by
  obtain ⟨kind, host, port, username, auth, key, jump, tunnels, x11, remote, serial, reconnect,
    style⟩ := c
  have hserial := serial.normalized_normalized
  have hstyle := style.normalized_normalized
  by_cases hport : port = 0 <;> cases kind <;>
    simp [normalized, for_kind, ConnectionType.default_port, hport, hserial, hstyle,
      List.filter_filter]

end ConnectionParams

end WaSSH.Hosts
