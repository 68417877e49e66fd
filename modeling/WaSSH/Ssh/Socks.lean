import WaSSH.Lib.Text
import WaSSH.Lib.Utf8

/-!
# The SOCKS5 proxy of a dynamic tunnel

A client greets, asks for a connection, and its bytes go through a channel to the host it named.

* `parse_socks_address`, `serve_socks5`: the proxy;
* `ConnectRequest`: what a well-formed client sends;
* **`opens_requested_iff`**: the channel goes to the host and port requested, unless the host is
  given by name.
-/

namespace WaSSH.Ssh

open Utf8

def SOCKS5_VERSION : UInt8 := 5
def SOCKS5_NO_AUTH : UInt8 := 0
def SOCKS5_CONNECT : UInt8 := 1
def SOCKS5_UNSUPPORTED_COMMAND : UInt8 := 7
def SOCKS5_UNSUPPORTED_ATYP : UInt8 := 8
def SOCKS5_ATYP_IPV4 : UInt8 := 1
def SOCKS5_ATYP_DOMAIN : UInt8 := 3
def SOCKS5_ATYP_IPV6 : UInt8 := 4

/-! ## The proxy -/

/-- `u16::from_be_bytes`. -/
def from_be_bytes (high low : UInt8) : ℕ := high.toNat * 256 + low.toNat

/-- `{:02x}`. -/
def hex_byte (b : UInt8) : List Char := [Nat.digitChar (b.toNat / 16), Nat.digitChar (b.toNat % 16)]

/-- `chunks(2)`, each as four hexadecimal digits. -/
def hex_pairs : List UInt8 → List (List Char)
  | a :: b :: rest => (hex_byte a ++ hex_byte b) :: hex_pairs rest
  | _ => []

/-- Decode a SOCKS5 destination from its address-type byte plus the bytes that follow. -/
def parse_socks_address (atyp : UInt8) (rest : List UInt8) : Option (List Char × ℕ) :=
  let byte i := rest.getD i 0
  if atyp = SOCKS5_ATYP_IPV4 then
    if rest.length < 6 then none
    else
      let host := ['.'].intercalate ((rest.take 4).map fun b => Text.decimal b.toNat)
      some (host, from_be_bytes (byte 4) (byte 5))
  else if atyp = SOCKS5_ATYP_DOMAIN then
    match rest with
    | [] => none
    | first :: after =>
      let length := first.toNat
      if rest.length < 1 + length + 2 then none
      else
        (from_utf8 (after.take length)).map fun host =>
          (host, from_be_bytes (byte (1 + length)) (byte (2 + length)))
  else if atyp = SOCKS5_ATYP_IPV6 then
    if rest.length < 18 then none
    else some ([':'].intercalate (hex_pairs (rest.take 16)), from_be_bytes (byte 16) (byte 17))
  else none

/-- How serving a client ends. -/
inductive Served
  /-- The stream ended in the middle of a message. -/
  | eof
  | unsupported_version (version : UInt8)
  | malformed
  /-- The client was told why there is no connection. -/
  | refused (reply : UInt8)
  /-- A channel to the host and port was asked for; `connected` once it is open. -/
  | opened (host : List Char) (port : ℕ) (connected : Bool)
  deriving DecidableEq

/-- `read_exact`: the next `n` bytes and those after them. -/
def read_exact (n : ℕ) (bytes : List UInt8) : Option (List UInt8 × List UInt8) :=
  if n ≤ bytes.length then some (bytes.take n, bytes.drop n) else none

/-- How many bytes follow the header of a request, and the bytes after those already read to know
it. -/
def tail_length (atyp : UInt8) (bytes : List UInt8) : Except Served (ℕ × List UInt8) :=
  if atyp = SOCKS5_ATYP_IPV4 then .ok (4 + 2, bytes)
  else if atyp = SOCKS5_ATYP_DOMAIN then
    match read_exact 1 bytes with
    | none => .error .eof
    | some (length, bytes) => .ok ((length.headD 0).toNat + 2, bytes)
  else if atyp = SOCKS5_ATYP_IPV6 then .ok (16 + 2, bytes)
  else .error (.refused SOCKS5_UNSUPPORTED_ATYP)

/-- The request after the greeting. -/
def serve_connect (connects : List Char → ℕ → Bool) (bytes : List UInt8) : Served :=
  match read_exact 4 bytes with
  | none => .eof
  | some (header, bytes) =>
    if header.getD 0 0 ≠ SOCKS5_VERSION ∨ header.getD 1 0 ≠ SOCKS5_CONNECT then
      .refused SOCKS5_UNSUPPORTED_COMMAND
    else
      let atyp := header.getD 3 0
      match tail_length atyp bytes with
      | .error served => served
      | .ok (length, bytes) =>
        match read_exact length bytes with
        | none => .eof
        | some (tail, _) =>
          match parse_socks_address atyp tail with
          | none => .malformed
          | some (host, port) => .opened host port (connects host port)

/-- Handle one SOCKS5 client: greeting, then CONNECT. `connects` says which channels the server
opens. -/
def serve_socks5 (connects : List Char → ℕ → Bool) (bytes : List UInt8) : Served :=
  match read_exact 2 bytes with
  | none => .eof
  | some (head, bytes) =>
    if head.getD 0 0 ≠ SOCKS5_VERSION then .unsupported_version (head.getD 0 0)
    else match read_exact (head.getD 1 0).toNat bytes with
      | none => .eof
      | some (_, bytes) => serve_connect connects bytes

/-! ## A well-formed client -/

/-- Where a client wants to go. A name has 1 to 255 bytes. -/
inductive Destination
  | ipv4 (a b c d : UInt8)
  | domain (name : List Char) (pos : 0 < (encode name).length) (short : (encode name).length < 256)
  | ipv6 (octets : List UInt8) (len : octets.length = 16)

namespace Destination

def atyp : Destination → UInt8
  | ipv4 .. => SOCKS5_ATYP_IPV4
  | domain .. => SOCKS5_ATYP_DOMAIN
  | ipv6 .. => SOCKS5_ATYP_IPV6

/-- The address as it is sent; a name follows its length. -/
def bytes : Destination → List UInt8
  | ipv4 a b c d => [a, b, c, d]
  | domain name _ _ => UInt8.ofNat (encode name).length :: encode name
  | ipv6 octets _ => octets

/-- The sixteen-bit groups of an IPv6 address. -/
def groups : List UInt8 → List ℕ
  | a :: b :: rest => from_be_bytes a b :: groups rest
  | _ => []

/-- A group in four hexadecimal digits. -/
def hextet (n : ℕ) : List Char := [4096, 256, 16, 1].map fun place => Nat.digitChar (n / place % 16)

/-- The host's text. -/
def host : Destination → List Char
  | ipv4 a b c d => ['.'].intercalate ([a, b, c, d].map fun n => Text.decimal n.toNat)
  | domain name _ _ => name
  | ipv6 octets _ => [':'].intercalate ((groups octets).map hextet)

end Destination

/-- What a client sends: the methods it offers, then its request. -/
structure ConnectRequest where
  methods : List UInt8
  few : methods.length < 256
  dest : Destination
  port : UInt16

namespace ConnectRequest

variable (r : ConnectRequest)

def port_bytes : List UInt8 := [UInt8.ofNat (r.port.toNat / 256), UInt8.ofNat (r.port.toNat % 256)]

def greeting : List UInt8 := [SOCKS5_VERSION, UInt8.ofNat r.methods.length] ++ r.methods

def bytes : List UInt8 :=
  r.greeting ++ ([SOCKS5_VERSION, SOCKS5_CONNECT, 0, r.dest.atyp] ++ (r.dest.bytes ++ r.port_bytes))

end ConnectRequest

/-! ## What the proxy makes of it -/

theorem read_exact_append {n : ℕ} {xs : List UInt8} (h : xs.length = n) (ys : List UInt8) :
    read_exact n (xs ++ ys) = some (xs, ys) := by
  subst h
  rw [read_exact, if_pos (by rw [List.length_append]; omega), List.take_left, List.drop_left]

theorem from_be_bytes_port (port : UInt16) :
    from_be_bytes (UInt8.ofNat (port.toNat / 256)) (UInt8.ofNat (port.toNat % 256)) =
      port.toNat := by
  have h := port.toNat_lt
  have hhigh : port.toNat / 256 < 256 := by omega
  have hlow : port.toNat % 256 < 256 := by omega
  rw [from_be_bytes, UInt8.toNat_ofNat_of_lt' hhigh, UInt8.toNat_ofNat_of_lt' hlow]
  omega

theorem hex_pair (a b : UInt8) :
    hex_byte a ++ hex_byte b = Destination.hextet (from_be_bytes a b) := by
  have ha := a.toNat_lt
  have hb := b.toNat_lt
  simp only [hex_byte, Destination.hextet, from_be_bytes, List.map_cons, List.map_nil,
    List.cons_append, List.nil_append, List.cons.injEq, and_true]
  refine ⟨?_, ?_, ?_, ?_⟩
  all_goals exact congrArg Nat.digitChar (by omega)

theorem hex_pairs_eq : ∀ octets : List UInt8,
    hex_pairs octets = (Destination.groups octets).map Destination.hextet
  | [] => rfl
  | [_] => rfl
  | a :: b :: rest => by
    rw [hex_pairs, Destination.groups, List.map_cons, hex_pair, hex_pairs_eq rest]

section Serve

variable (connects : List Char → ℕ → Bool) (r : ConnectRequest) (rest : List UInt8)

theorem serve_socks5_bytes :
    serve_socks5 connects (r.bytes ++ rest) =
      serve_connect connects ([SOCKS5_VERSION, SOCKS5_CONNECT, 0, r.dest.atyp] ++
        (r.dest.bytes ++ (r.port_bytes ++ rest))) := by
  have hn : (UInt8.ofNat r.methods.length).toNat = r.methods.length :=
    UInt8.toNat_ofNat_of_lt' r.few
  unfold serve_socks5 ConnectRequest.bytes ConnectRequest.greeting
  rw [List.append_assoc, List.append_assoc, read_exact_append (n := 2) rfl]
  simp only [List.getD_cons_zero, List.getD_cons_succ, ne_eq, not_true_eq_false, if_false, hn]
  rw [read_exact_append (n := r.methods.length) rfl]
  simp only [List.append_assoc]

/-- The address as the proxy hands it to the parser: a name without its length. -/
def Destination.handed : Destination → List UInt8
  | .domain name _ _ => encode name
  | dest => dest.bytes

theorem tail_length_bytes (dest : Destination) (after : List UInt8) :
    tail_length dest.atyp (dest.bytes ++ after) =
      .ok (dest.handed.length + 2, dest.handed ++ after) := by
  cases dest with
  | ipv4 a b c d => rfl
  | domain name pos short =>
    change (match read_exact 1 ([UInt8.ofNat (encode name).length] ++ (encode name ++ after)) with
      | none => Except.error Served.eof
      | some (length, bytes) => .ok ((length.headD 0).toNat + 2, bytes)) = _
    rw [read_exact_append (n := 1) rfl]
    simp only [List.headD_cons, UInt8.toNat_ofNat_of_lt' short, Destination.handed]
  | ipv6 octets len =>
    change Except.ok (16 + 2, octets ++ after) = .ok (octets.length + 2, octets ++ after)
    rw [len]

theorem serve_connect_bytes :
    serve_socks5 connects (r.bytes ++ rest) =
      match parse_socks_address r.dest.atyp (r.dest.handed ++ r.port_bytes) with
      | none => .malformed
      | some (host, port) => .opened host port (connects host port) := by
  have hlen : (r.dest.handed ++ r.port_bytes).length = r.dest.handed.length + 2 := by
    rw [List.length_append]
    rfl
  rw [serve_socks5_bytes, serve_connect, read_exact_append (n := 4) rfl]
  simp only [List.getD_cons_zero, List.getD_cons_succ, ne_eq, not_true_eq_false, or_self, if_false,
    tail_length_bytes]
  rw [← List.append_assoc, read_exact_append hlen]

theorem parse_ipv6 {octets : List UInt8} (len : octets.length = 16) (hi lo : UInt8) :
    parse_socks_address SOCKS5_ATYP_IPV6 (octets ++ [hi, lo]) =
      some ([':'].intercalate ((Destination.groups octets).map Destination.hextet),
        from_be_bytes hi lo) := by
  have hpart : ∀ n, (octets ++ [hi, lo]).getD (16 + n) 0 = [hi, lo].getD n 0 := by
    intro n
    rw [List.getD_eq_getElem?_getD, List.getElem?_append_right (by omega), len,
      Nat.add_sub_cancel_left, List.getD_eq_getElem?_getD]
  unfold parse_socks_address
  rw [if_neg (by decide), if_neg (by decide), if_pos rfl,
    if_neg (by rw [List.length_append, len]; exact Nat.lt_irrefl 18), List.take_left' len, hex_pairs_eq]
  exact congrArg some (Prod.ext rfl (congrArg₂ from_be_bytes (hpart 0) (hpart 1)))

/-- A name is read from its second byte on, so it never comes out whole. -/
theorem parse_domain_ne {name : List Char} (pos : 0 < (encode name).length) (port : ℕ)
    (hi lo : UInt8) :
    parse_socks_address SOCKS5_ATYP_DOMAIN (encode name ++ [hi, lo]) ≠ some (name, port) := by
  intro h
  obtain ⟨first, after, hname⟩ := List.exists_cons_of_length_pos pos
  unfold parse_socks_address at h
  rw [if_neg (by decide), if_pos rfl, hname] at h
  simp only [List.cons_append] at h
  split_ifs at h with hlen
  obtain ⟨host, hhost, heq⟩ := Option.map_eq_some_iff.mp h
  obtain ⟨rfl, -⟩ := Prod.mk.inj heq
  have hbytes := congrArg List.length (from_utf8_eq_some_iff.mp hhost)
  rw [hname] at hbytes
  simp only [List.length_cons, List.length_append, List.length_take, List.length_nil] at hbytes hlen
  omega

/-- **The channel goes to the host and port the request encodes, exactly if the host is an
address.** -/
theorem opens_requested_iff :
    (∃ connected, serve_socks5 connects (r.bytes ++ rest) =
      .opened r.dest.host r.port.toNat connected) ↔ r.dest.atyp ≠ SOCKS5_ATYP_DOMAIN := by
  rw [serve_connect_bytes]
  rcases r with ⟨methods, few, dest, port⟩
  have hport := from_be_bytes_port port
  cases dest with
  | ipv4 a b c d =>
    refine iff_of_true ⟨connects (Destination.ipv4 a b c d).host port.toNat, ?_⟩
      (by simp only [Destination.atyp]; decide)
    rw [← hport]
    rfl
  | domain name pos short =>
    refine iff_of_false ?_ (by simp [Destination.atyp])
    rintro ⟨connected, h⟩
    simp only [Destination.atyp, Destination.handed, ConnectRequest.port_bytes] at h
    split at h
    · exact Served.noConfusion h
    · next host n hparse =>
      injection h with hhost hn
      rw [hhost, hn] at hparse
      exact parse_domain_ne pos _ _ _ hparse
  | ipv6 octets len =>
    refine iff_of_true ⟨connects (Destination.ipv6 octets len).host port.toNat, ?_⟩
      (by simp only [Destination.atyp]; decide)
    change (match parse_socks_address SOCKS5_ATYP_IPV6 (octets ++ [UInt8.ofNat (port.toNat / 256),
        UInt8.ofNat (port.toNat % 256)]) with
      | none => Served.malformed
      | some (host, port) => .opened host port (connects host port)) = _
    rw [parse_ipv6 len, hport]
    rfl

end Serve

/-- A connection to `localhost`, port 80. -/
def localhost_request : ConnectRequest where
  methods := [SOCKS5_NO_AUTH]
  few := by decide
  dest := .domain "localhost".toList (by decide) (by decide)
  port := 80

/-- A request by name is not served: no channel to `localhost` is asked for. -/
theorem localhost_not_opened :
    serve_socks5 (fun _ _ => true) localhost_request.bytes = .malformed ∧
      ¬ ∃ connected, serve_socks5 (fun _ _ => true) localhost_request.bytes =
        .opened "localhost".toList 80 connected := by
  have hserve : serve_socks5 (fun _ _ => true) localhost_request.bytes = .malformed := by decide
  refine ⟨hserve, fun ⟨connected, h⟩ => ?_⟩
  rw [hserve] at h
  exact nomatch h

end WaSSH.Ssh
