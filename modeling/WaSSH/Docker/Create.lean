import WaSSH.Lib.Shell

/-!
# The command that recreates a container

What `docker inspect` tells of a container is written out as one `docker create` command. The
command is read again the way it will be: a shell splits it into words, and docker reads the
options, the image and the arguments.

* `Document`, `recreate_command`: the description and the command written for it;
* `Invocation`, `parse_docker`, `creates`: what docker is asked for by the words;
* `writes_options`, `parse_create_given`: the options are read as they were written;
* **`creates_recreate`**: all but the arguments comes through the shell as it is.
-/

namespace WaSSH.Docker

/-! ## The description -/

structure RestartPolicy where
  name : List Char
  maximum_retry_count : ℕ
  deriving DecidableEq

/-- `HostIp`, `HostPort`. -/
structure PortEntry where
  host_ip : List Char
  host_port : List Char
  deriving DecidableEq

/-- The bindings of one port of the container. The entries may be null. -/
structure PortBinding where
  container : List Char
  entries : Option (List PortEntry)

structure Mount where
  name : List Char
  source : List Char
  destination : List Char
  rw : Bool

/-- A container's inspect output. -/
structure Document where
  name : List Char
  image : List Char
  restart_policy : RestartPolicy
  auto_remove : Bool
  privileged : Bool
  user : List Char
  working_dir : List Char
  tty : Bool
  port_bindings : List PortBinding
  mounts : List Mount
  env : List (List Char)
  labels : List (List Char × List Char)
  networks : List (List Char)
  entrypoint : List (List Char)
  cmd : List (List Char)

/-! ## The command -/

def default_socket : List Char := "/var/run/docker.sock".toList

/-- `-H unix://…` when the host uses a socket other than the default. -/
def socket_flag (socket : List Char) : List Char :=
  let socket := Text.trim socket
  if socket = [] ∨ socket = default_socket then []
  else " -H ".toList ++ Shell.quote ("unix://".toList ++ socket)

def restart_policies : List (List Char) :=
  ["always".toList, "unless-stopped".toList, "on-failure".toList]

/-- The `--restart` value for a policy name, or `none` for "not set". -/
def restart_policy_flag (policy : List Char) : Option (List Char) :=
  if Text.trim policy ∈ restart_policies then some (Text.trim policy) else none

/-- An array of the document as text. -/
def field (items : List (List Char)) : List Char := [' '].intercalate items

/-- An option without a value. -/
inductive Flag
  | auto_remove
  | privileged
  | tty
  | publish_all
  deriving DecidableEq

def Flag.word : Flag → List Char
  | auto_remove => "--rm".toList
  | privileged => "--privileged".toList
  | tty => "-t".toList
  | publish_all => "--publish-all=false".toList

/-- An option with a value. -/
inductive Valued
  | name
  | restart
  | user
  | working_dir
  | publish
  | volume
  | env
  | label
  | network
  | entrypoint
  deriving DecidableEq

def Valued.word : Valued → List Char
  | name => "--name".toList
  | restart => "--restart".toList
  | user => "-u".toList
  | working_dir => "-w".toList
  | publish => "-p".toList
  | volume => "-v".toList
  | env => "-e".toList
  | label => "--label".toList
  | network => "--network".toList
  | entrypoint => "--entrypoint".toList

/-- The option is written, if it is on. -/
def push_flag (flag : Flag) (on : Bool) : List Char := if on then ' ' :: flag.word else []

/-- The option is written with its value in quotes. -/
def push_quoted (option : Valued) (value : List Char) : List Char :=
  ' ' :: option.word ++ ' ' :: Shell.quote value

/-- The option is written, unless its value is empty. -/
def push_non_empty (option : Valued) (value : List Char) : List Char :=
  if value = [] then [] else push_quoted option value

def any_address : List Char := "0.0.0.0".toList

/-- The `-p` value of one entry. -/
def mapping (container : List Char) (entry : PortEntry) : List Char :=
  if entry.host_ip = [] ∨ entry.host_ip = any_address then
    entry.host_port ++ ':' :: container
  else entry.host_ip ++ ':' :: (entry.host_port ++ ':' :: container)

def push_binding (binding : PortBinding) : List Char :=
  match binding.entries with
  | none => []
  | some entries =>
    if entries = [] then push_flag .publish_all true ++ push_quoted .publish binding.container
    else entries.flatMap fun entry => push_quoted .publish (mapping binding.container entry)

/-- The volume's name, or the path on the host. -/
def Mount.volume (mount : Mount) : List Char :=
  if mount.name = [] then mount.source else mount.name

/-- The `-v` value. -/
def Mount.value (mount : Mount) : List Char :=
  mount.volume ++ ':' :: (mount.destination ++ if mount.rw then [] else ":ro".toList)

def default_networks : List (List Char) := ["bridge".toList, "host".toList, "none".toList]

/-- The first network that is not one of docker's own. -/
def own_network (networks : List (List Char)) : Option (List Char) :=
  networks.find? (· ∉ default_networks)

/-- The options, in the order they are written. -/
def push_options (document : Document) : List Char :=
  push_quoted .name (Text.trim_start_matches '/' document.name) ++
    ((restart_policy_flag document.restart_policy.name).toList.flatMap fun policy =>
      ' ' :: Valued.restart.word ++ ' ' :: policy) ++
    push_flag .auto_remove document.auto_remove ++
    push_flag .privileged document.privileged ++
    push_non_empty .user document.user ++
    push_non_empty .working_dir document.working_dir ++
    push_flag .tty document.tty ++
    document.port_bindings.flatMap push_binding ++
    (document.mounts.flatMap fun mount => push_quoted .volume mount.value) ++
    document.env.flatMap (push_quoted .env) ++
    (document.labels.flatMap fun label => push_quoted .label (label.1 ++ '=' :: label.2)) ++
    (own_network document.networks).toList.flatMap (push_quoted .network) ++
    push_non_empty .entrypoint (field document.entrypoint)

/-- The `docker create` command that recreates a container with the same configuration. -/
def recreate_command (socket : List Char) (document : Document) : Option (List Char) :=
  if document.image = [] then none
  else
    let cmd := field document.cmd
    some <|
      "docker".toList ++ socket_flag socket ++ " create".toList ++ push_options document ++
        ' ' :: Shell.quote document.image ++ if cmd = [] then [] else ' ' :: cmd

theorem recreate_command_getD (socket : List Char) {document : Document}
    (h : document.image ≠ []) :
    recreate_command socket document = some ((recreate_command socket document).getD []) := by
  unfold recreate_command
  rw [if_neg h]
  rfl

/-- The repository's own example. -/
def web_create : Document where
  name := "/web".toList
  image := "nginx:latest".toList
  restart_policy := ⟨"unless-stopped".toList, 0⟩
  auto_remove := false
  privileged := false
  user := "www".toList
  working_dir := "/srv".toList
  tty := true
  port_bindings := [⟨"80/tcp".toList, some [⟨[], "8080".toList⟩]⟩]
  mounts := [⟨"site".toList, [], "/srv".toList, false⟩]
  env := ["TZ=UTC".toList]
  labels := [("tier".toList, "web".toList)]
  networks := ["backend".toList]
  entrypoint := ["/docker-entrypoint.sh".toList]
  cmd := ["nginx".toList, "-g".toList, "daemon off;".toList]

/-! ## What docker reads -/

/-- An option as it is given. -/
inductive Given
  | flag (f : Flag)
  | value (option : Valued) (v : List Char)
  deriving DecidableEq

def Given.words : Given → List (List Char)
  | .flag f => [f.word]
  | .value option v => [option.word, v]

/-- What the words after `docker create` ask for. -/
structure Invocation where
  given : List Given
  image : List Char
  args : List (List Char)

def flag_of (word : List Char) : Option Flag :=
  [Flag.auto_remove, .privileged, .tty, .publish_all].find? (·.word = word)

def valued_of (word : List Char) : Option Valued :=
  [Valued.name, .restart, .user, .working_dir, .publish, .volume, .env, .label, .network,
    .entrypoint].find? (·.word = word)

/-- A word that is read as an option. -/
def is_option : List Char → Bool
  | '-' :: _ :: _ => true
  | _ => false

def Invocation.add (given : Given) (invocation : Invocation) : Invocation :=
  { invocation with given := given :: invocation.given }

/-- Options up to the first word that is none: this is the image, and the arguments follow it. An
option the command does not write is refused. -/
def parse_create : List (List Char) → Option Invocation
  | [] => none
  | word :: rest =>
    match flag_of word with
    | some flag => (parse_create rest).map (.add (.flag flag))
    | none =>
      match valued_of word with
      | some option =>
        match rest with
        | [] => none
        | value :: rest => (parse_create rest).map (.add (.value option value))
      | none => if is_option word then none else some ⟨[], word, rest⟩

/-- `docker [-H host] create …`. -/
def parse_docker : List (List Char) → Option Invocation
  | [] => none
  | docker :: words =>
    if docker ≠ "docker".toList then none
    else
      match words with
      | [] => none
      | word :: rest =>
        if word = "create".toList then parse_create rest
        else if word = "-H".toList ∧ rest[1]? = some "create".toList then
          parse_create (rest.drop 2)
        else none

/-- The value, if this option is given. -/
def Given.value_of (option : Valued) : Given → Option (List Char)
  | .flag _ => none
  | .value option' v => if option' = option then some v else none

/-- The values an option is given. -/
def Invocation.values (invocation : Invocation) (option : Valued) : List (List Char) :=
  invocation.given.filterMap (Given.value_of option)

def Invocation.has (invocation : Invocation) (f : Flag) : Bool := Given.flag f ∈ invocation.given

/-! ## What is asked for -/

/-- A port of the container and where it is reached. -/
structure PublishedPort where
  host_ip : List Char
  host_port : List Char
  container : List Char
  deriving DecidableEq

/-- What is seen in the container at a path. -/
structure Volume where
  source : List Char
  destination : List Char
  rw : Bool
  deriving DecidableEq

/-- The container that is created. -/
@[ext]
structure Created where
  name : List Char
  restart_policy : RestartPolicy
  auto_remove : Bool
  privileged : Bool
  user : List Char
  working_dir : List Char
  tty : Bool
  ports : List PublishedPort
  volumes : List Volume
  env : List (List Char)
  labels : List (List Char × List Char)
  networks : List (List Char)
  entrypoint : List (List Char)
  image : List Char
  cmd : List (List Char)

def last_part (t : List Char) : List Char := t.rtakeWhile (· ≠ ':')

def before_last (t : List Char) : List Char := (t.rdropWhile (· ≠ ':')).dropLast

/-- `[[ip:]host-port:]container`: from the end, for an address may have colons. -/
def read_publish (t : List Char) : PublishedPort :=
  ⟨before_last (before_last t), last_part (before_last t), last_part t⟩

/-- `source:destination[:mode]`, with the modes apart by commas. -/
def read_volume (t : List Char) : Option Volume :=
  match t.splitOn ':' with
  | [source, destination] =>
    if source = [] ∨ destination = [] then none else some ⟨source, destination, true⟩
  | [source, destination, mode] =>
    if source = [] ∨ destination = [] ∨ mode = [] then none
    else some ⟨source, destination, "ro".toList ∉ mode.splitOn ','⟩
  | _ => none

/-- `key[=value]`. -/
def read_label (t : List Char) : List Char × List Char := (Text.split_once '=' t).getD (t, [])

/-- A variable without a value has the one it has where docker runs. -/
def read_env (environ : List Char → Option (List Char)) (t : List Char) : Option (List Char) :=
  if '=' ∈ t then some t else (environ t).map (t ++ '=' :: ·)

/-- `name[:maximum-retry-count]`. -/
def read_restart (t : List Char) : RestartPolicy :=
  match Text.split_once ':' t with
  | none => ⟨t, 0⟩
  | some (name, count) => ⟨name, (Text.parse_usize count).getD 0⟩

def no_restart : RestartPolicy := ⟨"no".toList, 0⟩

def bridge : List Char := "bridge".toList

/-- The container docker creates. -/
def Invocation.created (environ : List Char → Option (List Char)) (invocation : Invocation) :
    Option Created :=
  ((invocation.values .volume).mapM read_volume).map fun volumes =>
    { name := (invocation.values .name).getLast?.getD []
      restart_policy := ((invocation.values .restart).getLast?.map read_restart).getD no_restart
      auto_remove := invocation.has .auto_remove
      privileged := invocation.has .privileged
      user := (invocation.values .user).getLast?.getD []
      working_dir := (invocation.values .working_dir).getLast?.getD []
      tty := invocation.has .tty
      ports := (invocation.values .publish).map read_publish
      volumes
      env := (invocation.values .env).filterMap (read_env environ)
      labels := (invocation.values .label).map read_label
      networks :=
        if invocation.values .network = [] then [bridge] else invocation.values .network
      entrypoint := (invocation.values .entrypoint).getLast?.toList
      image := invocation.image
      cmd := invocation.args }

/-- **The container a command creates**: split by a shell, read by docker. -/
def creates (environ : List Char → Option (List Char)) (command : List Char) : Option Created :=
  ((Shell.words command).bind parse_docker).bind (·.created environ)

/-! ## The options that are written -/

section Written

def Given.on (f : Flag) (b : Bool) : List Given := if b then [.flag f] else []

def Given.non_empty (option : Valued) (v : List Char) : List Given :=
  if v = [] then [] else [.value option v]

def PortBinding.given (binding : PortBinding) : List Given :=
  match binding.entries with
  | none => []
  | some entries =>
    if entries = [] then [.flag .publish_all, .value .publish binding.container]
    else entries.flatMap fun entry => [.value .publish (mapping binding.container entry)]

/-- What the command gives as options. -/
def Document.given (document : Document) : List Given :=
  [Given.value .name (Text.trim_start_matches '/' document.name)] ++
    ((restart_policy_flag document.restart_policy.name).toList.flatMap fun policy =>
      [Given.value .restart policy]) ++
    Given.on .auto_remove document.auto_remove ++
    Given.on .privileged document.privileged ++
    Given.non_empty .user document.user ++
    Given.non_empty .working_dir document.working_dir ++
    Given.on .tty document.tty ++
    document.port_bindings.flatMap PortBinding.given ++
    (document.mounts.flatMap fun mount => [Given.value .volume mount.value]) ++
    (document.env.flatMap fun entry => [Given.value .env entry]) ++
    (document.labels.flatMap fun label => [Given.value .label (label.1 ++ '=' :: label.2)]) ++
    ((own_network document.networks).toList.flatMap fun name => [Given.value .network name]) ++
    Given.non_empty .entrypoint (field document.entrypoint)

/-- The text is read as these options. -/
def Writes (t : List Char) (gs : List Given) : Prop := Shell.Spells t (gs.flatMap Given.words)

theorem writes_append {t u : List Char} {gs hs : List Given} (h : Writes t gs) (h' : Writes u hs) :
    Writes (t ++ u) (gs ++ hs) := by
  unfold Writes
  rw [List.flatMap_append]
  exact Shell.spells_append h h'

theorem writes_flatMap {α : Type} {f : α → List Char} {g : α → List Given} (xs : List α)
    (h : ∀ x ∈ xs, Writes (f x) (g x)) : Writes (xs.flatMap f) (xs.flatMap g) := by
  unfold Writes
  rw [List.flatMap_assoc]
  exact Shell.spells_flatMap h

theorem Flag.plain (f : Flag) : Shell.PlainWord f.word := by cases f <;> decide

theorem Valued.plain (option : Valued) : Shell.PlainWord option.word := by
  cases option <;> decide

theorem writes_flag (f : Flag) (b : Bool) : Writes (push_flag f b) (Given.on f b) := by
  cases b with
  | false => exact Shell.spells_nil
  | true => exact Shell.spells_plain f.plain

theorem writes_quoted (option : Valued) (v : List Char) :
    Writes (push_quoted option v) [.value option v] := by
  show Shell.Spells (' ' :: option.word ++ ' ' :: Shell.quote v) ([option.word] ++ [v])
  exact Shell.spells_append (Shell.spells_plain option.plain) (Shell.spells_quote v)

theorem writes_non_empty (option : Valued) (v : List Char) :
    Writes (push_non_empty option v) (Given.non_empty option v) := by
  unfold push_non_empty Given.non_empty
  split_ifs
  · exact Shell.spells_nil
  · exact writes_quoted option v

theorem restart_policy_flag_mem {policy flag : List Char}
    (h : restart_policy_flag policy = some flag) : flag ∈ restart_policies := by
  unfold restart_policy_flag at h
  split_ifs at h with hmem
  cases h
  exact hmem

theorem restart_policies_plain : ∀ policy ∈ restart_policies, Shell.PlainWord policy := by decide

theorem writes_restart (policy : List Char) :
    Writes ((restart_policy_flag policy).toList.flatMap fun policy =>
        ' ' :: Valued.restart.word ++ ' ' :: policy)
      ((restart_policy_flag policy).toList.flatMap fun policy => [.value .restart policy]) := by
  refine writes_flatMap _ fun flag hflag => ?_
  have hplain := restart_policies_plain flag (restart_policy_flag_mem (Option.mem_toList.mp hflag))
  show Shell.Spells (' ' :: Valued.restart.word ++ ' ' :: flag) ([Valued.restart.word] ++ [flag])
  exact Shell.spells_append (Shell.spells_plain Valued.restart.plain) (Shell.spells_plain hplain)

theorem writes_binding (binding : PortBinding) : Writes (push_binding binding) binding.given := by
  unfold push_binding PortBinding.given
  cases binding.entries with
  | none => exact Shell.spells_nil
  | some entries =>
    dsimp only
    split_ifs
    · exact writes_append (writes_flag .publish_all true) (writes_quoted .publish binding.container)
    · exact writes_flatMap _ fun _ _ => writes_quoted .publish _

/-- **The options are written so that they are read.** -/
theorem writes_options (document : Document) :
    Writes (push_options document) document.given := by
  refine writes_append ?_ (writes_non_empty _ _)
  refine writes_append ?_ (writes_flatMap _ fun _ _ => writes_quoted _ _)
  refine writes_append ?_ (writes_flatMap _ fun _ _ => writes_quoted _ _)
  refine writes_append ?_ (writes_flatMap _ fun _ _ => writes_quoted _ _)
  refine writes_append ?_ (writes_flatMap _ fun _ _ => writes_quoted _ _)
  refine writes_append ?_ (writes_flatMap _ fun _ _ => writes_binding _)
  refine writes_append ?_ (writes_flag _ _)
  refine writes_append ?_ (writes_non_empty _ _)
  refine writes_append ?_ (writes_non_empty _ _)
  refine writes_append ?_ (writes_flag _ _)
  refine writes_append ?_ (writes_flag _ _)
  exact writes_append (writes_quoted _ _) (writes_restart _)

end Written

/-! ## Reading them again -/

theorem flag_of_word (f : Flag) : flag_of f.word = some f := by cases f <;> decide

theorem flag_of_valued (option : Valued) : flag_of option.word = none := by
  cases option <;> decide

theorem valued_of_word (option : Valued) : valued_of option.word = some option := by
  cases option <;> decide

/-- No option the command writes is an image. -/
theorem options_are : (∀ f : Flag, is_option f.word = true) ∧
    ∀ option : Valued, is_option option.word = true :=
  ⟨fun f => by cases f <;> rfl, fun option => by cases option <;> rfl⟩

theorem flag_of_none {w : List Char} (h : is_option w = false) : flag_of w = none := by
  refine List.find?_eq_none.mpr fun f _ hword => ?_
  rw [← of_decide_eq_true hword, options_are.1 f] at h
  cases h

theorem valued_of_none {w : List Char} (h : is_option w = false) : valued_of w = none := by
  refine List.find?_eq_none.mpr fun option _ hword => ?_
  rw [← of_decide_eq_true hword, options_are.2 option] at h
  cases h

/-- **What is written as options is read as these.** -/
theorem parse_create_given {image : List Char} (h : is_option image = false)
    (args : List (List Char)) : ∀ gs : List Given,
      parse_create (gs.flatMap Given.words ++ image :: args) = some ⟨gs, image, args⟩
  | [] => by
    rw [List.flatMap_nil, List.nil_append, parse_create, flag_of_none h, valued_of_none h]
    dsimp only
    rw [h]
    rfl
  | .flag f :: gs => by
    rw [List.flatMap_cons, List.append_assoc]
    show parse_create (f.word :: (gs.flatMap Given.words ++ image :: args)) = _
    rw [parse_create, flag_of_word]
    dsimp only
    rw [parse_create_given h args gs]
    rfl
  | .value option v :: gs => by
    rw [List.flatMap_cons, List.append_assoc]
    show parse_create (option.word :: v :: (gs.flatMap Given.words ++ image :: args)) = _
    rw [parse_create, flag_of_valued, valued_of_word]
    dsimp only
    rw [parse_create_given h args gs]
    rfl

/-- An option is not read as an image. -/
theorem image_parse_create (ws : List (List Char)) : ∀ {invocation : Invocation},
    parse_create ws = some invocation → is_option invocation.image = false := by
  fun_induction parse_create ws with
  | case1 => exact nofun
  | case2 w rest f hf ih =>
    intro invocation h
    obtain ⟨invocation', h', rfl⟩ := Option.map_eq_some_iff.mp h
    show is_option invocation'.image = false
    exact ih h'
  | case3 => exact nofun
  | case4 w hw option hoption v rest ih =>
    intro invocation h
    obtain ⟨invocation', h', rfl⟩ := Option.map_eq_some_iff.mp h
    show is_option invocation'.image = false
    exact ih h'
  | case5 => exact nofun
  | case6 w rest hw hw' h =>
    intro invocation hinv
    cases hinv
    exact Bool.eq_false_of_not_eq_true h

/-- Whatever the words are, no option is the image. -/
theorem created_image {environ : List Char → Option (List Char)} {invocation : Invocation}
    {created : Created} (h : invocation.created environ = some created) :
    created.image = invocation.image ∧ created.cmd = invocation.args := by
  obtain ⟨volumes, _, rfl⟩ := Option.map_eq_some_iff.mp h
  exact ⟨rfl, rfl⟩

/-- The words of the command, up to the arguments. -/
def front (socket : List Char) (document : Document) : List (List Char) :=
  let socket := Text.trim socket
  (if socket = [] ∨ socket = default_socket then []
    else ["-H".toList, "unix://".toList ++ socket]) ++
    "create".toList :: (document.given.flatMap Given.words ++ [document.image])

theorem spells_front (socket : List Char) (document : Document) :
    Shell.Spells (socket_flag socket ++ " create".toList ++ push_options document ++
      ' ' :: Shell.quote document.image) (front socket document) := by
  have hcreate : Shell.Spells " create".toList ["create".toList] := Shell.spells_plain (by decide)
  have hsocket : Shell.Spells (socket_flag socket)
      (if Text.trim socket = [] ∨ Text.trim socket = default_socket then []
        else ["-H".toList, "unix://".toList ++ Text.trim socket]) := by
    unfold socket_flag
    dsimp only
    split_ifs
    · exact Shell.spells_nil
    · have hflag : Shell.Spells " -H".toList ["-H".toList] := Shell.spells_plain (by decide)
      exact Shell.spells_append hflag (Shell.spells_quote _)
  have h := Shell.spells_append (Shell.spells_append (Shell.spells_append hsocket hcreate)
    (writes_options document)) (Shell.spells_quote document.image)
  unfold front
  dsimp only
  rwa [List.append_assoc _ _ [document.image], List.append_assoc _ ["create".toList],
    List.singleton_append] at h

theorem parse_docker_create (rest : List (List Char)) :
    parse_docker ("docker".toList :: "create".toList :: rest) = parse_create rest := by
  unfold parse_docker
  dsimp only
  rw [if_neg (not_not_intro rfl)]
  rw [if_pos rfl]

theorem parse_docker_host (host : List Char) (rest : List (List Char)) :
    parse_docker ("docker".toList :: "-H".toList :: host :: "create".toList :: rest) =
      parse_create rest := by
  unfold parse_docker
  dsimp only
  rw [if_neg (not_not_intro rfl)]
  rw [if_neg (by decide), if_pos ⟨rfl, rfl⟩]
  rfl

theorem parse_docker_front (socket : List Char) (document : Document) (args : List (List Char)) :
    parse_docker ("docker".toList :: front socket document ++ args) =
      parse_create (document.given.flatMap Given.words ++ document.image :: args) := by
  have hassoc : document.given.flatMap Given.words ++ document.image :: args =
      document.given.flatMap Given.words ++ [document.image] ++ args := by
    rw [List.append_assoc, List.singleton_append]
  rw [hassoc]
  unfold front
  dsimp only
  split_ifs
  · exact parse_docker_create _
  · exact parse_docker_host _ _

/-- **What the command creates, by what a shell makes of the arguments.** -/
theorem creates_recreate {environ : List Char → Option (List Char)} {socket : List Char}
    {document : Document} {command : List Char}
    (h : recreate_command socket document = some command) :
    creates environ command = (Shell.words (field document.cmd)).bind fun args =>
      (parse_create (document.given.flatMap Given.words ++ document.image :: args)).bind
        (·.created environ) := by
  have hdocker : Shell.PlainWord "docker".toList := by decide
  have hfront := spells_front socket document
  have hwords : Shell.words command =
      (Shell.words (field document.cmd)).map ("docker".toList :: front socket document ++ ·) := by
    unfold recreate_command at h
    split_ifs at h with himage
    rw [← Option.some_inj.mp h]
    split_ifs with hcmd
    · have hw := Shell.words_of_spells hdocker hfront
      rw [hcmd, List.append_nil]
      simp only [List.append_assoc] at hw ⊢
      rw [hw]
      exact congrArg some (List.append_nil _).symm
    · rw [← Shell.words_append hdocker hfront (field document.cmd)]
      simp only [List.append_assoc]
  unfold creates
  rw [hwords, Option.bind_map, Option.bind_assoc]
  refine Option.bind_congr fun args _ => ?_
  show (parse_docker _).bind _ = _
  rw [parse_docker_front]

end WaSSH.Docker
