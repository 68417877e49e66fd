import WaSSH.Docker.Commands

/-!
# A container to create, read again

What docker reads in the line of `run_command`, beside what the form says.

* `RunRequest.wanted_reference`, `entries`: what the form says;
* `RunRequest.Told`: docker is told all of it;
* `RunRequest.Fits`: no entry of the form is left out or changed;
* **`run_command_iff`**: docker is told all of it where the form fits.
-/

namespace WaSSH.Docker

open Shell

/-! ## What the form says -/

/-- A tag stands behind the last slash, a digest behind an `@`. -/
def carries_tag (image : List Char) : Bool := ':' ∈ image.rtakeWhile (· ≠ '/') ∨ '@' ∈ image

/-- The image, with a tag where it has none of its own. -/
def RunRequest.wanted_reference (request : RunRequest) : List Char :=
  if carries_tag (Text.trim request.image) then Text.trim request.image else request.reference

/-- The entries that are not blank. -/
def entries (ts : List (List Char)) : List (List Char) := (ts.map Text.trim).filter (· ≠ [])

/-- The policy of a container with no other. -/
def no_policy : List Char := "no".toList

/-- Everything in the form is among what docker is told, once and in order. -/
structure RunRequest.Told (request : RunRequest) (items : List Flags.Item) : Prop where
  image : Flags.operands items = request.wanted_reference :: leading (Text.trim request.command)
  name : Flags.values "name".toList items = entries [request.name]
  network : Flags.values "network".toList items = entries [request.network]
  restart : (Flags.values "restart".toList items).headD no_policy =
    (entries [request.restart_policy]).headD no_policy
  ports : Flags.values ['p'] items = entries request.ports
  env : Flags.values ['e'] items = entries request.env
  volumes : Flags.values ['v'] items = entries request.volumes
  auto_remove : Flags.Item.flag "rm".toList ∈ items ↔ request.auto_remove
  detach : Flags.Item.flag ['d'] ∈ items ↔ request.detach

/-- Docker runs a container, and is told everything in the form. -/
def Client.Runs (client : Client) (socket : List Char) (request : RunRequest) : Prop :=
  ∃ items, client.read (leading (run_command socket request)) =
    some ⟨(host_given socket).map Flags.Given.item, ["run".toList], items⟩ ∧ request.Told items

/-! ## What is left out -/

/-- The entries that only docker emits. -/
def AllSafe (ts : List (List Char)) : Prop := ∀ t ∈ entries ts, is_safe_name t

/-- A form whose entries all go in as they are. -/
structure RunRequest.Fits (request : RunRequest) : Prop where
  image : carries_tag (Text.trim request.image) = false
  reference : Flags.option_like request.reference = false
  name : AllSafe [request.name]
  network : AllSafe [request.network]
  restart : ∀ t ∈ entries [request.restart_policy], t = no_policy ∨ t ∈ restart_policies
  ports : AllSafe request.ports
  volumes : AllSafe request.volumes
  detach : request.detach

/-- The entries that go in. -/
def safe_entries (ts : List (List Char)) : List (List Char) :=
  (ts.map Text.trim).filter fun t => t ≠ [] ∧ is_safe_name t

theorem safe_entries_eq_iff (ts : List (List Char)) : safe_entries ts = entries ts ↔ AllSafe ts := by
  have hfilter : safe_entries ts = (entries ts).filter (is_safe_name ·) := by
    unfold safe_entries entries
    rw [List.filter_filter]
    refine List.filter_congr fun t _ => ?_
    rw [Bool.eq_iff_iff, Bool.and_eq_true, decide_eq_true_eq, decide_eq_true_eq, and_comm]
  rw [hfilter, List.filter_eq_self]
  rfl

theorem safe_entries_singleton (t : List Char) :
    safe_entries [t] = if is_safe_name (Text.trim t) then [Text.trim t] else [] := by
  have hne : is_safe_name (Text.trim t) → Text.trim t ≠ [] := by
    intro h hnil
    rw [hnil] at h
    cases h
  unfold safe_entries
  rw [List.map_singleton, List.filter_cons, List.filter_nil]
  by_cases h : is_safe_name (Text.trim t)
  · rw [if_pos h, if_pos (decide_eq_true ⟨hne h, h⟩)]
  · rw [if_neg h, if_neg fun hp => h (of_decide_eq_true hp).2]

/-- A reference of the program never is an image with a tag of its own. -/
theorem wanted_reference_iff (request : RunRequest) :
    request.reference = request.wanted_reference ↔
      carries_tag (Text.trim request.image) = false := by
  unfold RunRequest.wanted_reference
  rw [← Bool.not_eq_true]
  split_ifs with h
  · refine iff_of_false (fun heq => ?_) (not_not_intro h)
    have hlength := congrArg List.length heq
    unfold RunRequest.reference at hlength
    dsimp only at hlength
    split_ifs at hlength
    · rw [List.length_append] at hlength
      exact absurd (Nat.left_eq_add.mp hlength.symm) (by decide)
    · rw [List.append_assoc, List.length_append, List.length_append] at hlength
      have hcolon : ":".toList.length = 1 := rfl
      omega
  · exact iff_of_true rfl h

/-! ## What docker reads -/

theorem values_option_if (name : List Char) (b : Bool) (g : Flags.Given) :
    Flags.values name ((Request.option_if b g).map Flags.Given.item) =
      if b then Flags.values name [g.item] else [] := by
  cases b <;> rfl

theorem values_each_safe (n : List Char) (c : Char) (ts : List (List Char)) (p : List Char → Prop)
    [DecidablePred p] :
    Flags.values n ((ts.flatMap fun t => Request.option_if (p t) (.letter_value c t)).map
      Flags.Given.item) = if [c] = n then ts.filter (p ·) else [] := by
  induction ts with
  | nil => exact (ite_self _).symm
  | cons t ts ih =>
    have hvalue := Flags.values_option n [c] t
    rw [List.flatMap_cons, List.map_append, Flags.values_append, ih, values_option_if]
    change (if decide (p t) then Flags.values n [.option [c] t] else []) ++ _ = _
    by_cases hn : [c] = n
    · rw [if_pos hn] at hvalue
      rw [if_pos hn, if_pos hn, List.filter_cons, hvalue]
      split_ifs <;> rfl
    · rw [if_neg hn] at hvalue
      rw [if_neg hn, if_neg hn, List.append_nil, hvalue, ite_self]

theorem values_safe (n m t : List Char) :
    Flags.values n ((Request.option_if (is_safe_name (Text.trim t))
      (.name_value m (Text.trim t))).map Flags.Given.item) =
        if m = n then safe_entries [t] else [] := by
  rw [values_option_if, safe_entries_singleton]
  change (if _ then Flags.values n [.option m (Text.trim t)] else []) = _
  rw [Flags.values_option]
  split_ifs <;> rfl

theorem values_policy (n policy : List Char) :
    Flags.values n (((restart_policy_flag policy).elim [] fun policy =>
      [.name_value "restart".toList policy]).map Flags.Given.item) =
        if "restart".toList = n then (restart_policy_flag policy).toList else [] := by
  cases restart_policy_flag policy with
  | none => exact (ite_self _).symm
  | some policy => exact Flags.values_option n _ policy

/-- The values docker reads in the options of the line. -/
theorem values_run (n : List Char) (request : RunRequest) :
    Flags.values n ((Request.run_given request).map Flags.Given.item) =
      (if "restart".toList = n then (restart_policy_flag request.restart_policy).toList else []) ++
      (if "network".toList = n then safe_entries [request.network] else []) ++
      (if "name".toList = n then safe_entries [request.name] else []) ++
      (if ['p'] = n then safe_entries request.ports else []) ++
      (if ['e'] = n then entries request.env else []) ++
      (if ['v'] = n then safe_entries request.volumes else []) := by
  have hflags : Flags.values n ((Flags.Given.letter 'd' ::
      Request.option_if request.auto_remove (.name "rm".toList)).map Flags.Given.item) = [] := by
    cases request.auto_remove <;> rfl
  unfold Request.run_given
  simp only [List.map_append, List.append_assoc, ← List.cons_append]
  rw [Flags.values_append, hflags, List.nil_append]
  simp only [Flags.values_append, values_policy, values_safe]
  rw [values_each_safe n 'p', values_each_safe n 'e' _ (fun entry => entry ≠ []), values_each_safe n 'v']
  rfl

/-- The options without a value that docker reads in the line. -/
theorem flag_mem_run (n : List Char) (request : RunRequest) :
    Flags.Item.flag n ∈ (Request.run_given request).map Flags.Given.item ↔
      n = ['d'] ∨ (request.auto_remove ∧ n = "rm".toList) := by
  rw [List.mem_map]
  constructor
  · rintro ⟨g, hg, hn⟩
    rcases mem_run_given hg with rfl | ⟨hremove, rfl⟩ | ⟨_, _, _, rfl⟩ | ⟨_, _, _, rfl⟩
    · exact .inl (Flags.Item.flag.inj hn).symm
    · exact .inr ⟨hremove, (Flags.Item.flag.inj hn).symm⟩
    · cases hn
    · cases hn
  · rintro (rfl | ⟨hremove, rfl⟩)
    · exact ⟨.letter 'd', List.mem_cons_self, rfl⟩
    · refine ⟨.name "rm".toList, List.mem_cons_of_mem _ ?_, rfl⟩
      simp only [List.append_assoc]
      refine List.mem_append_left _ ?_
      rw [hremove]
      exact List.mem_singleton_self _

theorem told_restart_iff (policy : List Char) :
    (restart_policy_flag policy).toList.headD no_policy = (entries [policy]).headD no_policy ↔
      ∀ t ∈ entries [policy], t = no_policy ∨ t ∈ restart_policies := by
  have hentries : entries [policy] = if Text.trim policy = [] then [] else [Text.trim policy] := by
    unfold entries
    rw [List.map_singleton, List.filter_cons, List.filter_nil]
    split_ifs with h h' <;> simp_all
  rw [hentries]
  unfold restart_policy_flag
  by_cases hblank : Text.trim policy = []
  · rw [if_pos hblank, hblank, if_neg (by decide)]
    exact ⟨fun _ => nofun, fun _ => rfl⟩
  · rw [if_neg hblank, List.forall_mem_singleton]
    by_cases hpolicy : Text.trim policy ∈ restart_policies
    · rw [if_pos hpolicy]
      exact ⟨fun _ => .inr hpolicy, fun _ => rfl⟩
    · rw [if_neg hpolicy]
      constructor
      · exact fun h => .inl h.symm
      · exact fun h => (h.resolve_right hpolicy).symm

/-- The items docker reads in a line whose reference it takes for an operand. -/
def RunRequest.items (request : RunRequest) : List Flags.Item :=
  (Request.run_given request).map Flags.Given.item ++
    (request.reference :: leading (Text.trim request.command)).map .operand

theorem values_items (n : List Char) (request : RunRequest) : Flags.values n request.items =
    Flags.values n ((Request.run_given request).map Flags.Given.item) := by
  unfold RunRequest.items
  rw [Flags.values_append, Flags.values_words, List.append_nil]

theorem flag_mem_items (n : List Char) (request : RunRequest) :
    Flags.Item.flag n ∈ request.items ↔ n = ['d'] ∨ (request.auto_remove ∧ n = "rm".toList) := by
  unfold RunRequest.items
  rw [List.mem_append, flag_mem_run, or_iff_left (Flags.flag_not_mem_words n _)]

/-- All of the form is told in the items of the line where nothing is left out of them. -/
theorem told_iff (request : RunRequest) : request.Told request.items ↔
    carries_tag (Text.trim request.image) = false ∧ AllSafe [request.name] ∧
      AllSafe [request.network] ∧
      (∀ t ∈ entries [request.restart_policy], t = no_policy ∨ t ∈ restart_policies) ∧
      AllSafe request.ports ∧ AllSafe request.volumes ∧ request.detach := by
  have hoperands : Flags.operands request.items =
      request.reference :: leading (Text.trim request.command) := by
    unfold RunRequest.items
    rw [Flags.operands_append, Flags.operands_givens, Flags.operands_words, List.nil_append]
  have himage : Flags.operands request.items =
      request.wanted_reference :: leading (Text.trim request.command) ↔
        carries_tag (Text.trim request.image) = false := by
    rw [hoperands, List.cons.injEq, and_iff_left rfl, wanted_reference_iff]
  have hname : Flags.values "name".toList request.items = safe_entries [request.name] := by
    rw [values_items, values_run]
    simp +decide
  have hnetwork : Flags.values "network".toList request.items = safe_entries [request.network] := by
    rw [values_items, values_run]
    simp +decide
  have hrestart : Flags.values "restart".toList request.items =
      (restart_policy_flag request.restart_policy).toList := by
    rw [values_items, values_run]
    simp +decide
  have hports : Flags.values ['p'] request.items = safe_entries request.ports := by
    rw [values_items, values_run]
    simp +decide
  have henv : Flags.values ['e'] request.items = entries request.env := by
    rw [values_items, values_run]
    simp +decide
  have hvolumes : Flags.values ['v'] request.items = safe_entries request.volumes := by
    rw [values_items, values_run]
    simp +decide
  have hremove : Flags.Item.flag "rm".toList ∈ request.items ↔ request.auto_remove := by
    rw [flag_mem_items, or_iff_right (by decide), and_iff_left rfl]
  have hdetach : Flags.Item.flag ['d'] ∈ request.items := (flag_mem_items _ _).mpr (.inl rfl)
  constructor
  · intro h
    refine ⟨himage.mp h.image, (safe_entries_eq_iff _).mp (hname.symm.trans h.name),
      (safe_entries_eq_iff _).mp (hnetwork.symm.trans h.network), ?_,
      (safe_entries_eq_iff _).mp (hports.symm.trans h.ports),
      (safe_entries_eq_iff _).mp (hvolumes.symm.trans h.volumes), h.detach.mp hdetach⟩
    rw [← told_restart_iff, ← hrestart]
    exact h.restart
  · rintro ⟨hi, hn, hw, hr, hp, hv, hd⟩
    exact {
      image := himage.mpr hi
      name := hname.trans ((safe_entries_eq_iff _).mpr hn)
      network := hnetwork.trans ((safe_entries_eq_iff _).mpr hw)
      restart := by
        rw [hrestart]
        exact (told_restart_iff _).mpr hr
      ports := hports.trans ((safe_entries_eq_iff _).mpr hp)
      env := henv
      volumes := hvolumes.trans ((safe_entries_eq_iff _).mpr hv)
      auto_remove := hremove
      detach := iff_of_true hdetach hd }

/-- **Docker is told everything in the form where the form fits.** -/
theorem run_command_iff {client : Client} {request : RunRequest}
    (hknows : client.Knows (.run request)) (socket : List Char) :
    client.Runs socket request ↔ request.Fits := by
  have hline : (Request.run request).line socket = some (run_command socket request) := rfl
  have hread := Client.read_request hknows socket (leading (Text.trim request.command))
  rw [hknows.stops request rfl] at hread
  have hrun : client.read (leading (run_command socket request)) =
      (Flags.read (client.table ["run".toList]) true
        (request.reference :: leading (Text.trim request.command))).map fun items =>
          ⟨(host_given socket).map Flags.Given.item, ["run".toList],
            (Request.run_given request).map Flags.Given.item ++ items⟩ := by
    rw [(Request.words_line hline).1]
    exact hread
  unfold Client.Runs
  rw [hrun]
  constructor
  · rintro ⟨items, hcall, htold⟩
    obtain ⟨more, hmore, heq⟩ := Option.map_eq_some_iff.mp hcall
    have hitems : (Request.run_given request).map Flags.Given.item ++ more = items :=
      congrArg Call.items heq
    have hreference : Flags.option_like request.reference = false := by
      rw [← Bool.not_eq_true]
      intro hlike
      -- an option is no operand, and the image is one more than the words behind it
      have hlength := (Flags.length_operands_read hmore).2 hlike
      have himage := htold.image
      rw [← hitems, Flags.operands_append, Flags.operands_givens, List.nil_append] at himage
      rw [himage, List.length_cons, List.length_cons, Nat.add_sub_cancel] at hlength
      exact absurd hlength (Nat.not_succ_le_self _)
    have hwords := (Flags.read_stops hreference _).symm.trans hmore
    rw [← hitems, ← Option.some.inj hwords] at htold
    obtain ⟨hi, hn, hw, hr, hp, hv, hd⟩ := (told_iff request).mp htold
    exact ⟨hi, hreference, hn, hw, hr, hp, hv, hd⟩
  · intro h
    rw [Flags.read_stops h.reference]
    exact ⟨_, rfl, (told_iff request).mpr ⟨h.image, h.name, h.network, h.restart, h.ports,
      h.volumes, h.detach⟩⟩

/-- A form with one entry of each kind. -/
def web_form : RunRequest where
  image := "nginx ".toList
  tag := "1.25".toList
  name := "web".toList
  command := "nginx -g 'daemon off;'".toList
  ports := ["8080:80".toList, " ".toList]
  env := ["MODE=it's on".toList]
  volumes := ["/srv/www:/www:ro".toList]
  restart_policy := "always".toList
  network := "front".toList
  detach := true
  auto_remove := false

theorem web_form_runs : docker.Runs [] web_form :=
  (run_command_iff (docker_knows nofun) []).mpr {
    image := by decide +kernel
    reference := by decide +kernel
    name := by
      unfold AllSafe
      decide +kernel
    network := by
      unfold AllSafe
      decide +kernel
    restart := by decide +kernel
    ports := by
      unfold AllSafe
      decide +kernel
    volumes := by
      unfold AllSafe
      decide +kernel
    detach := rfl }

/-- A volume with a blank in its path. -/
def files_form : RunRequest := { web_form with volumes := ["/srv/my files:/www".toList] }

/-- The volume with a blank is left out. -/
theorem files_form_left_out : ¬ ∀ (socket : List Char) (request : RunRequest),
    docker.Runs socket request := by
  intro h
  obtain ⟨items, hread, htold⟩ := h [] files_form
  have hnone : (docker.read (leading (run_command [] files_form))).map
      (fun call => Flags.values ['v'] call.items) = some [] := by
    decide +kernel
  rw [hread] at hnone
  have hvolumes := htold.volumes.symm.trans (Option.some.inj hnone)
  revert hvolumes
  decide +kernel

end WaSSH.Docker
