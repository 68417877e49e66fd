import WaSSH.Agent.Chat
import WaSSH.Lib.Feed
import WaSSH.Lib.Keyed

/-!
# Streamed replies

A provider sends a reply as events: pieces of its text, and pieces of its tool calls under their
indices. Two wire formats, one parser for each.

* `OpenAiStream`, `AnthropicStream`: the parsers;
* `Reply`, `CallPiece`, `BlockPiece`: a reply, and what an event says of its calls;
* `openai_fragments`, `anthropic_blocks`: what the parsers have gathered;
* `finish_read`: the reply as the agent reads it;
* **`streams_finish`**: both give back what was streamed.
-/

namespace WaSSH.Providers

open Std Keyed

/-- One tool call the model asked for. -/
structure ApiToolCall where
  id : String
  name : String
  arguments : String
  deriving DecidableEq, Repr

/-- What a completion produced. -/
structure Completion where
  text : String
  tool_calls : List ApiToolCall
  stop_reason : Option String
  deriving DecidableEq, Repr

/-- The id, the name and the arguments a call has so far. -/
abbrev Fragment := String × String × String

/-- What parses a payload: `serde_json::from_str`. -/
abbrev Parse := String → Option Json

/-! ## OpenAI -/

/-- Accumulates an OpenAI stream. -/
structure OpenAiStream where
  text : String := ""
  fragments : ExtTreeMap ℕ Fragment := ∅
  stop_reason : Option String := none

/-- Where an entry of `tool_calls` belongs. -/
def call_index (call : Json) : ℕ := ((call.get "index").as_u64).getD 0

/-- One entry of `tool_calls`, after those before it. -/
def add_call (fragments : ExtTreeMap ℕ Fragment) (call : Json) : ExtTreeMap ℕ Fragment :=
  fragments.alter (call_index call) fun entry =>
    let (id, name, arguments) := entry.getD ("", "", "")
    let id := match (call.get "id").as_str with
      | some given => if given = "" then id else given
      | none => id
    some (id, name ++ (call.get "function").text "name",
      arguments ++ (call.get "function").text "arguments")

namespace OpenAiStream

variable (parse : Parse)

/-- Feed one payload and return the text it added, if any. -/
def push (s : OpenAiStream) (payload : String) : OpenAiStream × Option String :=
  match parse payload with
  | none => (s, none)
  | some json =>
    let choice := (json.get "choices").item 0
    let stop_reason := match (choice.get "finish_reason").as_str with
      | some reason => if reason = "" then s.stop_reason else some reason
      | none => s.stop_reason
    let delta := choice.get "delta"
    let added := ((delta.get "content").as_str).filter (· ≠ "")
    let calls := ((delta.get "tool_calls").as_array).getD []
    (⟨s.text ++ added.getD "", calls.foldl add_call s.fragments, stop_reason⟩, added)

/-- The finished completion. -/
def finish (s : OpenAiStream) : Completion :=
  ⟨s.text,
    (s.fragments.toList.filter fun (_, _, name, _) => name ≠ "").map fun (index, id, name, arguments) =>
      ⟨if id = "" then s!"call_{index}" else id, name, arguments⟩,
    s.stop_reason⟩

end OpenAiStream

/-! ## Anthropic -/

/-- Accumulates an Anthropic stream. -/
structure AnthropicStream where
  text : String := ""
  blocks : ExtTreeMap ℕ Fragment := ∅
  stop_reason : Option String := none

namespace AnthropicStream

variable (parse : Parse)

/-- A block starts. -/
def start_block (s : AnthropicStream) (json : Json) : AnthropicStream :=
  let block := json.get "content_block"
  if (block.get "type").as_str = some "tool_use" then
    let index := call_index json
    let id := ((block.get "id").as_str).getD s!"call_{index}"
    { s with blocks := s.blocks.insert index (id, block.text "name", "") }
  else s

/-- A block goes on. -/
def extend_block (s : AnthropicStream) (json : Json) : AnthropicStream × Option String :=
  let delta := json.get "delta"
  if (delta.get "type").as_str = some "text_delta" then
    let text := delta.text "text"
    if text = "" then (s, none) else ({ s with text := s.text ++ text }, some text)
  else if (delta.get "type").as_str = some "input_json_delta" then
    match (delta.get "partial_json").as_str with
    | some more =>
      ({ s with
        blocks := s.blocks.modify (call_index json) fun (id, name, arguments) =>
          (id, name, arguments ++ more) }, none)
    | none => (s, none)
  else (s, none)

/-- Feed one payload and return the text it added, if any. -/
def push (s : AnthropicStream) (payload : String) : AnthropicStream × Option String :=
  match parse payload with
  | none => (s, none)
  | some json =>
    let kind := json.text "type"
    if kind = "content_block_start" then (s.start_block json, none)
    else if kind = "content_block_delta" then s.extend_block json
    else if kind = "message_delta" then
      match ((json.get "delta").get "stop_reason").as_str with
      | some reason => ({ s with stop_reason := some reason }, none)
      | none => (s, none)
    else (s, none)

/-- The finished completion. -/
def finish (s : AnthropicStream) : Completion :=
  ⟨s.text,
    (s.blocks.toList.filter fun (_, _, name, _) => name ≠ "").map fun (_, id, name, arguments) =>
      ⟨id, name, arguments⟩,
    s.stop_reason⟩

end AnthropicStream

/-! ## What was streamed -/

/-- A reply: its text and its calls under their indices. -/
structure Reply where
  text : String
  calls : ExtTreeMap ℕ ApiToolCall

/-- The calls that have a name, in the order of their indices. -/
def Reply.named (r : Reply) : List (ℕ × ApiToolCall) := r.calls.toList.filter (·.2.name ≠ "")

/-- The payloads as a parser takes them in: the state it comes to, and the texts it returns. -/
def run {σ : Type} (push : σ → String → σ × Option String) (s : σ) (payloads : List String) :
    σ × List String :=
  Feed.feed (fun s payload => ((push s payload).1, (push s payload).2.toList)) s payloads

/-- What an event of the OpenAI format says of a call. -/
structure CallPiece where
  index : ℕ
  id : Option String
  name : String
  arguments : String
  deriving DecidableEq

/-- An entry of `tool_calls`; without an index it is the first call's. -/
def CallPiece.read (call : Json) : CallPiece :=
  ⟨call_index call, (call.get "id").as_str, (call.get "function").text "name",
    (call.get "function").text "arguments"⟩

/-- What an event of the Anthropic format says of a call. -/
inductive BlockPiece
  | start (index : ℕ) (id : Option String) (name : String)
  | more (index : ℕ) (arguments : String)
  deriving DecidableEq

def BlockPiece.index : BlockPiece → ℕ
  | start index _ _ | more index _ => index

namespace OpenAi

variable (parse : Parse)

/-- The first choice of an event; of a payload that does not parse, nothing. -/
def delta (payload : String) : Json :=
  ((((parse payload).getD .null).get "choices").item 0).get "delta"

def content (payload : String) : String := (delta parse payload).text "content"

def pieces (payload : String) : List CallPiece :=
  ((((delta parse payload).get "tool_calls").as_array).getD []).map CallPiece.read

/-- The pieces give the call: its id once or more often, its name and its arguments in parts. -/
def Gives (pieces : List CallPiece) : Option ApiToolCall → Prop
  | none => pieces = []
  | some call =>
    pieces ≠ [] ∧ (∀ p ∈ pieces, ∀ id, p.id = some id → id = "" ∨ id = call.id) ∧
      (call.id = "" ∨ ∃ p ∈ pieces, p.id = some call.id) ∧
      String.join (pieces.map (·.name)) = call.name ∧
      String.join (pieces.map (·.arguments)) = call.arguments

/-- The payloads are a stream of the reply. -/
def Streams (r : Reply) (payloads : List String) : Prop :=
  String.join (payloads.map (content parse)) = r.text ∧
    ∀ k : ℕ, Gives ((payloads.flatMap (pieces parse)).filter (·.index = k)) r.calls[k]?

end OpenAi

namespace Anthropic

/-- The text an event adds, and what it says of a call. -/
def said (json : Json) : String × List BlockPiece :=
  let kind := json.text "type"
  let block := json.get "content_block"
  let delta := json.get "delta"
  if kind = "content_block_start" ∧ (block.get "type").as_str = some "tool_use" then
    ("", [.start (call_index json) (block.get "id").as_str (block.text "name")])
  else if kind = "content_block_delta" ∧ (delta.get "type").as_str = some "text_delta" then
    (delta.text "text", [])
  else if kind = "content_block_delta" ∧ (delta.get "type").as_str = some "input_json_delta" then
    ("", [.more (call_index json) (delta.text "partial_json")])
  else ("", [])

variable (parse : Parse)

/-- A payload that does not parse adds nothing. -/
def content (payload : String) : String := (said ((parse payload).getD .null)).1

def pieces (payload : String) : List BlockPiece := (said ((parse payload).getD .null)).2

/-- The pieces give the call: its start, then its arguments in parts. Parts of a block that is no
call are none of a call. -/
def Gives (pieces : List BlockPiece) : Option ApiToolCall → Prop
  | none => ∀ index id name, .start index id name ∉ pieces
  | some call =>
    ∃ index parts, pieces = .start index (some call.id) call.name :: parts.map (.more index) ∧
      String.join parts = call.arguments

/-- The payloads are a stream of the reply. -/
def Streams (r : Reply) (payloads : List String) : Prop :=
  String.join (payloads.map (content parse)) = r.text ∧
    ∀ k : ℕ, Gives ((payloads.flatMap (pieces parse)).filter (·.index = k)) r.calls[k]?

end Anthropic

/-! ## What is gathered -/

section Gathered

variable {parse : Parse}

/-- The text of a parser, and what it returns, if each event adds its text to both. -/
theorem run_text {σ : Type} {push : σ → String → σ × Option String} {text : σ → String}
    {content : String → String}
    (hpush : ∀ s payload, text (push s payload).1 = text s ++ content payload ∧
      (push s payload).2.getD "" = content payload) (s : σ) (payloads : List String) :
    text (run push s payloads).1 = text s ++ String.join (payloads.map content) ∧
      String.join (run push s payloads).2 = String.join (payloads.map content) := by
  induction payloads generalizing s with
  | nil => exact ⟨String.append_empty.symm, rfl⟩
  | cons payload payloads ih =>
    obtain ⟨htext, hadded⟩ := hpush s payload
    obtain ⟨hrest, hjoin⟩ := ih (push s payload).1
    have hreturned : String.join (push s payload).2.toList = content payload := by
      rw [← hadded]
      cases (push s payload).2 with
      | none => rfl
      | some added => exact String.empty_append
    unfold run at hrest hjoin ⊢
    rw [Feed.feed_cons, List.map_cons, String.join_cons]
    refine ⟨?_, ?_⟩
    · rw [hrest, htext, String.append_assoc]
    · rw [String.join_append, hjoin, hreturned]

/-- What a parser has gathered, if each event adds its pieces. -/
theorem run_gathered {σ π : Type} {push : σ → String → σ × Option String}
    {entries : σ → ExtTreeMap ℕ Fragment} {pieces : String → List π} {key : π → ℕ}
    {step : π → Option Fragment → Option Fragment}
    (hpush : ∀ s payload, entries (push s payload).1 = gather key step (entries s) (pieces payload))
    (s : σ) (payloads : List String) :
    entries (run push s payloads).1 = gather key step (entries s) (payloads.flatMap pieces) := by
  induction payloads generalizing s with
  | nil => rfl
  | cons payload payloads ih =>
    unfold run at ih ⊢
    rw [Feed.feed_cons, ih, hpush, List.flatMap_cons, gather_append]

/-- A piece of a call, after those before it. -/
def CallPiece.add (p : CallPiece) (entry : Option Fragment) : Option Fragment :=
  let (id, name, arguments) := entry.getD ("", "", "")
  let id := match p.id with
    | some given => if given = "" then id else given
    | none => id
  some (id, name ++ p.name, arguments ++ p.arguments)

theorem foldl_add_call (fragments : ExtTreeMap ℕ Fragment) (calls : List Json) :
    calls.foldl add_call fragments =
      gather CallPiece.index CallPiece.add fragments (calls.map CallPiece.read) := by
  rw [gather, List.foldl_map]
  rfl

theorem openai_push (s : OpenAiStream) (payload : String) :
    ((s.push parse payload).1.text = s.text ++ OpenAi.content parse payload ∧
      (s.push parse payload).2.getD "" = OpenAi.content parse payload) ∧
    (s.push parse payload).1.fragments =
      gather CallPiece.index CallPiece.add s.fragments (OpenAi.pieces parse payload) := by
  unfold OpenAi.content OpenAi.pieces OpenAi.delta OpenAiStream.push
  cases parse payload with
  | none => exact ⟨⟨String.append_empty.symm, rfl⟩, rfl⟩
  | some json =>
    dsimp only [Option.getD_some]
    refine ⟨?_, foldl_add_call _ _⟩
    have hadded (t : Option String) : (t.filter (· ≠ "")).getD "" = t.getD "" := by
      rcases t with _ | t
      · rfl
      · by_cases ht : t = ""
        · subst ht
          rfl
        · rw [Option.filter_some, if_pos (by simpa using ht)]
    exact ⟨by rw [hadded]; rfl, hadded _⟩

/-- A piece of a block, after those before it. -/
def BlockPiece.add (p : BlockPiece) (entry : Option Fragment) : Option Fragment :=
  match p with
  | .start index id name => some (id.getD s!"call_{index}", name, "")
  | .more _ rest => entry.map fun (id, name, arguments) => (id, name, arguments ++ rest)

/-- What an event does to the stream: it adds the text and the pieces, and returns the text. -/
def Adds (s : AnthropicStream) (pushed : AnthropicStream × Option String)
    (said : String × List BlockPiece) : Prop :=
  (pushed.1.text = s.text ++ said.1 ∧ pushed.2.getD "" = said.1) ∧
    pushed.1.blocks = gather BlockPiece.index BlockPiece.add s.blocks said.2

theorem adds_nothing {s t : AnthropicStream} (htext : t.text = s.text)
    (hblocks : t.blocks = s.blocks) : Adds s (t, none) ("", []) :=
  ⟨⟨htext.trans String.append_empty.symm, rfl⟩, hblocks⟩

theorem extend_block_more (s : AnthropicStream) {json : Json}
    (hjson : ((json.get "delta").get "type").as_str = some "input_json_delta") :
    Adds s (s.extend_block json)
      ("", [.more (call_index json) ((json.get "delta").text "partial_json")]) := by
  have hmodify (rest : String) : s.blocks.modify (call_index json)
        (fun (id, name, arguments) => (id, name, arguments ++ rest)) =
      gather BlockPiece.index BlockPiece.add s.blocks [.more (call_index json) rest] :=
    modify_eq_alter _ _ _
  have htext : ((json.get "delta").get "type").as_str ≠ some "text_delta" := by
    rw [hjson]
    decide
  unfold AnthropicStream.extend_block Json.text
  dsimp only
  rw [if_neg htext, if_pos hjson]
  cases ((json.get "delta").get "partial_json").as_str with
  | some rest => exact ⟨⟨String.append_empty.symm, rfl⟩, hmodify rest⟩
  | none =>
    refine ⟨⟨String.append_empty.symm, rfl⟩, ?_⟩
    show s.blocks = gather _ _ s.blocks [BlockPiece.more (call_index json) ""]
    rw [← hmodify]
    ext k : 1
    rw [ExtTreeMap.getElem?_modify]
    by_cases hk : compare (call_index json) k = .eq
    · rw [if_pos hk, LawfulEqOrd.eq_of_compare hk]
      cases s.blocks[k]? <;> simp
    · rw [if_neg hk]

theorem extend_block_text (s : AnthropicStream) {json : Json}
    (htext : ((json.get "delta").get "type").as_str = some "text_delta") :
    Adds s (s.extend_block json) ((json.get "delta").text "text", []) := by
  unfold AnthropicStream.extend_block
  dsimp only
  rw [if_pos htext]
  by_cases hempty : (json.get "delta").text "text" = ""
  · rw [if_pos hempty, hempty]
    exact adds_nothing rfl rfl
  · rw [if_neg hempty]
    exact ⟨⟨rfl, rfl⟩, rfl⟩

theorem start_block_adds (s : AnthropicStream) {json : Json}
    (htool : ((json.get "content_block").get "type").as_str = some "tool_use") :
    Adds s (s.start_block json, none)
      ("", [.start (call_index json) ((json.get "content_block").get "id").as_str
        ((json.get "content_block").text "name")]) := by
  unfold AnthropicStream.start_block
  dsimp only
  rw [if_pos htool]
  exact ⟨⟨String.append_empty.symm, rfl⟩, insert_eq_alter _ _ _⟩

theorem anthropic_push (s : AnthropicStream) (payload : String) :
    Adds s (s.push parse payload) (Anthropic.said ((parse payload).getD .null)) := by
  unfold AnthropicStream.push
  cases parse payload with
  | none => exact adds_nothing rfl rfl
  | some json =>
    dsimp only [Option.getD_some]
    unfold Anthropic.said
    dsimp only
    by_cases hstart : json.text "type" = "content_block_start"
    · by_cases htool : ((json.get "content_block").get "type").as_str = some "tool_use"
      · simpa [hstart, htool] using start_block_adds s htool
      · have hsame : s.start_block json = s := if_neg htool
        simpa [hstart, htool, hsame] using adds_nothing (s := s) (t := s) rfl rfl
    by_cases hmore : json.text "type" = "content_block_delta"
    · by_cases htext : ((json.get "delta").get "type").as_str = some "text_delta"
      · simpa [hmore, htext] using extend_block_text s htext
      by_cases hjson : ((json.get "delta").get "type").as_str = some "input_json_delta"
      · simpa [hmore, hjson] using extend_block_more s hjson
      · have hsame : s.extend_block json = (s, none) := by
          unfold AnthropicStream.extend_block
          dsimp only
          rw [if_neg htext, if_neg hjson]
        simpa [hmore, htext, hjson, hsame] using adds_nothing (s := s) (t := s) rfl rfl
    · rw [if_neg hstart, if_neg hmore]
      simp only [hstart, hmore, false_and, if_false]
      split
      · split
        · exact adds_nothing rfl rfl
        · exact adds_nothing rfl rfl
      · exact adds_nothing rfl rfl

/-! ## The calls -/

/-- The id of a call, from those its pieces give. -/
theorem foldl_id {c : String} : ∀ {pieces : List CallPiece} {i n a : String},
    (∀ p ∈ pieces, ∀ id, p.id = some id → id = "" ∨ id = c) →
    (i = c ∨ c ≠ "" ∧ ∃ p ∈ pieces, p.id = some c) →
    pieces.foldl (fun v p => p.add v) (some (i, n, a)) =
      some (c, n ++ String.join (pieces.map (·.name)), a ++ String.join (pieces.map (·.arguments)))
  | [], i, n, a, _, hc => by
    obtain rfl : i = c := hc.resolve_right fun ⟨_, p, hp, _⟩ => List.not_mem_nil hp
    simp
  | p :: pieces, i, n, a, hids, hc => by
    have hrest : ∀ q ∈ pieces, ∀ id, q.id = some id → id = "" ∨ id = c :=
      fun q hq => hids q (List.mem_cons_of_mem _ hq)
    have hnext (i' : String) (hadd : p.add (some (i, n, a)) = some (i', n ++ p.name, a ++ p.arguments))
        (hi' : i' = c ∨ c ≠ "" ∧ ∃ q ∈ pieces, q.id = some c) :
        (p :: pieces).foldl (fun v p => p.add v) (some (i, n, a)) =
          some (c, n ++ String.join ((p :: pieces).map (·.name)),
            a ++ String.join ((p :: pieces).map (·.arguments))) := by
      rw [List.foldl_cons, hadd, foldl_id hrest hi', List.map_cons, List.map_cons,
        String.join_cons, String.join_cons, String.append_assoc, String.append_assoc]
    have hkeep (hid : ∀ id, p.id = some id → id = "") :
        i = c ∨ c ≠ "" ∧ ∃ q ∈ pieces, q.id = some c := by
      refine hc.imp_right fun ⟨hne, q, hq, hqc⟩ => ⟨hne, q, ?_, hqc⟩
      rcases List.mem_cons.mp hq with rfl | hq
      · exact absurd (hid c hqc) hne
      · exact hq
    cases hp : p.id with
    | none =>
      refine hnext i ?_ (hkeep fun id hid => nomatch hp.symm.trans hid)
      unfold CallPiece.add
      rw [hp]
      rfl
    | some given =>
      by_cases hempty : given = ""
      · subst hempty
        refine hnext i ?_ (hkeep fun id hid => (Option.some.inj (hp.symm.trans hid)).symm)
        unfold CallPiece.add
        rw [hp]
        rfl
      · refine hnext given ?_ (.inl ((hids p List.mem_cons_self given hp).resolve_left hempty))
        unfold CallPiece.add
        rw [hp]
        show some (if given = "" then i else given, _, _) = _
        rw [if_neg hempty]

theorem openai_gives {pieces : List CallPiece} {call : Option ApiToolCall}
    (h : OpenAi.Gives pieces call) :
    pieces.foldl (fun v p => p.add v) none =
      call.map fun call => (call.id, call.name, call.arguments) := by
  cases call with
  | none =>
    obtain rfl : pieces = [] := h
    rfl
  | some call =>
    obtain ⟨hne, hids, hid, hname, harguments⟩ := h
    obtain ⟨p, pieces, rfl⟩ := List.exists_cons_of_ne_nil hne
    have hstart : (p :: pieces).foldl (fun v p => p.add v) none =
        (p :: pieces).foldl (fun v p => p.add v) (some ("", "", "")) := rfl
    have hfound : "" = call.id ∨ call.id ≠ "" ∧ ∃ q ∈ p :: pieces, q.id = some call.id := by
      by_cases hempty : call.id = ""
      · exact .inl hempty.symm
      · exact .inr ⟨hempty, hid.resolve_left hempty⟩
    rw [hstart, foldl_id hids hfound, hname, harguments, String.empty_append, String.empty_append]
    rfl

theorem foldl_more (index : ℕ) (i n : String) : ∀ (parts : List String) (a : String),
    (parts.map (BlockPiece.more index)).foldl (fun v p => p.add v) (some (i, n, a)) =
      some (i, n, a ++ String.join parts)
  | [], a => by simp
  | part :: parts, a => by
    rw [List.map_cons, List.foldl_cons]
    show (parts.map (BlockPiece.more index)).foldl _ (some (i, n, a ++ part)) = _
    rw [foldl_more index i n parts, String.join_cons, String.append_assoc]

theorem foldl_stray : ∀ {pieces : List BlockPiece},
    (∀ index id name, .start index id name ∉ pieces) →
    pieces.foldl (fun v p => p.add v) none = none
  | [], _ => rfl
  | .start index id name :: _, h => absurd List.mem_cons_self (h index id name)
  | .more _ _ :: pieces, h =>
    @foldl_stray pieces fun index id name hmem => h index id name (List.mem_cons_of_mem _ hmem)

theorem anthropic_gives {pieces : List BlockPiece} {call : Option ApiToolCall}
    (h : Anthropic.Gives pieces call) :
    pieces.foldl (fun v p => p.add v) none =
      call.map fun call => (call.id, call.name, call.arguments) := by
  cases call with
  | none => exact foldl_stray h
  | some call =>
    obtain ⟨index, parts, rfl, harguments⟩ := h
    rw [List.foldl_cons]
    show (parts.map (BlockPiece.more index)).foldl _ (some (call.id, call.name, "")) = _
    rw [foldl_more, harguments, String.empty_append]
    rfl

/-- The calls of a reply as a parser keeps them. -/
def Reply.gathered (r : Reply) : ExtTreeMap ℕ Fragment :=
  r.calls.map fun _ call => (call.id, call.name, call.arguments)

/-- The calls with a name among what a parser has gathered. -/
theorem named_gathered (r : Reply) (id : ℕ → String → String) :
    ((r.gathered.toList.filter fun (_, _, name, _) => name ≠ "").map
        fun (index, i, name, arguments) => (⟨id index i, name, arguments⟩ : ApiToolCall)) =
      r.named.map fun (index, call) => ⟨id index call.id, call.name, call.arguments⟩ := by
  unfold Reply.gathered Reply.named
  rw [ExtTreeMap.toList_map, List.filter_map, List.map_map]
  rfl

/-- The fragments an OpenAI stream of the reply leaves. -/
theorem openai_fragments {r : Reply} {payloads : List String} (h : OpenAi.Streams parse r payloads) :
    (run (OpenAiStream.push parse) {} payloads).1.fragments = r.gathered := by
  ext k : 1
  have hgathered := run_gathered (fun s payload => (@openai_push parse s payload).2) {} payloads
  rw [hgathered, getElem?_gather, Reply.gathered, ExtTreeMap.getElem?_map]
  exact openai_gives (h.2 k)

/-- The blocks an Anthropic stream of the reply leaves. -/
theorem anthropic_blocks {r : Reply} {payloads : List String}
    (h : Anthropic.Streams parse r payloads) :
    (run (AnthropicStream.push parse) {} payloads).1.blocks = r.gathered := by
  ext k : 1
  have hgathered := run_gathered (fun s payload => (@anthropic_push parse s payload).2) {} payloads
  rw [hgathered, getElem?_gather, Reply.gathered, ExtTreeMap.getElem?_map]
  exact anthropic_gives (h.2 k)

end Gathered

/-! ## The agent's side -/

/-- A call as the agent reads it. -/
def ApiToolCall.read (parse : Parse) (call : ApiToolCall) : Agent.ApiToolCall :=
  ⟨call.id, call.name, (parse call.arguments).getD .null⟩

/-- A completion as the agent reads it. -/
def Completion.read (parse : Parse) (c : Completion) : Agent.Completion :=
  ⟨c.text.toList, c.tool_calls.map (·.read parse), c.stop_reason⟩

/-- A stream as the agent's model of it has it. -/
def OpenAiStream.read (parse : Parse) (s : OpenAiStream) : Agent.OpenAiStream :=
  ⟨s.text.toList,
    s.fragments.toList.map fun (index, id, name, arguments) =>
      (index, id, name, (parse arguments).getD .null),
    s.stop_reason⟩

/-- Finishing a stream and reading it are the same in either order. -/
theorem finish_read (parse : Parse) (s : OpenAiStream) :
    (s.read parse).finish = s.finish.read parse := by
  unfold OpenAiStream.read Agent.OpenAiStream.finish OpenAiStream.finish Completion.read
  rw [List.filter_map, List.map_map, List.map_map]
  rfl

/-! ## Main result -/

/-- **However it is streamed**, both parsers give back the text, as it comes and as a whole, and the
calls in the order of their indices: those that have a name; a call without an id is named after its
index in the OpenAI format. -/
theorem streams_finish {parse : Parse} {r : Reply} {openai anthropic : List String}
    (hopenai : OpenAi.Streams parse r openai) (hanthropic : Anthropic.Streams parse r anthropic) :
    (String.join (run (OpenAiStream.push parse) {} openai).2 = r.text ∧
      (run (OpenAiStream.push parse) {} openai).1.finish.text = r.text ∧
      (run (OpenAiStream.push parse) {} openai).1.finish.tool_calls =
        r.named.map fun (index, call) =>
          ⟨if call.id = "" then s!"call_{index}" else call.id, call.name, call.arguments⟩) ∧
    (String.join (run (AnthropicStream.push parse) {} anthropic).2 = r.text ∧
      (run (AnthropicStream.push parse) {} anthropic).1.finish.text = r.text ∧
      (run (AnthropicStream.push parse) {} anthropic).1.finish.tool_calls =
        r.named.map Prod.snd) := by
  refine ⟨?_, ?_⟩
  · obtain ⟨htext, hdeltas⟩ := @run_text _ _ OpenAiStream.text _
      (fun s payload => (@openai_push parse s payload).1) {} openai
    refine ⟨hdeltas.trans hopenai.1, ?_, ?_⟩
    · exact (htext.trans String.empty_append).trans hopenai.1
    · unfold OpenAiStream.finish
      rw [openai_fragments hopenai]
      exact named_gathered r fun index id => if id = "" then s!"call_{index}" else id
  · obtain ⟨htext, hdeltas⟩ := @run_text _ _ AnthropicStream.text _
      (fun s payload => (@anthropic_push parse s payload).1) {} anthropic
    refine ⟨hdeltas.trans hanthropic.1, ?_, ?_⟩
    · exact (htext.trans String.empty_append).trans hanthropic.1
    · unfold AnthropicStream.finish
      rw [anthropic_blocks hanthropic]
      exact named_gathered r fun _ id => id

/-- An event with a text and a call. -/
def hi : String :=
  "\x7b\"choices\":[\x7b\"delta\":\x7b\"content\":\"Hi\",\"tool_calls\":[\x7b\"index\":0,\"id\":\"c\",\"function\":\x7b\"name\":\"n\",\"arguments\":\"\x7b\x7d\"\x7d\x7d]\x7d\x7d]\x7d"

/-- The events of a text and of a call. -/
def hi_text : String :=
  "\x7b\"type\":\"content_block_delta\",\"index\":0,\"delta\":\x7b\"type\":\"text_delta\",\"text\":\"Hi\"\x7d\x7d"

def hi_start : String :=
  "\x7b\"type\":\"content_block_start\",\"index\":0,\"content_block\":\x7b\"type\":\"tool_use\",\"id\":\"c\",\"name\":\"n\"\x7d\x7d"

def hi_input : String :=
  "\x7b\"type\":\"content_block_delta\",\"index\":0,\"delta\":\x7b\"type\":\"input_json_delta\",\"partial_json\":\"\x7b\x7d\"\x7d\x7d"

/-- An event with a call without a name. -/
def nameless : String :=
  "\x7b\"choices\":[\x7b\"delta\":\x7b\"tool_calls\":[\x7b\"index\":0,\"id\":\"c\"\x7d]\x7d\x7d]\x7d"

/-- What these events parse to. -/
def sample : Parse := fun payload =>
  if payload = hi then
    some (.obj [("choices", .arr [.obj [("delta", .obj [("content", .str "Hi"),
      ("tool_calls", .arr [.obj [("index", .int 0), ("id", .str "c"),
        ("function", .obj [("name", .str "n"), ("arguments", .str "\x7b\x7d")])]])])]])])
  else if payload = hi_text then
    some (.obj [("type", .str "content_block_delta"), ("index", .int 0),
      ("delta", .obj [("type", .str "text_delta"), ("text", .str "Hi")])])
  else if payload = hi_start then
    some (.obj [("type", .str "content_block_start"), ("index", .int 0),
      ("content_block", .obj [("type", .str "tool_use"), ("id", .str "c"), ("name", .str "n")])])
  else if payload = hi_input then
    some (.obj [("type", .str "content_block_delta"), ("index", .int 0),
      ("delta", .obj [("type", .str "input_json_delta"), ("partial_json", .str "\x7b\x7d")])])
  else if payload = nameless then
    some (.obj [("choices", .arr [.obj [("delta", .obj [("tool_calls",
      .arr [.obj [("index", .int 0), ("id", .str "c")]])])]])])
  else none

/-- A reply with one call. -/
def reply (name arguments text : String) : Reply :=
  ⟨text, (∅ : ExtTreeMap ℕ ApiToolCall).insert 0 ⟨"c", name, arguments⟩⟩

theorem gives_of_zero {π : Type} {gives : List π → Option ApiToolCall → Prop} {index : π → ℕ}
    {pieces : List π} {name arguments text : String} (hzero : ∀ p ∈ pieces, index p = 0)
    (hnone : gives [] none) (h : gives pieces (some ⟨"c", name, arguments⟩)) (k : ℕ) :
    gives (pieces.filter (index · = k)) (reply name arguments text).calls[k]? := by
  unfold reply
  rw [ExtTreeMap.getElem?_insert]
  cases k with
  | zero =>
    rw [if_pos compare_self, List.filter_eq_self.mpr fun p hp => decide_eq_true (hzero p hp)]
    exact h
  | succ k =>
    rw [if_neg (by simp), List.filter_eq_nil_iff.mpr fun p hp hk => by
      have := of_decide_eq_true hk
      rw [hzero p hp] at this
      omega]
    exact hnone

/-- One reply in both formats; the OpenAI stream ends with what is no event. -/
theorem streams_finish_hi :
    String.join (run (OpenAiStream.push sample) {} [hi, "?"]).2 = "Hi" ∧
      (run (AnthropicStream.push sample) {} [hi_text, hi_start, hi_input]).1.finish.text = "Hi" := by
  have hopenai : OpenAi.Streams sample (reply "n" "\x7b\x7d" "Hi") [hi, "?"] := by
    have hpieces : [hi, "?"].flatMap (OpenAi.pieces sample) = [⟨0, some "c", "n", "\x7b\x7d"⟩] := by
      decide +kernel
    refine ⟨by decide +kernel, ?_⟩
    rw [hpieces]
    exact gives_of_zero (by decide) rfl ⟨by decide, by decide, by decide, rfl, rfl⟩
  have hanthropic : Anthropic.Streams sample (reply "n" "\x7b\x7d" "Hi") [hi_text, hi_start, hi_input] := by
    have hpieces : [hi_text, hi_start, hi_input].flatMap (Anthropic.pieces sample) =
        [.start 0 (some "c") "n", .more 0 "\x7b\x7d"] := by
      decide +kernel
    refine ⟨by decide +kernel, ?_⟩
    rw [hpieces]
    exact gives_of_zero (by decide) (fun _ _ _ => List.not_mem_nil) ⟨0, ["\x7b\x7d"], rfl, rfl⟩
  have h := streams_finish hopenai hanthropic
  exact ⟨h.1.1, h.2.2.1⟩

/-- A call without a name does not come back. -/
theorem nameless_dropped : OpenAi.Streams sample (reply "" "" "") [nameless] ∧
    (run (OpenAiStream.push sample) {} [nameless]).1.finish.tool_calls ≠
      (reply "" "" "").calls.toList.map Prod.snd := by
  constructor
  · have hpieces : [nameless].flatMap (OpenAi.pieces sample) = [⟨0, some "c", "", ""⟩] := by
      decide +kernel
    refine ⟨by decide +kernel, ?_⟩
    rw [hpieces]
    exact gives_of_zero (by decide) rfl ⟨by decide, by decide, by decide, rfl, rfl⟩
  · decide +kernel

end WaSSH.Providers
