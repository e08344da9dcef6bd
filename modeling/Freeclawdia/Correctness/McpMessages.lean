import Freeclawdia.Tools.Mcp.Client

/-!
# `Correctness.McpMessages` — what MCP results say, and what is read of them

The members of the protocol are in camel case. `ListSchema` and `CallSchema` say which results follow it, `Destructive`,
`textOf` and `meant` what they say; nothing is said of members that the protocol does not have. The decoder looks for some
members under other names, so a result is understood exactly when those say the same (`ListRead`, `CallRead`). Without
members of the code's own: no tool is destructive, no call fails, and all blocks are texts.
-/

namespace Freeclawdia.Mcp

open Rust Serde Tools

/-! ## The protocol -/

def IsObject (j : Json) : Prop := ∃ fields, j = .object fields
def IsString (j : Json) : Prop := ∃ s, j = .string s
def IsBool (j : Json) : Prop := ∃ b, j = .bool b

/-- A member that is a string. -/
def HasString (name : String) (j : Json) : Prop := ∃ s, j.get name = some (.string s)

/-- A member that is there is such a value. -/
def MayHave (name : String) (p : Json → Prop) (j : Json) : Prop := ∀ v, j.get name = some v → p v

/-- A tool of a list. -/
structure ToolSchema (j : Json) : Prop where
  object : IsObject j
  name : HasString "name" j
  description : MayHave "description" IsString j
  inputSchema : ∃ fields, j.get "inputSchema" = some (.object fields)
  annotations : MayHave "annotations"
    (fun a => IsObject a ∧ ∀ hint ∈ ["readOnlyHint", "destructiveHint", "idempotentHint", "openWorldHint"],
      MayHave hint IsBool a) j

def toolsOf (r : Json) : List Json :=
  match r.get "tools" with
  | some (.array tools) => tools
  | _ => []

/-- A result of `tools/list`. -/
structure ListSchema (r : Json) : Prop where
  object : IsObject r
  tools : ∃ tools, r.get "tools" = some (.array tools)
  each : ∀ t ∈ toolsOf r, ToolSchema t

/-- The annotations of the tool set `destructiveHint`. -/
def Destructive (t : Json) : Prop := ∃ a, t.get "annotations" = some a ∧ a.get "destructiveHint" = some (.bool true)

/-- A block of a result. -/
inductive BlockSchema (b : Json) : Prop
  | text (tag : b.get "type" = some (.string "text")) (text : HasString "text" b)
  | image (tag : b.get "type" = some (.string "image")) (data : HasString "data" b) (mimeType : HasString "mimeType" b)
  | resource (tag : b.get "type" = some (.string "resource")) (contents : Json) (there : b.get "resource" = some contents)
      (uri : HasString "uri" contents) (mimeType : MayHave "mimeType" IsString contents)
      (body : HasString "text" contents ∨ HasString "blob" contents)

def contentOf (r : Json) : List Json :=
  match r.get "content" with
  | some (.array blocks) => blocks
  | _ => []

/-- A result of `tools/call`. -/
structure CallSchema (r : Json) : Prop where
  object : IsObject r
  content : ∃ blocks, r.get "content" = some (.array blocks)
  each : ∀ b ∈ contentOf r, BlockSchema b
  isError : MayHave "isError" IsBool r

/-- The text of a text block. -/
def textOf (b : Json) : Option String :=
  if (b.get "type").bind Json.asStr = some "text" then (b.get "text").bind Json.asStr else none

/-- What a result says: a failure with its text, or the texts in their order. -/
def meant (r : Json) : Except Tools.ToolError String :=
  let text := join "\n" ((contentOf r).filterMap textOf)
  if (r.get "isError").bind Json.asBool = some true then .error (.executionFailed text) else .ok text

/-- An answer with a result. -/
def answering (jsonrpc : String) (id : Nat) (r : Json) : Except Tools.ToolError McpResponse :=
    .ok ⟨jsonrpc, id, some r, none⟩

variable (serde : Json → String)

/-- A list is understood: its tools are listed, and the destructive ones need approval. -/
def ListMeant (r : Json) : Prop :=
  ∀ jsonrpc id, ∃ tools, readToolsList serde (answering jsonrpc id r) = .ok tools ∧
    ∀ server, List.Forall₂ (fun t w => Destructive t → ∀ params, McpToolWrapper.requiresApproval w params ≠ .never)
      (toolsOf r) (createTools server tools)

/-- A result of a call is understood. -/
def CallMeant (r : Json) : Prop := ∀ jsonrpc id, McpToolWrapper.execute serde (answering jsonrpc id r) = meant r

/-! ## What is read -/

/-- The members that are looked for in annotations have the types they are read at. -/
structure AnnotationsRead (a : Json) : Prop where
  hints : ∀ hint ∈ ["destructive_hint", "side_effects_hint", "read_only_hint"], MayHave hint IsBool a
  time : MayHave "execution_time_hint" (fun v => v = .null ∨ (decodeExecutionTimeHint v).isSome = true) a

/-- A tool is read, and as destructive if it is. -/
structure ToolRead (t : Json) : Prop where
  once : t.get "input_schema" = none
  annotations : MayHave "annotations" AnnotationsRead t
  destructive : Destructive t → ∃ a, t.get "annotations" = some a ∧ a.get "destructive_hint" = some (.bool true)

def ListRead (r : Json) : Prop := ∀ t ∈ toolsOf r, ToolRead t

/-- A block that is no text has the members of the code's record. -/
structure BlockRead (b : Json) : Prop where
  image : b.get "type" = some (.string "image") → HasString "mime_type" b
  resource : b.get "type" = some (.string "resource") →
    HasString "uri" b ∧ ∀ name ∈ ["mime_type", "text"], MayHave name (fun v => v = .null ∨ IsString v) b

/-- The blocks are read, and `is_error` says what `isError` says. -/
structure CallRead (r : Json) : Prop where
  blocks : ∀ b ∈ contentOf r, BlockRead b
  flag : (r.get "is_error" = none ∧ (r.get "isError").bind Json.asBool ≠ some true) ∨
    r.get "is_error" = some (.bool (decide ((r.get "isError").bind Json.asBool = some true)))

/-! ### Tools -/

variable {v : Json}

theorem asBool_isSome : (∃ b, v.asBool = some b) ↔ IsBool v := by
  cases v <;> simp [Json.asBool, IsBool]

variable {α : Type}

theorem nullable_isSome {decode : Decode α} :
    (∃ x, nullable decode v = some x) ↔ v = .null ∨ (decode v).isSome = true := by
  cases v with
  | null => simp [nullable]
  | _ => simp [nullable, Option.isSome_iff_exists]

variable {fields : List (String × Json)} {name : String}

theorem object_get_default {place : Nat} {dflt : α} {decode : Decode α} :
    (∃ x, withDefault [name] place dflt decode (.object fields) = some x) ↔
      MayHave name (fun v => ∃ x, decode v = some x) (.object fields) := by
  rw [withDefault_object]
  unfold MayHave
  cases (Json.object fields).get name <;> simp

variable {x : McpToolAnnotations}

theorem decodeAnnotations_iff : decodeAnnotations (.object fields) = some x ↔
      withDefault ["destructive_hint"] 0 false Json.asBool (.object fields) = some x.destructiveHint ∧
      withDefault ["side_effects_hint"] 1 false Json.asBool (.object fields) = some x.sideEffectsHint ∧
      withDefault ["read_only_hint"] 2 false Json.asBool (.object fields) = some x.readOnlyHint ∧
      withDefault ["execution_time_hint"] 3 none (nullable decodeExecutionTimeHint) (.object fields) =
        some x.executionTimeHint := by
  constructor
  · intro h
    simp only [decodeAnnotations, isStruct, if_true, Option.bind_eq_bind, Option.bind_eq_some_iff] at h
    obtain ⟨a, ha, b, hb, c, hc, d, hd, heq⟩ := h
    obtain rfl := Option.some.inj heq
    exact ⟨ha, hb, hc, hd⟩
  · rintro ⟨ha, hb, hc, hd⟩
    simp only [decodeAnnotations, isStruct, if_true, ha, hb, hc, hd, Option.bind_eq_bind, Option.bind_some]

/-- Annotations are read exactly when their members have the types. -/
theorem decodeAnnotations_isSome (fields : List (String × Json)) :
    (∃ x, decodeAnnotations (.object fields) = some x) ↔ AnnotationsRead (.object fields) := by
  have hbool : ∀ name place, (∃ x, withDefault [name] place false Json.asBool (.object fields) = some x) ↔
      MayHave name IsBool (.object fields) := by
    intro name place
    rw [object_get_default]
    simp only [MayHave, asBool_isSome]
  have htime : (∃ x, withDefault ["execution_time_hint"] 3 none (nullable decodeExecutionTimeHint) (.object fields) =
    some x) ↔
      MayHave "execution_time_hint" (fun v => v = .null ∨ (decodeExecutionTimeHint v).isSome = true) (.object fields) := by
    rw [object_get_default]
    simp only [MayHave, nullable_isSome]
  constructor
  · rintro ⟨x, hx⟩
    obtain ⟨h1, h2, h3, h4⟩ := decodeAnnotations_iff.mp hx
    refine ⟨?_, htime.mp ⟨_, h4⟩⟩
    intro hint hmem
    simp only [List.mem_cons, List.not_mem_nil, or_false] at hmem
    rcases hmem with rfl | rfl | rfl
    · exact (hbool _ 0).mp ⟨_, h1⟩
    · exact (hbool _ 1).mp ⟨_, h2⟩
    · exact (hbool _ 2).mp ⟨_, h3⟩
  · intro h
    obtain ⟨a, ha⟩ := (hbool "destructive_hint" 0).mpr (h.hints _ (by simp))
    obtain ⟨b, hb⟩ := (hbool "side_effects_hint" 1).mpr (h.hints _ (by simp))
    obtain ⟨c, hc⟩ := (hbool "read_only_hint" 2).mpr (h.hints _ (by simp))
    obtain ⟨d, hd⟩ := htime.mpr h.time
    exact ⟨⟨a, b, c, d⟩, decodeAnnotations_iff.mpr ⟨ha, hb, hc, hd⟩⟩

theorem decodeAnnotations_destructive (h : decodeAnnotations (.object fields) = some x) :
    x.destructiveHint = true ↔ (Json.object fields).get "destructive_hint" = some (.bool true) := by
  have hd := (decodeAnnotations_iff.mp h).1
  rw [withDefault_object] at hd
  cases hget : (Json.object fields).get "destructive_hint" with
  | none =>
    rw [hget] at hd
    have hfalse : false = x.destructiveHint := Option.some.inj hd
    simp [← hfalse]
  | some v =>
    rw [hget] at hd
    cases v <;> simp_all [Json.asBool]

variable {j : Json}

/-- What of a tool of the protocol is read. -/
theorem decodeTool_iff (h : ToolSchema j) :
    (∃ t, decodeTool j = some t) ↔ j.get "input_schema" = none ∧ MayHave "annotations" AnnotationsRead j := by
  obtain ⟨fields, rfl⟩ := h.object
  obtain ⟨name, hname⟩ := h.name
  obtain ⟨schema, hschema⟩ := h.inputSchema
  have hdescription : ∃ d, withDefault ["description"] 1 "" Json.asStr (.object fields) = some d := by
    rw [object_get_default]
    intro v hv
    obtain ⟨s, rfl⟩ := h.description v hv
    exact ⟨s, rfl⟩
  obtain ⟨description, hdescription⟩ := hdescription
  have hannotations : (∃ a, withDefault ["annotations"] 3 none (nullable decodeAnnotations) (.object fields) = some a) ↔
      MayHave "annotations" AnnotationsRead (.object fields) := by
    rw [object_get_default]
    unfold MayHave
    refine forall₂_congr fun v hv => ?_
    obtain ⟨⟨afields, rfl⟩, -⟩ := h.annotations v hv
    dsimp only
    rw [nullable_isSome, ← decodeAnnotations_isSome, Option.isSome_iff_exists]
    simp
  have hinput : ∀ s, withDefault ["inputSchema", "input_schema"] 2 defaultInputSchema anyJson (.object fields) = some s ↔
      (Json.object fields).get "input_schema" = none ∧ s = .object schema := by
    intro s
    unfold withDefault member
    cases hother : (Json.object fields).get "input_schema" <;> simp [hschema, hother, anyJson, eq_comm]
  rw [← hannotations]
  simp only [decodeTool, isStruct, if_true, required_object, hname, hdescription, Option.bind_eq_bind, Option.bind_some,
    Json.asStr, Option.bind_eq_some_iff, hinput]
  constructor
  · rintro ⟨t, s, ⟨hnone, -⟩, a, ha, -⟩
    exact ⟨hnone, a, ha⟩
  · rintro ⟨hnone, a, ha⟩
    exact ⟨_, _, ⟨hnone, rfl⟩, a, ha, rfl⟩

/-- A tool that was read needs approval exactly when its annotations say so under the code's name. -/
theorem decodeTool_requiresApproval (h : ToolSchema j) {t : McpTool} (ht : decodeTool j = some t) :
    t.requiresApproval = true ↔ ∃ a, j.get "annotations" = some a ∧ a.get "destructive_hint" = some (.bool true) := by
  obtain ⟨fields, rfl⟩ := h.object
  simp only [decodeTool, isStruct, if_true, Option.bind_eq_bind, Option.bind_eq_some_iff] at ht
  obtain ⟨name, -, description, -, schema, -, annotations, hann, heq⟩ := ht
  obtain rfl := Option.some.inj heq
  rw [withDefault_object] at hann
  cases hget : (Json.object fields).get "annotations" with
  | none =>
    rw [hget] at hann
    obtain rfl : none = annotations := Option.some.inj hann
    simp [McpTool.requiresApproval]
  | some a =>
    obtain ⟨⟨afields, rfl⟩, -⟩ := h.annotations a hget
    rw [hget] at hann
    obtain ⟨x, hx, rfl⟩ := Option.map_eq_some_iff.mp hann
    simp only [McpTool.requiresApproval, Option.map_some, Option.getD_some, Option.some.injEq, exists_eq_left']
    exact decodeAnnotations_destructive hx

variable {r : Json}

theorem readToolsList_iff (h : ListSchema r) (jsonrpc : String) (id : Nat) (tools : List McpTool) :
    readToolsList serde (answering jsonrpc id r) = .ok tools ↔
      List.Forall₂ (fun j t => decodeTool j = some t) (toolsOf r) tools := by
  obtain ⟨fields, rfl⟩ := h.object
  obtain ⟨items, hitems⟩ := h.tools
  have htools : toolsOf (.object fields) = items := by simp only [toolsOf, hitems]
  rw [htools, ← list_array_iff]
  have hdecode : decodeListToolsResult (.object fields) = (list decodeTool (.array items)).map .mk := by
    simp only [decodeListToolsResult, isStruct, if_true, required_object, hitems, Option.bind_some]
  simp only [readToolsList, answering, resultOf, hdecode]
  cases list decodeTool (.array items) <;> simp

/-- A list is understood exactly when its tools are read with their hints. -/
theorem listMeant_iff (h : ListSchema r) : ListMeant serde r ↔ ListRead r := by
  have happroval : ∀ (w : McpToolWrapper) params, w.requiresApproval params ≠ .never ↔ w.tool.requiresApproval = true := by
    intro w params
    unfold McpToolWrapper.requiresApproval
    split_ifs with hw <;> simp [hw]
  constructor
  · intro hmeant t ht
    obtain ⟨tools, hread, hall⟩ := hmeant "" 0
    rw [readToolsList_iff serde h] at hread
    have hwrapped := hall ""
    unfold createTools at hwrapped
    rw [List.forall₂_map_right_iff] at hwrapped
    obtain ⟨i, hi, rfl⟩ := List.mem_iff_getElem.mp ht
    have hlen := hread.length_eq
    have hdecoded := List.forall₂_iff_get.mp hread |>.2 i hi (hlen ▸ hi)
    have hneeds := List.forall₂_iff_get.mp hwrapped |>.2 i hi (hlen ▸ hi)
    simp only [List.get_eq_getElem] at hdecoded hneeds
    have hschema := h.each _ ht
    obtain ⟨honce, hann⟩ := (decodeTool_iff hschema).mp ⟨_, hdecoded⟩
    refine ⟨honce, hann, ?_⟩
    intro hdestructive
    have happ := (happroval _ .null).mp (hneeds hdestructive .null)
    exact (decodeTool_requiresApproval hschema hdecoded).mp happ
  · intro hread jsonrpc id
    have hall : ∃ tools, List.Forall₂ (fun j t => decodeTool j = some t) (toolsOf r) tools := by
      have heach : ∀ j ∈ toolsOf r, ∃ t, decodeTool j = some t := by
        intro j hj
        exact (decodeTool_iff (h.each j hj)).mpr ⟨(hread j hj).once, (hread j hj).annotations⟩
      generalize toolsOf r = items at heach
      induction items with
      | nil => exact ⟨[], .nil⟩
      | cons j items ih =>
        obtain ⟨t, ht⟩ := heach j List.mem_cons_self
        obtain ⟨ts, hts⟩ := ih fun j' hj' => heach j' (List.mem_cons_of_mem _ hj')
        exact ⟨t :: ts, .cons ht hts⟩
    obtain ⟨tools, htools⟩ := hall
    refine ⟨tools, (readToolsList_iff serde h jsonrpc id tools).mpr htools, ?_⟩
    intro server
    unfold createTools
    rw [List.forall₂_map_right_iff]
    rw [List.forall₂_iff_get] at htools ⊢
    refine ⟨htools.1, ?_⟩
    intro i h₁ h₂ hdestructive params
    rw [happroval]
    have hmem : (toolsOf r).get ⟨i, h₁⟩ ∈ toolsOf r := List.get_mem _ _
    exact (decodeTool_requiresApproval (h.each _ hmem) (htools.2 i h₁ h₂)).mpr ((hread _ hmem).destructive hdestructive)

/-! ### Blocks -/

theorem object_of_get (h : j.get name = some v) : IsObject j := by
  cases j with
  | object fields => exact ⟨fields, rfl⟩
  | _ => cases h

theorem required_string (name : String) (place : Nat) :
    (∃ s, required [name] place Json.asStr (.object fields) = some s) ↔ HasString name (.object fields) := by
  rw [required_object]
  unfold HasString
  cases hget : (Json.object fields).get name with
  | none => simp
  | some v => cases v <;> simp [Json.asStr]

theorem optional_string (name : String) (place : Nat) :
    (∃ s, optional [name] place Json.asStr (.object fields) = some s) ↔
      MayHave name (fun v => v = .null ∨ IsString v) (.object fields) := by
  have hstring : ∀ v : Json, (Json.asStr v).isSome = true ↔ IsString v := by
    intro v
    cases v <;> simp [Json.asStr, IsString]
  rw [optional_object]
  unfold MayHave
  cases hget : (Json.object fields).get name with
  | none => simp
  | some v =>
    have hv : (∃ x, nullable Json.asStr v = some x) ↔ v = .null ∨ (Json.asStr v).isSome = true := nullable_isSome
    rw [hstring] at hv
    simpa using hv

/-- A block of the protocol is read exactly when it has the members of the code's record, and its text is its text. -/
theorem decodeContentBlock_spec {b : Json} (h : BlockSchema b) :
    ((∃ x, decodeContentBlock b = some x) ↔ BlockRead b) ∧ ∀ x, decodeContentBlock b = some x → x.asText = textOf b := by
  cases h with
  | text tag text =>
    obtain ⟨fields, rfl⟩ := object_of_get tag
    obtain ⟨s, hs⟩ := text
    have hdecode : decodeContentBlock (.object fields) = some (.text s) := by
      simp only [decodeContentBlock, blockTag, tag, Option.bind_some, Json.asStr, Option.map_some, isStruct, if_true,
        required_object, hs]
    have htext : textOf (.object fields) = some s := by simp [textOf, tag, hs, Json.asStr]
    have hread : BlockRead (.object fields) := by
      constructor
      · intro himage
        simp [tag] at himage
      · intro hresource
        simp [tag] at hresource
    refine ⟨⟨fun _ => hread, fun _ => ⟨_, hdecode⟩⟩, ?_⟩
    intro x hx
    obtain rfl := Option.some.inj (hdecode.symm.trans hx)
    exact htext.symm
  | image tag data mimeType =>
    obtain ⟨fields, rfl⟩ := object_of_get tag
    obtain ⟨d, hd⟩ := (required_string "data" 0).mpr data
    have hdecode : ∀ x, decodeContentBlock (.object fields) = some x ↔
        ∃ m, required ["mime_type"] 1 Json.asStr (.object fields) = some m ∧ .image d m = x := by
      intro x
      simp only [decodeContentBlock, blockTag, tag, Option.bind_some, Json.asStr, Option.map_some, isStruct, if_true, hd,
        Option.bind_eq_bind, Option.bind_eq_some_iff, Option.some.injEq]
    have htext : textOf (.object fields) = none := by simp [textOf, tag, Json.asStr]
    constructor
    · constructor
      · rintro ⟨x, hx⟩
        obtain ⟨m, hm, -⟩ := (hdecode x).mp hx
        refine ⟨fun _ => (required_string "mime_type" 1).mp ⟨m, hm⟩, fun hresource => ?_⟩
        simp [tag] at hresource
      · intro hread
        obtain ⟨m, hm⟩ := (required_string "mime_type" 1).mpr (hread.image tag)
        exact ⟨_, (hdecode _).mpr ⟨m, hm, rfl⟩⟩
    · intro x hx
      obtain ⟨m, -, rfl⟩ := (hdecode x).mp hx
      exact htext.symm
  | resource tag contents there uri mimeType body =>
    obtain ⟨fields, rfl⟩ := object_of_get tag
    have hdecode : ∀ x, decodeContentBlock (.object fields) = some x ↔
        ∃ u, required ["uri"] 0 Json.asStr (.object fields) = some u ∧
          ∃ m, optional ["mime_type"] 1 Json.asStr (.object fields) = some m ∧
            ∃ t, optional ["text"] 2 Json.asStr (.object fields) = some t ∧ .resource u m t = x := by
      intro x
      simp only [decodeContentBlock, blockTag, tag, Option.bind_some, Json.asStr, Option.map_some, isStruct, if_true,
        Option.bind_eq_bind, Option.bind_eq_some_iff, Option.some.injEq]
    have htext : textOf (.object fields) = none := by simp [textOf, tag, Json.asStr]
    constructor
    · constructor
      · rintro ⟨x, hx⟩
        obtain ⟨u, hu, m, hm, t, ht, -⟩ := (hdecode x).mp hx
        constructor
        · intro himage
          simp [tag] at himage
        · intro _
          refine ⟨(required_string "uri" 0).mp ⟨u, hu⟩, ?_⟩
          intro name hname
          simp only [List.mem_cons, List.not_mem_nil, or_false] at hname
          rcases hname with rfl | rfl
          · exact (optional_string "mime_type" 1).mp ⟨m, hm⟩
          · exact (optional_string "text" 2).mp ⟨t, ht⟩
      · intro hread
        obtain ⟨huri, hothers⟩ := hread.resource tag
        obtain ⟨u, hu⟩ := (required_string "uri" 0).mpr huri
        obtain ⟨m, hm⟩ := (optional_string "mime_type" 1).mpr (hothers "mime_type" (by simp))
        obtain ⟨t, ht⟩ := (optional_string "text" 2).mpr (hothers "text" (by simp))
        exact ⟨_, (hdecode _).mpr ⟨u, hu, m, hm, t, ht, rfl⟩⟩
    · intro x hx
      obtain ⟨u, -, m, -, t, -, rfl⟩ := (hdecode x).mp hx
      exact htext.symm

/-! ### Results -/

/-- The blocks that are read have the texts of the result. -/
theorem decodeBlocks {blocks : List Json} (h : ∀ b ∈ blocks, BlockSchema b) :
    ((∃ content, list decodeContentBlock (.array blocks) = some content) ↔ ∀ b ∈ blocks, BlockRead b) ∧
      ∀ content, list decodeContentBlock (.array blocks) = some content →
        content.filterMap ContentBlock.asText = blocks.filterMap textOf := by
  simp only [list_array_iff]
  induction blocks with
  | nil => simp [List.forall₂_nil_left_iff]
  | cons b blocks ih =>
    obtain ⟨hread, htexts⟩ := ih fun b' hb' => h b' (List.mem_cons_of_mem _ hb')
    obtain ⟨hb, htext⟩ := decodeContentBlock_spec (h b List.mem_cons_self)
    refine ⟨⟨?_, ?_⟩, ?_⟩
    · rintro ⟨content, hcontent⟩
      obtain ⟨x, rest, hx, hrest, -⟩ := List.forall₂_cons_left_iff.mp hcontent
      rw [List.forall_mem_cons]
      exact ⟨hb.mp ⟨x, hx⟩, hread.mp ⟨rest, hrest⟩⟩
    · intro hall
      obtain ⟨hb', hrest⟩ := List.forall_mem_cons.mp hall
      obtain ⟨x, hx⟩ := hb.mpr hb'
      obtain ⟨rest, hrest⟩ := hread.mpr hrest
      exact ⟨x :: rest, .cons hx hrest⟩
    · intro content hcontent
      obtain ⟨x, rest, hx, hrest, rfl⟩ := List.forall₂_cons_left_iff.mp hcontent
      rw [List.filterMap_cons, List.filterMap_cons, htext x hx, htexts rest hrest]

/-- What a call with this result gives: the flag is read under the code's name, and so is what is in a block. -/
theorem execute_eq (h : CallSchema r) (jsonrpc : String) (id : Nat) :
    McpToolWrapper.execute serde (answering jsonrpc id r) =
      match list decodeContentBlock (.array (contentOf r)), withDefault ["is_error"] 1 false Json.asBool r with
      | some _, some true => .error (.executionFailed (join "\n" ((contentOf r).filterMap textOf)))
      | some _, some false => .ok (join "\n" ((contentOf r).filterMap textOf))
      | _, _ => .error (.externalService ("Invalid tool result: " ++ serde r)) := by
  obtain ⟨fields, rfl⟩ := h.object
  obtain ⟨blocks, hblocks⟩ := h.content
  have hcontent : contentOf (.object fields) = blocks := by simp only [contentOf, hblocks]
  have htexts := (decodeBlocks h.each).2
  rw [hcontent] at htexts ⊢
  have hdecode : decodeCallToolResult (.object fields) =
      (list decodeContentBlock (.array blocks)).bind fun content =>
        (withDefault ["is_error"] 1 false Json.asBool (.object fields)).bind fun isError => some ⟨content, isError⟩ := by
    simp only [decodeCallToolResult, isStruct, if_true, required_object, hblocks, Option.bind_some, Option.bind_eq_bind]
  simp only [McpToolWrapper.execute, readToolResult, answering, resultOf, hdecode]
  cases hlist : list decodeContentBlock (.array blocks) with
  | none => rfl
  | some content =>
    cases withDefault ["is_error"] 1 false Json.asBool (.object fields) with
    | none => rfl
    | some isError =>
      simp only [Option.bind_some, htexts content hlist]
      cases isError <;> rfl

/-- A result is understood exactly when its blocks are read and the two flags say the same. -/
theorem callMeant_iff (h : CallSchema r) : CallMeant serde r ↔ CallRead r := by
  obtain ⟨fields, rfl⟩ := h.object
  have hblocks := (decodeBlocks h.each).1
  have hflag : ∀ e, withDefault ["is_error"] 1 false Json.asBool (.object fields) = some e ↔
      ((Json.object fields).get "is_error" = none ∧ e = false) ∨ (Json.object fields).get "is_error" = some (.bool e) := by
    intro e
    rw [withDefault_object]
    cases (Json.object fields).get "is_error" with
    | none => simp [eq_comm]
    | some v => cases v <;> simp [Json.asBool]
  constructor
  · intro hmeant
    have hgives := hmeant "" 0
    rw [execute_eq serde h] at hgives
    -- The answer is no decoding error, so both parts were read.
    unfold meant at hgives
    split at hgives
    next content hlist he =>
      refine ⟨hblocks.mp ⟨content, hlist⟩, ?_⟩
      split_ifs at hgives with hfails
      rcases (hflag true).mp he with ⟨-, hno⟩ | hget
      · cases hno
      · exact .inr (by simpa [hfails] using hget)
    next content hlist he =>
      refine ⟨hblocks.mp ⟨content, hlist⟩, ?_⟩
      split_ifs at hgives with hfails
      rcases (hflag false).mp he with ⟨hnone, -⟩ | hget
      · exact .inl ⟨hnone, hfails⟩
      · exact .inr (by simpa [hfails] using hget)
    next =>
      split_ifs at hgives
      · simp at hgives
  · intro hread jsonrpc id
    obtain ⟨content, hlist⟩ := hblocks.mpr hread.blocks
    rw [execute_eq serde h, hlist]
    unfold meant
    by_cases hfails : ((Json.object fields).get "isError").bind Json.asBool = some true
    · have he : withDefault ["is_error"] 1 false Json.asBool (.object fields) = some true := by
        rw [hflag]
        rcases hread.flag with ⟨-, hno⟩ | hget
        · exact absurd hfails hno
        · exact .inr (by simpa [hfails] using hget)
      rw [he, if_pos hfails]
    · have he : withDefault ["is_error"] 1 false Json.asBool (.object fields) = some false := by
        rw [hflag]
        rcases hread.flag with ⟨hnone, -⟩ | hget
        · exact .inl ⟨hnone, rfl⟩
        · exact .inr (by simpa [hfails] using hget)
      rw [he, if_neg hfails]

/-- **What MCP results mean**: a list and the result of a call are understood exactly when the members under the code's
    names say what the protocol's members say. -/
theorem results_meant_iff (r : Json) :
    (ListSchema r → (ListMeant serde r ↔ ListRead r)) ∧ (CallSchema r → (CallMeant serde r ↔ CallRead r)) :=
  ⟨listMeant_iff serde, callMeant_iff serde⟩

/-! ### Messages of the protocol -/

/-- A result with a text block. -/
def textResult (text : String) (isError : Bool) : Json :=
  .object [("content", .array [.object [("type", .string "text"), ("text", .string text)]]), ("isError", .bool isError)]

theorem textResult_schema (text : String) (isError : Bool) : CallSchema (textResult text isError) := by
  refine ⟨⟨_, rfl⟩, ⟨_, rfl⟩, ?_, ?_⟩
  · intro b hb
    obtain rfl := List.mem_singleton.mp hb
    exact .text rfl ⟨text, rfl⟩
  · intro v hv
    exact ⟨isError, (Option.some.inj hv).symm⟩

theorem plain_text_meant : CallMeant (fun _ => "") (textResult "done" false) := by
  refine ((results_meant_iff (fun _ => "") (textResult "done" false)).2 (textResult_schema _ _)).mpr ⟨?_, .inl ⟨rfl, ?_⟩⟩
  · intro b hb
    obtain rfl := List.mem_singleton.mp hb
    constructor <;> intro h <;> simp [Json.get] at h
  · simp [textResult, Json.get, Json.asBool]

/-- A list with a destructive tool. -/
def destructiveList : Json :=
  .object [("tools", .array [.object [("name", .string "delete_all"), ("inputSchema", .object []),
    ("annotations", .object [("destructiveHint", .bool true)])]])]

theorem destructiveList_schema : ListSchema destructiveList := by
  refine ⟨⟨_, rfl⟩, ⟨_, rfl⟩, ?_⟩
  intro t ht
  obtain rfl := List.mem_singleton.mp ht
  refine ⟨⟨_, rfl⟩, ⟨"delete_all", rfl⟩, ?_, ⟨_, rfl⟩, ?_⟩
  · intro v hv
    cases hv
  · intro a ha
    obtain rfl := Option.some.inj ha
    refine ⟨⟨_, rfl⟩, ?_⟩
    intro hint hmem v hv
    simp only [List.mem_cons, List.not_mem_nil, or_false] at hmem
    rcases hmem with rfl | rfl | rfl | rfl <;> simp_all [Json.get, IsBool]

/-- A destructive tool that needs no approval, and a failure that is taken for a success. -/
theorem hints_are_missed :
    (ListSchema destructiveList ∧ ¬ ListMeant (fun _ => "") destructiveList) ∧
      (CallSchema (textResult "boom" true) ∧ ¬ CallMeant (fun _ => "") (textResult "boom" true)) := by
  refine ⟨⟨destructiveList_schema, ?_⟩, ⟨textResult_schema _ _, ?_⟩⟩
  · rw [listMeant_iff _ destructiveList_schema]
    intro hread
    obtain ⟨a, ha, hget⟩ := (hread _ List.mem_cons_self).destructive ⟨_, rfl, rfl⟩
    obtain rfl := Option.some.inj ha
    cases hget
  · rw [callMeant_iff _ (textResult_schema _ _)]
    intro hread
    rcases hread.flag with ⟨-, hno⟩ | hget
    · exact hno rfl
    · cases hget

end Freeclawdia.Mcp
