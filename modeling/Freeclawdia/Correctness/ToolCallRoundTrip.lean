import Freeclawdia.Llm.ToolCallText

/-!
# `Correctness.ToolCallRoundTrip` — tool calls through text and back

Flattening writes each call on a line of its own, in brackets. Stripping looks for the first bracket before a line break
and so finds the end of every call; the line break goes with it. Recovering looks for the last bracket of the whole text:
from several calls it makes one (`recoverBracketed_lines`). Before that it reads what stands between tags, also in a name
or in arguments, so a single call comes back alone when no tags of the text enclose a call (`recoverTagged_eq_self_iff`).
-/

namespace Freeclawdia

open Rust Search

/-- A text with nothing in it that starts a tool call. -/
def NoMarkers (text : String) : Prop :=
  ¬bracketMarker <:+: text.toList ∧ ∀ tags ∈ toolCallTags, ¬tags.1 <:+: text.toList

/-- The content that flattening gives an assistant message of the list. -/
def flattenedContent (json : SerdeJson) (messages : List ChatMessage) (i : Nat) : Option String :=
  (flattenToolMessages (messages.map (.ofChatMessage json)))[i]?.bind ChatCompletionMessage.content

/-- What comes before the calls: the text on lines of its own. -/
def leadText (text : String) : String := if text = "" then "" else text ++ "\n"

/-- The calls as they stand in the content. -/
def bracketLines (json : SerdeJson) (calls : List ToolCall) : String :=
  Rust.join "\n" (calls.map fun c => bracketCall ⟨c.id, c.name, json.encode c.arguments⟩)

/-- Recovering gives back the calls, and stripping removes the brackets, with the line break that ends their line, and
    nothing else. -/
structure RoundTrip (json : SerdeJson) (content text : String) (calls : List ToolCall) (tools : List ToolDefinition) :
    Prop where
  recovered : (recoverToolCallsFromContent json content tools).map (fun c => (c.name, c.arguments)) =
    calls.map fun c => (c.name, c.arguments)
  stripped : stripBracketToolCalls content = leadText text
  followed : ∀ further, NoMarkers further →
    stripBracketToolCalls (content ++ "\n" ++ further) = leadText text ++ further

/-! ## When calls come back -/

/-- What stands between tags of one kind, read from left to right. -/
def enclosed (tags : List Char × List Char) : (fuel : Nat) → List Char → List String
  | 0, _ => []
  | fuel + 1, text =>
    match splitFirst tags.1 text with
    | none => []
    | some (_, after) =>
      match splitFirst tags.2 after with
      | none => []
      | some (inner, rest) => trim (String.ofList inner) :: enclosed tags fuel rest

/-- Is it the name of a tool, or JSON with one? -/
def namesTool (json : SerdeJson) (toolNames : List String) (inner : String) : Bool :=
  inner ≠ "" && (toolNames.contains inner ||
    ((json.decode inner).bind fun parsed => (parsed.get "name").bind Json.asStr).any toolNames.contains)

/-- Some tags of the content enclose a call. -/
def spellsCall (json : SerdeJson) (tools : List ToolDefinition) (content : String) : Bool :=
  toolCallTags.any fun tags => (enclosed tags (content.toList.length + 1) content.toList).any
    (namesTool json (tools.map ToolDefinition.name))

/-- The first bracket before a line break is not in the name, or the rest of the name makes a marker with the backtick
    behind it. -/
def EndsLine (name : String) : Prop :=
  ∀ u v, splitFirst [']', '\n'] name.toList = some (u, v) → v = bracketMarker.dropLast

/-- One call, in a content without others, and a name that stripping finds the end of. -/
def ComesBack (json : SerdeJson) (content : String) (calls : List ToolCall) (tools : List ToolDefinition) : Prop :=
  (∃ c, calls = [c] ∧ EndsLine c.name) ∧ spellsCall json tools content = false

/-! ## Flattening -/

theorem join_cons_cons (sep s t : String) (rest : List String) :
    Rust.join sep (s :: t :: rest) = s ++ sep ++ Rust.join sep (t :: rest) := rfl

variable {calls : List ToolCall} {text : String}

theorem flattenedContent_eq (json : SerdeJson) {messages : List ChatMessage} {i : Nat}
    (hm : messages[i]? = some (.assistantWithToolCalls (some text) calls)) (hne : calls ≠ [])
    (htool : ∃ m ∈ messages, m.role = .tool) :
    flattenedContent json messages i = some (leadText text ++ bracketLines json calls) := by
  have hany : (messages.map (ChatCompletionMessage.ofChatMessage json)).any (fun m => m.role = .tool) = true := by
    obtain ⟨m, hmem, hrole⟩ := htool
    simp only [List.any_map, List.any_eq_true, Function.comp_apply, decide_eq_true_eq]
    exact ⟨m, hmem, hrole⟩
  obtain ⟨c, cs, rfl⟩ := List.exists_cons_of_ne_nil hne
  rw [flattenedContent, flattenToolMessages, if_pos hany]
  simp only [List.getElem?_map, hm, Option.map_some, Option.bind_some]
  by_cases htext : text = ""
  · subst htext
    simp [ChatMessage.assistantWithToolCalls, ChatCompletionMessage.ofChatMessage, flattenMessage, leadText,
      bracketLines, Function.comp_def]
  · simp [ChatMessage.assistantWithToolCalls, ChatCompletionMessage.ofChatMessage, flattenMessage, leadText,
      bracketLines, htext, Function.comp_def, join_cons_cons]

theorem marker_cons : ∃ p, bracketMarker = '[' :: p ∧ '[' ∉ p := by
  unfold bracketMarker
  exact ⟨_, rfl, by decide⟩

theorem marker_concat : bracketMarker = bracketMarker.dropLast ++ ['`'] ∧ ']' ∉ bracketMarker.dropLast ∧
    '`' ∉ bracketMarker.dropLast := by
  unfold bracketMarker
  decide

theorem lineBreak_not_mem_argumentsMarker : '\n' ∉ argumentsMarker := by
  unfold argumentsMarker
  decide

theorem backtick_mem_marker : '`' ∈ bracketMarker := by
  unfold bracketMarker
  decide

/-- A call in brackets: the marker, the name, and the arguments up to the last character. -/
theorem bracketCall_toList (json : SerdeJson) (c : ToolCall) :
    (bracketCall ⟨c.id, c.name, json.encode c.arguments⟩).toList =
      bracketMarker ++ (c.name.toList ++ '`' :: (argumentsMarker ++ (json.encode c.arguments).toList ++ [']'])) := by
  have hmarker : "[Called tool `".toList = bracketMarker := by
    unfold bracketMarker
    rfl
  have harguments : "` with arguments: ".toList = '`' :: argumentsMarker := by
    unfold argumentsMarker
    rfl
  simp only [bracketCall, String.toList_append, hmarker, harguments]
  simp

/-! ## Stripping -/

/-- A call whose name and arguments do not end a line early. -/
def OneLine (json : SerdeJson) (c : ToolCall) : Prop :=
  '`' ∉ c.name.toList ∧ ¬[']', '\n'] <:+: c.name.toList ∧ '\n' ∉ (json.encode c.arguments).toList

/-- What stands in a call before its last bracket. -/
def bracketBody (json : SerdeJson) (c : ToolCall) : List Char :=
  c.name.toList ++ '`' :: (argumentsMarker ++ (json.encode c.arguments).toList)

theorem not_infix_of_notMem {a : Char} {p s : List Char} (ha : a ∈ p) (hs : a ∉ s) : ¬p <:+: s :=
  fun h => hs (h.subset ha)

variable {json : SerdeJson} {c : ToolCall}

/-- The end of a line is not in the marker. -/
theorem lineEnd_behind {body : List Char} (h : ¬[']', '\n'] <:+: body) : ¬[']', '\n'] <:+: bracketMarker ++ body := by
  obtain ⟨hmarker, hno, -⟩ := marker_concat
  rw [hmarker, List.append_assoc, List.singleton_append, infix_append_cons (by decide)]
  rintro (hin | hin)
  · exact not_infix_of_notMem (a := ']') (by decide) hno hin
  · exact h hin

/-- No line ends in the arguments. -/
theorem lineEnd_arguments (hargs : '\n' ∉ (json.encode c.arguments).toList) :
    ¬[']', '\n'] <:+: argumentsMarker ++ (json.encode c.arguments).toList := by
  refine not_infix_of_notMem (a := '\n') (by decide) ?_
  rw [List.mem_append]
  exact not_or.mpr ⟨lineBreak_not_mem_argumentsMarker, hargs⟩

/-- No line ends inside a call. -/
theorem lineEnd_outside (h : OneLine json c) : ¬[']', '\n'] <:+: bracketBody json c := by
  rw [bracketBody, infix_append_cons (by decide)]
  exact not_or.mpr ⟨h.2.1, lineEnd_arguments h.2.2⟩

variable {before : List Char}

/-- The marker is found where it was put. -/
theorem splitFirst_marker (hbefore : ¬bracketMarker <:+: before) (rest : List Char) :
    splitFirst bracketMarker (before ++ bracketMarker ++ rest) = some (before, rest) := by
  obtain ⟨p, hmarker, hp⟩ := marker_cons
  rw [hmarker] at hbefore ⊢
  exact splitFirst_append hp hbefore rest

variable {body : List Char}

/-- A call that ends its line is cut out with the line break. -/
theorem stripBracketed_line (hbody : ¬[']', '\n'] <:+: body) (hbefore : ¬bracketMarker <:+: before) (rest : List Char)
    (fuel : Nat) : stripBracketed (fuel + 1) (before ++ bracketMarker ++ (body ++ [']', '\n'] ++ rest)) =
      before ++ stripBracketed fuel rest := by
  have hend : splitFirst [']', '\n'] (bracketMarker ++ (body ++ [']', '\n'] ++ rest)) =
      some (bracketMarker ++ body, rest) := by
    rw [← List.append_assoc, ← List.append_assoc]
    exact splitFirst_append (by decide) (lineEnd_behind hbody) rest
  simp only [stripBracketed, splitFirst_marker hbefore, afterCall, hend]

/-- A call at the end of the text is cut out. -/
theorem stripBracketed_last (hbody : ¬[']', '\n'] <:+: body) (hbefore : ¬bracketMarker <:+: before) (fuel : Nat) :
    stripBracketed (fuel + 1) (before ++ bracketMarker ++ (body ++ [']'])) = before ++ stripBracketed fuel [] := by
  have hend : splitFirst [']', '\n'] (bracketMarker ++ (body ++ [']'])) = none := by
    refine splitFirst_eq_none ?_
    rw [← List.append_assoc]
    -- the last bracket is not followed by anything
    rintro ⟨s, t, hst⟩
    have hlast : (s ++ [']', '\n'] ++ t).getLast? = some ']' := by rw [hst]; simp
    cases ht : t using List.reverseRecOn with
    | nil =>
      subst ht
      simp at hlast
    | append_singleton t' x =>
      subst ht
      obtain rfl : x = ']' := by
        rw [← List.append_assoc, List.getLast?_concat] at hlast
        exact Option.some.inj hlast
      have hinit : s ++ [']', '\n'] ++ t' = bracketMarker ++ body := by
        have := congrArg List.dropLast hst
        rwa [← List.append_assoc, List.dropLast_concat, List.dropLast_concat] at this
      exact lineEnd_behind hbody ⟨s, t', hinit⟩
  have hlast : splitLast ']' (bracketMarker ++ (body ++ [']'])) = some (bracketMarker ++ body, []) := by
    rw [← List.append_assoc]
    exact splitLast_append _ _
  simp only [stripBracketed, splitFirst_marker hbefore, afterCall, hend, hlast, Option.map_some]

theorem stripBracketed_of_noMarker {text : List Char} (h : ¬bracketMarker <:+: text) (fuel : Nat) :
    stripBracketed fuel text = text := by
  cases fuel with
  | zero => rfl
  | succ fuel => simp only [stripBracketed, splitFirst_eq_none h]

/-- The characters of the calls, without the marker of the first. -/
theorem bracketLines_cons_toList (json : SerdeJson) (c c' : ToolCall) (cs : List ToolCall) :
    (bracketLines json (c :: c' :: cs)).toList =
      bracketMarker ++ (bracketBody json c ++ [']', '\n'] ++ (bracketLines json (c' :: cs)).toList) := by
  have hcall := bracketCall_toList json c
  simp only [bracketLines, List.map_cons, join_cons_cons, String.toList_append, hcall, bracketBody]
  simp

theorem bracketLines_singleton_toList (json : SerdeJson) (c : ToolCall) :
    (bracketLines json [c]).toList = bracketMarker ++ (bracketBody json c ++ [']']) := by
  have hcall := bracketCall_toList json c
  simp only [bracketLines, List.map_cons, List.map_nil, Rust.join, hcall, bracketBody]
  simp

theorem length_le_bracketLines (json : SerdeJson) (calls : List ToolCall) :
    calls.length ≤ (bracketLines json calls).toList.length := by
  induction calls with
  | nil => exact Nat.zero_le _
  | cons c cs ih =>
    cases cs with
    | nil =>
      rw [bracketLines_singleton_toList]
      simp [bracketMarker]
    | cons c' cs =>
      rw [bracketLines_cons_toList]
      simp only [List.length_cons, List.length_append] at ih ⊢
      omega

variable {fuel : Nat}

/-- All calls are cut out, and what follows them on a new line stays. -/
theorem stripBracketed_lines (hne : calls ≠ []) (hcalls : ∀ c ∈ calls, OneLine json c)
    (hbefore : ¬bracketMarker <:+: before) {further : List Char} (hfurther : ¬bracketMarker <:+: further)
    (hfuel : calls.length ≤ fuel) :
    stripBracketed fuel (before ++ (bracketLines json calls).toList ++ '\n' :: further) = before ++ further := by
  induction calls generalizing before fuel with
  | nil => exact absurd rfl hne
  | cons c cs ih =>
    obtain ⟨fuel, rfl⟩ : ∃ n, fuel = n + 1 := ⟨fuel - 1, by simp only [List.length_cons] at hfuel; omega⟩
    have hc : OneLine json c := hcalls c List.mem_cons_self
    cases cs with
    | nil =>
      have hshape : before ++ (bracketLines json [c]).toList ++ '\n' :: further =
          before ++ bracketMarker ++ (bracketBody json c ++ [']', '\n'] ++ further) := by
        rw [bracketLines_singleton_toList]
        simp
      rw [hshape, stripBracketed_line (lineEnd_outside hc) hbefore, stripBracketed_of_noMarker hfurther]
    | cons c' cs =>
      have hshape : before ++ (bracketLines json (c :: c' :: cs)).toList ++ '\n' :: further =
          before ++ bracketMarker ++ (bracketBody json c ++ [']', '\n'] ++
            ([] ++ (bracketLines json (c' :: cs)).toList ++ '\n' :: further)) := by
        rw [bracketLines_cons_toList]
        simp
      have hrest := ih (List.cons_ne_nil _ _) (fun x hx => hcalls x (List.mem_cons_of_mem _ hx))
        (not_infix_of_notMem backtick_mem_marker List.not_mem_nil) (Nat.le_of_succ_le_succ hfuel)
      rw [hshape, stripBracketed_line (lineEnd_outside hc) hbefore, hrest]
      rfl

/-- All calls are cut out at the end of the text. -/
theorem stripBracketed_end (hne : calls ≠ []) (hcalls : ∀ c ∈ calls, OneLine json c) (hbefore : ¬bracketMarker <:+: before)
    (hfuel : calls.length ≤ fuel) : stripBracketed fuel (before ++ (bracketLines json calls).toList) = before := by
  have hnil : ¬bracketMarker <:+: ([] : List Char) := not_infix_of_notMem backtick_mem_marker List.not_mem_nil
  induction calls generalizing before fuel with
  | nil => exact absurd rfl hne
  | cons c cs ih =>
    obtain ⟨fuel, rfl⟩ : ∃ n, fuel = n + 1 := ⟨fuel - 1, by simp only [List.length_cons] at hfuel; omega⟩
    have hc : OneLine json c := hcalls c List.mem_cons_self
    cases cs with
    | nil =>
      rw [bracketLines_singleton_toList, ← List.append_assoc, stripBracketed_last (lineEnd_outside hc) hbefore,
        stripBracketed_of_noMarker hnil, List.append_nil]
    | cons c' cs =>
      have hrest := ih (List.cons_ne_nil _ _) (fun x hx => hcalls x (List.mem_cons_of_mem _ hx)) hnil
        (Nat.le_of_succ_le_succ hfuel)
      rw [bracketLines_cons_toList, ← List.append_assoc, stripBracketed_line (lineEnd_outside hc) hbefore]
      rw [List.nil_append] at hrest
      rw [hrest, List.append_nil]

theorem marker_not_infix_leadText (h : ¬bracketMarker <:+: text.toList) :
    ¬bracketMarker <:+: (leadText text).toList := by
  have hnil : ¬bracketMarker <:+: ([] : List Char) := not_infix_of_notMem backtick_mem_marker List.not_mem_nil
  unfold leadText
  split_ifs
  · simpa using hnil
  · have hline : '\n' ∉ bracketMarker := by
      unfold bracketMarker
      decide
    have hshape : (text ++ "\n").toList = text.toList ++ '\n' :: [] := by simp
    rw [hshape, infix_append_cons hline]
    rintro (hin | hin)
    · exact h hin
    · exact hnil hin

/-- Both ways a text can go on behind its calls. -/
theorem strip_content (htext : NoMarkers text) (hne : calls ≠ []) (hcalls : ∀ c ∈ calls, OneLine json c) :
    stripBracketToolCalls (leadText text ++ bracketLines json calls) = leadText text ∧ ∀ further, NoMarkers further →
      stripBracketToolCalls (leadText text ++ bracketLines json calls ++ "\n" ++ further) = leadText text ++ further := by
  have hlead := marker_not_infix_leadText htext.1
  have hlength := length_le_bracketLines json calls
  constructor
  · apply String.toList_inj.mp
    rw [stripBracketToolCalls, String.toList_ofList, String.toList_append]
    exact stripBracketed_end hne hcalls hlead (by rw [List.length_append]; omega)
  · intro further hfurther
    apply String.toList_inj.mp
    have hshape : (leadText text ++ bracketLines json calls ++ "\n" ++ further).toList =
        (leadText text).toList ++ (bracketLines json calls).toList ++ '\n' :: further.toList := by
      simp
    rw [stripBracketToolCalls, String.toList_ofList, hshape, String.toList_append]
    refine stripBracketed_lines hne hcalls hlead hfurther.1 ?_
    simp only [List.length_append]
    omega

/-! ### A name that ends its line -/

variable {u v : List Char}

/-- The content of a call whose name ends its line. -/
theorem content_cut (hname : c.name.toList = u ++ [']', '\n'] ++ v) :
    (leadText text ++ bracketLines json [c]).toList = (leadText text).toList ++ bracketMarker ++
      (u ++ [']', '\n'] ++ (v ++ '`' :: (argumentsMarker ++ (json.encode c.arguments).toList ++ [']']))) := by
  rw [String.toList_append, bracketLines_singleton_toList, bracketBody, hname]
  simp

/-- What stripping leaves nothing of begins with the marker. -/
theorem stripBracketed_eq_nil {rest : List Char} (h : stripBracketed fuel rest = []) (hne : rest ≠ []) :
    ∃ more, rest = bracketMarker ++ more := by
  cases fuel with
  | zero => exact absurd h hne
  | succ fuel =>
    obtain ⟨p, hmarker, -⟩ := marker_cons
    rw [stripBracketed] at h
    cases hfind : splitFirst bracketMarker rest with
    | none =>
      rw [hfind] at h
      exact absurd h hne
    | some found =>
      obtain ⟨front, more⟩ := found
      rw [hfind] at h
      rw [hmarker] at hfind
      obtain ⟨hrest, -⟩ := splitFirst_eq_some hfind
      have hfront : front = [] := by
        dsimp only at h
        split at h
        · exact (List.append_eq_nil_iff.mp h).1
        · exact (List.append_eq_nil_iff.mp h).1
      exact ⟨more, by rw [hrest, hfront, hmarker, List.nil_append]⟩

/-- Such a name is cut where its line ends, so the call goes when the rest of the name begins another. -/
theorem strip_cut_iff (htext : NoMarkers text) (hname : '`' ∉ c.name.toList)
    (hargs : '\n' ∉ (json.encode c.arguments).toList) (hcut : splitFirst [']', '\n'] c.name.toList = some (u, v)) :
    (stripBracketToolCalls (leadText text ++ bracketLines json [c]) = leadText text ↔ v = bracketMarker.dropLast) ∧
      (v = bracketMarker.dropLast → ∀ further, NoMarkers further →
        stripBracketToolCalls (leadText text ++ bracketLines json [c] ++ "\n" ++ further) = leadText text ++ further) := by
  have hlead := marker_not_infix_leadText htext.1
  have hnil : ¬bracketMarker <:+: ([] : List Char) := not_infix_of_notMem backtick_mem_marker List.not_mem_nil
  obtain ⟨hsplit, hfirst⟩ := splitFirst_eq_some hcut
  have hcontent : (leadText text ++ bracketLines json [c]).toList = _ := content_cut hsplit
  obtain ⟨hmarker, -, hno⟩ := marker_concat
  -- The rest of the name and the backtick behind it.
  have hnext : v = bracketMarker.dropLast → ∀ rest : List Char,
      v ++ '`' :: (argumentsMarker ++ (json.encode c.arguments).toList ++ rest) =
        [] ++ bracketMarker ++ (argumentsMarker ++ (json.encode c.arguments).toList ++ rest) := by
    intro hv rest
    conv_rhs => rw [hmarker]
    rw [hv]
    simp
  have htwo : ∀ rest : List Char, ∃ n, ((leadText text).toList ++ bracketMarker ++
      (u ++ [']', '\n'] ++ rest)).length = n + 1 := by
    intro rest
    apply Nat.exists_eq_succ_of_ne_zero
    simp
  constructor
  · rw [← String.toList_inj, stripBracketToolCalls, String.toList_ofList, hcontent, stripBracketed_line hfirst hlead]
    constructor
    · intro h
      obtain ⟨more, hmore⟩ := stripBracketed_eq_nil (List.append_right_eq_self.mp h) (by simp)
      have hv : '`' ∉ v := fun hin => hname (hsplit ▸ List.mem_append_right _ hin)
      rw [hmarker, List.append_assoc bracketMarker.dropLast, List.singleton_append] at hmore
      exact append_cons_inj hv hno hmore
    · intro hv
      obtain ⟨n, hn⟩ := htwo (v ++ '`' :: (argumentsMarker ++ (json.encode c.arguments).toList ++ [']']))
      rw [hn, hnext hv, stripBracketed_last (lineEnd_arguments hargs) hnil,
        stripBracketed_of_noMarker hnil, List.append_nil, List.append_nil]
  · intro hv further hfurther
    have hshape : (leadText text ++ bracketLines json [c] ++ "\n" ++ further).toList = (leadText text).toList ++
        bracketMarker ++ (u ++ [']', '\n'] ++ (v ++ '`' :: (argumentsMarker ++ (json.encode c.arguments).toList ++
          ([']', '\n'] ++ further.toList)))) := by
      rw [String.toList_append, String.toList_append, hcontent]
      simp
    obtain ⟨n, hn⟩ := htwo (v ++ '`' :: (argumentsMarker ++ (json.encode c.arguments).toList ++
      ([']', '\n'] ++ further.toList)))
    rw [← String.toList_inj, stripBracketToolCalls, String.toList_ofList, hshape, stripBracketed_line hfirst hlead,
      hn, hnext hv, ← List.append_assoc (argumentsMarker ++ _),
      stripBracketed_line (lineEnd_arguments hargs) hnil, stripBracketed_of_noMarker hfurther.1, String.toList_append,
      List.nil_append]

/-- **Stripping one call**: it goes as a whole exactly when its name lets it. -/
theorem strip_one_iff (htext : NoMarkers text) (hname : '`' ∉ c.name.toList)
    (hargs : '\n' ∉ (json.encode c.arguments).toList) :
    (stripBracketToolCalls (leadText text ++ bracketLines json [c]) = leadText text ∧ ∀ further, NoMarkers further →
      stripBracketToolCalls (leadText text ++ bracketLines json [c] ++ "\n" ++ further) = leadText text ++ further) ↔
      EndsLine c.name := by
  cases hcut : splitFirst [']', '\n'] c.name.toList with
  | none =>
    have hline : ∀ c' ∈ [c], OneLine json c' := by
      intro c' hc'
      obtain rfl := List.mem_singleton.mp hc'
      refine ⟨hname, ?_, hargs⟩
      rintro ⟨s, t, hst⟩
      exact splitFirst_ne_none ⟨s, t, hst⟩ hcut
    have hends : EndsLine c.name := fun u v h => absurd (hcut.symm.trans h) nofun
    exact ⟨fun _ => hends, fun _ => strip_content htext (List.cons_ne_nil _ _) hline⟩
  | some found =>
    obtain ⟨u, v⟩ := found
    obtain ⟨hend, hfollowed⟩ := strip_cut_iff htext hname hargs hcut
    have hends : EndsLine c.name ↔ v = bracketMarker.dropLast := by
      constructor
      · exact fun h => h u v hcut
      · intro hv u' v' h
        obtain ⟨-, rfl⟩ : u = u' ∧ v = v' := by simpa using hcut.symm.trans h
        exact hv
    rw [hends]
    exact ⟨fun h => hend.mp h.1, fun hv => ⟨hend.mpr hv, hfollowed hv⟩⟩

/-! ## Recovering -/

variable {tags : List Char × List Char} {toolNames : List String}

theorem readTag_cases (json : SerdeJson) (toolNames : List String) {inner : String} (hne : inner ≠ "")
    (recovered : List ToolCall) :
    (namesTool json toolNames inner = false ∧ readTag json toolNames inner recovered = recovered) ∨
      (namesTool json toolNames inner = true ∧ ∃ name arguments,
        readTag json toolNames inner recovered = pushRecovered recovered name arguments) := by
  unfold namesTool readTag
  by_cases hbare : inner ∈ toolNames
  · cases hparsed : json.decode inner with
    | none => simp [hbare, hne]
    | some parsed =>
      cases hname : parsed.get "name" with
      | none => simp [hbare, hne, hname]
      | some value =>
        cases hvalue : value.asStr with
        | none => simp [hbare, hne, hname, hvalue]
        | some name => by_cases hknown : name ∈ toolNames <;> simp [hknown, hbare, hne, hname, hvalue]
  · cases hparsed : json.decode inner with
    | none => simp [hbare]
    | some parsed =>
      cases hname : parsed.get "name" with
      | none => simp [hbare, hname]
      | some value =>
        cases hvalue : value.asStr with
        | none => simp [hbare, hname, hvalue]
        | some name => by_cases hknown : name ∈ toolNames <;> simp [hknown, hbare, hne, hname, hvalue]

theorem length_pushRecovered (recovered : List ToolCall) (name : String) (arguments : Json) :
    (pushRecovered recovered name arguments).length = recovered.length + 1 := by
  simp [pushRecovered]

/-- Calls between tags are put behind those there are; there are none exactly when no tags enclose one. -/
theorem recoverTagged_length (json : SerdeJson) (toolNames : List String) (tags : List Char × List Char) (fuel : Nat)
    (rest : List Char) (recovered : List ToolCall) :
    recovered.length ≤ (recoverTagged json toolNames tags fuel rest recovered).length ∧
      ((enclosed tags fuel rest).any (namesTool json toolNames) = false →
        recoverTagged json toolNames tags fuel rest recovered = recovered) ∧
      ((enclosed tags fuel rest).any (namesTool json toolNames) = true →
        recovered.length < (recoverTagged json toolNames tags fuel rest recovered).length) := by
  induction fuel generalizing rest recovered with
  | zero => simp [recoverTagged, enclosed]
  | succ fuel ih =>
    cases hopen : splitFirst tags.1 rest with
    | none => simp [recoverTagged, enclosed, hopen]
    | some found =>
      cases hclose : splitFirst tags.2 found.2 with
      | none => simp [recoverTagged, enclosed, hopen, hclose]
      | some closed =>
        simp only [recoverTagged, enclosed, hopen, hclose, List.any_cons, Bool.or_eq_false_iff, Bool.or_eq_true]
        by_cases hempty : trim (String.ofList closed.1) = ""
        · have hno : namesTool json toolNames "" = false := by simp [namesTool]
          simpa only [hempty, if_true, hno, true_and, Bool.false_eq_true, false_or] using ih closed.2 recovered
        · rw [if_neg hempty]
          rcases readTag_cases json toolNames hempty recovered with ⟨hno, hread⟩ | ⟨hyes, name, arguments, hread⟩
          · simpa only [hread, hno, true_and, Bool.false_eq_true, false_or] using ih closed.2 recovered
          · rw [hread]
            obtain ⟨hlonger, -, -⟩ := ih closed.2 (pushRecovered recovered name arguments)
            rw [length_pushRecovered] at hlonger
            exact ⟨Nat.le_of_succ_le hlonger, fun h => absurd (hyes.symm.trans h.1) (by decide), fun _ => hlonger⟩

/-- Of all kinds of tags. -/
theorem recoverTagged_all (json : SerdeJson) (tools : List ToolDefinition) (content : String) :
    (toolCallTags.foldl (fun calls tags => recoverTagged json (tools.map ToolDefinition.name) tags
      (content.toList.length + 1) content.toList calls) []).length = 0 ↔ spellsCall json tools content = false := by
  have hall : ∀ (kinds : List (List Char × List Char)) (recovered : List ToolCall),
      recovered.length ≤ (kinds.foldl (fun calls tags => recoverTagged json (tools.map ToolDefinition.name) tags
        (content.toList.length + 1) content.toList calls) recovered).length ∧
      ((kinds.foldl (fun calls tags => recoverTagged json (tools.map ToolDefinition.name) tags
        (content.toList.length + 1) content.toList calls) recovered).length = recovered.length ↔
          (kinds.any fun tags => (enclosed tags (content.toList.length + 1) content.toList).any
            (namesTool json (tools.map ToolDefinition.name))) = false) := by
    intro kinds
    induction kinds with
    | nil => simp
    | cons tags kinds ih =>
      intro recovered
      obtain ⟨hle, hsame, hmore⟩ := recoverTagged_length json (tools.map ToolDefinition.name) tags
        (content.toList.length + 1) content.toList recovered
      rw [List.foldl_cons, List.any_cons]
      cases hany : (enclosed tags (content.toList.length + 1) content.toList).any
        (namesTool json (tools.map ToolDefinition.name)) with
      | false =>
        rw [hsame hany, Bool.false_or]
        exact ih recovered
      | true =>
        obtain ⟨hlonger, -⟩ := ih (recoverTagged json (tools.map ToolDefinition.name) tags
          (content.toList.length + 1) content.toList recovered)
        have hgrown := hmore hany
        exact ⟨by omega, fun h => by omega, fun h => absurd h (by simp)⟩
  exact (hall toolCallTags []).2

/-- The calls end with a bracket. -/
theorem bracketLines_shape (json : SerdeJson) (c : ToolCall) (cs : List ToolCall) : ∃ args,
    (bracketLines json (c :: cs)).toList = bracketMarker ++
    (c.name.toList ++ ['`'] ++ (argumentsMarker ++ (args ++ [']']))) ∧
      (cs = [] → args = (json.encode c.arguments).toList) := by
  induction cs generalizing c with
  | nil => exact ⟨_, by rw [bracketLines_singleton_toList, bracketBody]; simp, fun _ => rfl⟩
  | cons c' cs ih =>
    obtain ⟨args, hshape, -⟩ := ih c'
    refine ⟨(json.encode c.arguments).toList ++ [']', '\n'] ++ (bracketMarker ++ (c'.name.toList ++ ['`'] ++
      (argumentsMarker ++ args))), ?_, fun h => absurd h (List.cons_ne_nil _ _)⟩
    rw [bracketLines_cons_toList, hshape, bracketBody]
    simp

/-- Calls in brackets are read as one: the first name, with whatever stands before the last bracket. -/
theorem recoverBracketed_lines (cs : List ToolCall) (hbefore : ¬bracketMarker <:+: before) (hname : '`' ∉ c.name.toList)
    (havailable : c.name ∈ toolNames) (hround : json.decode (json.encode c.arguments) = some c.arguments) (fuel : Nat)
    (recovered : List ToolCall) : ∃ arguments, (cs = [] → arguments = c.arguments) ∧
      recoverBracketed json toolNames (fuel + 1) (before ++ (bracketLines json (c :: cs)).toList) recovered =
        pushRecovered recovered c.name arguments := by
  obtain ⟨args, hshape, hone⟩ := bracketLines_shape json c cs
  refine ⟨(json.decode (String.ofList args)).getD (.object []), ?_, ?_⟩
  · intro hcs
    rw [hone hcs, String.ofList_toList, hround, Option.getD_some]
  have hfind : splitFirst bracketMarker (before ++ (bracketLines json (c :: cs)).toList) =
      some (before, c.name.toList ++ ['`'] ++ (argumentsMarker ++ (args ++ [']']))) := by
    rw [hshape, ← List.append_assoc]
    exact splitFirst_marker hbefore _
  have htick : splitFirst ['`'] (c.name.toList ++ ['`'] ++ (argumentsMarker ++ (args ++ [']']))) =
      some (c.name.toList, argumentsMarker ++ (args ++ [']'])) :=
    splitFirst_append List.not_mem_nil (not_infix_of_notMem List.mem_cons_self hname) _
  have hpre : argumentsMarker.isPrefixOf (argumentsMarker ++ (args ++ [']'])) = true :=
    List.isPrefixOf_iff_prefix.mpr (List.prefix_append _ _)
  have hnil : ¬bracketMarker <:+: ([] : List Char) := not_infix_of_notMem backtick_mem_marker List.not_mem_nil
  have hrest : ∀ fuel calls, recoverBracketed json toolNames fuel [] calls = calls := by
    intro fuel calls
    cases fuel with
    | zero => rfl
    | succ fuel => simp only [recoverBracketed, splitFirst_eq_none hnil]
  simp only [recoverBracketed, hfind, htick, String.ofList_toList, hpre, if_true, List.drop_left, Option.bind_some,
    splitLast_append, hrest]
  simp [havailable]

/-- What is recovered of a content: the calls between tags, and one call in brackets. -/
theorem recover_content {tools : List ToolDefinition} (cs : List ToolCall) (htext : NoMarkers text)
    (hname : '`' ∉ c.name.toList) (havailable : c.name ∈ tools.map ToolDefinition.name)
    (hround : json.decode (json.encode c.arguments) = some c.arguments) :
    ∃ tagged arguments, (tagged.length = 0 ↔
      spellsCall json tools (leadText text ++ bracketLines json (c :: cs)) = false) ∧
      (cs = [] → arguments = c.arguments) ∧
      recoverToolCallsFromContent json (leadText text ++ bracketLines json (c :: cs)) tools =
        pushRecovered tagged c.name arguments := by
  have htagged := recoverTagged_all json tools (leadText text ++ bracketLines json (c :: cs))
  unfold recoverToolCallsFromContent
  dsimp only
  generalize toolCallTags.foldl _ [] = tagged at htagged ⊢
  obtain ⟨arguments, hone, hbracketed⟩ := recoverBracketed_lines cs (marker_not_infix_leadText htext.1) hname
    havailable hround (leadText text ++ bracketLines json (c :: cs)).toList.length tagged
  refine ⟨tagged, arguments, htagged, hone, ?_⟩
  rw [← hbracketed, ← String.toList_append]

/-! ## The round trip -/

/-- **Calls through text**: a single call comes back from the content as it was, and is stripped with the line break that
    ends its line, when no tags enclose another and its name ends no line; several calls come back as fewer, unless tags
    in their names and arguments make up for the rest. Stripping also takes out all calls of a list. -/
theorem flattened_calls_come_back (json : SerdeJson) {messages : List ChatMessage} {i : Nat} {text : String}
    {calls : List ToolCall} (tools : List ToolDefinition)
    (hm : messages[i]? = some (.assistantWithToolCalls (some text) calls)) (hne : calls ≠ [])
    (htool : ∃ m ∈ messages, m.role = .tool) (htext : NoMarkers text)
    (hnames : ∀ c ∈ calls, c.name ∈ tools.map ToolDefinition.name ∧ '`' ∉ c.name.toList)
    (hjson : ∀ c ∈ calls, json.decode (json.encode c.arguments) = some c.arguments ∧
      '\n' ∉ (json.encode c.arguments).toList) :
    ∃ content, flattenedContent json messages i = some content ∧
      (ComesBack json content calls tools → RoundTrip json content text calls tools) ∧
      ((∃ c, calls = [c]) ∨ spellsCall json tools content = false →
        RoundTrip json content text calls tools → ComesBack json content calls tools) ∧
      ((∀ c ∈ calls, ¬[']', '\n'] <:+: c.name.toList) → stripBracketToolCalls content = leadText text ∧
        ∀ further, NoMarkers further → stripBracketToolCalls (content ++ "\n" ++ further) = leadText text ++ further) := by
  obtain ⟨c, cs, rfl⟩ := List.exists_cons_of_ne_nil hne
  obtain ⟨havailable, hname⟩ := hnames c List.mem_cons_self
  obtain ⟨hround, hargs⟩ := hjson c List.mem_cons_self
  obtain ⟨tagged, arguments, hspells, hone, hrecover⟩ := recover_content cs htext hname havailable hround
  refine ⟨_, flattenedContent_eq json hm hne htool, ?_, ?_, ?_⟩
  · rintro ⟨⟨c', hc', hends⟩, hno⟩
    obtain ⟨rfl, rfl⟩ : c = c' ∧ cs = [] := by simpa using hc'
    have htagged : tagged = [] := List.length_eq_zero_iff.mp (hspells.mpr hno)
    obtain ⟨hstripped, hfollowed⟩ := (strip_one_iff htext hname hargs).mpr hends
    refine ⟨?_, hstripped, hfollowed⟩
    rw [hrecover, htagged, hone rfl]
    rfl
  · intro hcase hround'
    have hlength := congrArg List.length hround'.recovered
    rw [hrecover, List.length_map, List.length_map, length_pushRecovered, List.length_cons] at hlength
    -- As many calls as between tags, and one more.
    have hsingle : cs = [] ∧ tagged.length = 0 := by
      rcases hcase with ⟨c', hc'⟩ | hno
      · have hcs : cs = [] := (List.cons.inj hc').2
        exact ⟨hcs, by rw [hcs] at hlength; simpa using hlength⟩
      · have hzero := hspells.mpr hno
        exact ⟨List.length_eq_zero_iff.mp (by omega), hzero⟩
    obtain ⟨rfl, hzero⟩ := hsingle
    exact ⟨⟨c, rfl, (strip_one_iff htext hname hargs).mp ⟨hround'.stripped, hround'.followed⟩⟩, hspells.mp hzero⟩
  · intro hlines
    exact strip_content htext hne fun c hc => ⟨(hnames c hc).2, hlines c hc, (hjson c hc).2⟩

/-- JSON text for the empty object. -/
def exampleJson : SerdeJson where
  encode _ := "\x7b\x7d"
  decode s := if s = "\x7b\x7d" then some (.object []) else none

/-- A call without arguments. -/
def exampleCall : ToolCall := ⟨"call_1", "list", .object []⟩

/-- The tool of the call. -/
def exampleTool : ToolDefinition := ⟨"list", "List things", .object []⟩

/-- Messages with a batch of calls and the result of one. -/
def exampleMessages (calls : List ToolCall) : List ChatMessage :=
  [.assistantWithToolCalls (some "Let me see.") calls, .toolResult "call_1" "list" "ok"]

theorem exampleText_noMarkers : NoMarkers "Let me see." := by
  constructor
  · unfold bracketMarker
    decide
  · decide

/-- A text and one call. -/
theorem single_call_comes_back : ∃ content, flattenedContent exampleJson (exampleMessages [exampleCall]) 0 = some content ∧
    RoundTrip exampleJson content "Let me see." [exampleCall] [exampleTool] := by
  have hm : (exampleMessages [exampleCall])[0]? = some (.assistantWithToolCalls (some "Let me see.") [exampleCall]) := rfl
  obtain ⟨content, hcontent, hback, -, -⟩ := flattened_calls_come_back exampleJson [exampleTool] hm (List.cons_ne_nil _ _)
    ⟨.toolResult "call_1" "list" "ok", by simp [exampleMessages], rfl⟩ exampleText_noMarkers (by decide) (by
      intro c hc
      obtain rfl := List.mem_singleton.mp hc
      exact ⟨rfl, by decide⟩)
  refine ⟨content, hcontent, hback ⟨⟨exampleCall, rfl, ?_⟩, ?_⟩⟩
  · have hnone : splitFirst [']', '\n'] exampleCall.name.toList = none := by decide
    exact fun u v h => absurd (hnone.symm.trans h) nofun
  · have hspells : ∀ content, flattenedContent exampleJson (exampleMessages [exampleCall]) 0 = some content →
        spellsCall exampleJson [exampleTool] content = false := by
      intro content h
      obtain rfl := Option.some.inj h
      decide +kernel
    exact hspells content hcontent

/-- Two calls come back as one. -/
theorem two_calls_come_back_as_one : ∃ content,
    flattenedContent exampleJson (exampleMessages [exampleCall, exampleCall]) 0 = some content ∧
      ¬RoundTrip exampleJson content "Let me see." [exampleCall, exampleCall] [exampleTool] := by
  refine ⟨_, rfl, ?_⟩
  intro h
  have hlength := congrArg List.length h.recovered
  revert hlength
  decide +kernel

end Freeclawdia
