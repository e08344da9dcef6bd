import Freeclawdia.Correctness.Naming
import Freeclawdia.Llm.ToolCallText
import Freeclawdia.Skills.Attenuation

/-!
# `Correctness.ToolCeiling` — what runs in a turn with an installed skill

With an installed skill active only the read-only tools are offered to the model, and only they are to run in that
turn: in the loop, and when a request of the turn is approved and its deferred calls are replayed.

The offer is all there is. Calls recovered from text are limited to it (`recoverToolCallsFromContent_names`);
structured calls are taken as they come, and the loop that goes on after an approval has the skills of the approving
message, not those of the turn. So the ceiling holds in a turn whose structured calls stay within the offer and whose
approving messages activate an installed skill again (`turn_stays_below_ceiling`), and `shell_runs_under_ceiling` is a
turn that runs a tool the model was not offered.
-/

namespace Freeclawdia.ToolCeiling

open Rust Search

/-! ## Recovered calls -/

section Recovered

variable (json : SerdeJson) {names : List String}

/-- Every call is to a tool of the list. -/
def Within (names : List String) (calls : List ToolCall) : Prop := ∀ tc ∈ calls, tc.name ∈ names

variable {calls : List ToolCall}

theorem pushRecovered_within {name : String} (h : Within names calls) (hname : name ∈ names) (arguments : Json) :
    Within names (pushRecovered calls name arguments) := by
  intro tc htc
  rcases List.mem_append.mp htc with hin | hin
  · exact h tc hin
  · rw [List.mem_singleton.mp hin]
    exact hname

theorem readTag_within (h : Within names calls) (inner : String) : Within names (readTag json names inner calls) := by
  have hbare : Within names (if names.contains inner then pushRecovered calls inner (.object []) else calls) := by
    split
    · next hin => exact pushRecovered_within h (List.contains_iff_mem.mp hin) _
    · exact h
  unfold readTag
  dsimp only
  split
  · split
    · next hin => exact pushRecovered_within h (List.contains_iff_mem.mp hin) _
    · exact hbare
  · exact hbare

theorem recoverTagged_within (tags : List Char × List Char) (fuel : Nat) (remaining : List Char) (h : Within names calls) :
    Within names (recoverTagged json names tags fuel remaining calls) := by
  induction fuel generalizing remaining calls with
  | zero => exact h
  | succ fuel ih =>
    unfold recoverTagged
    split
    · exact h
    · split
      · exact h
      · refine ih _ ?_
        split
        · exact h
        · exact readTag_within json h _

theorem recoverBracketed_within (fuel : Nat) (remaining : List Char) (h : Within names calls) :
    Within names (recoverBracketed json names fuel remaining calls) := by
  induction fuel generalizing remaining calls with
  | zero => exact h
  | succ fuel ih =>
    unfold recoverBracketed
    split
    · exact h
    · split
      · exact h
      · dsimp only
        split
        · exact ih _ h
        · next nameChars _ _ hin =>
            have hname : String.ofList nameChars ∈ names := by simpa using hin
            split
            · exact ih _ (pushRecovered_within h hname _)
            · exact ih _ (pushRecovered_within h hname _)

/-- **Only offered tools are recovered from text.** -/
theorem recoverToolCallsFromContent_names (content : String) (tools : List ToolDefinition) :
    Within (tools.map ToolDefinition.name) (recoverToolCallsFromContent json content tools) := by
  unfold recoverToolCallsFromContent
  dsimp only
  refine recoverBracketed_within json _ _ ?_
  have htags : ∀ (tags : List (List Char × List Char)) (fuel : Nat) (calls : List ToolCall),
      Within (tools.map ToolDefinition.name) calls → Within (tools.map ToolDefinition.name)
        (tags.foldl (fun calls t => recoverTagged json (tools.map ToolDefinition.name) t fuel content.toList calls)
          calls) := by
    intro tags fuel
    induction tags with
    | nil => exact fun _ h => h
    | cons t ts ih => exact fun calls h => ih _ (recoverTagged_within json t fuel content.toList h)
  exact htags toolCallTags _ [] fun _ h => absurd h List.not_mem_nil

end Recovered

/-! ## Turns -/

variable {W : Type}

/-- A tool of the list that `attenuate_tools` returns for the skills, at some moment. -/
def Offered (env : Env W) (skills : List LoadedSkill) (name : String) : Prop :=
  ∃ w, name ∈ (attenuateTools (env.toolDefinitions w) skills).tools.map ToolDefinition.name

/-- What is offered with an installed skill is read-only, at every moment. -/
theorem Offered.readOnly {env : Env W} {skills : List LoadedSkill} (hinstalled : HasInstalled skills) {name : String}
    (h : Offered env skills name) : name ∈ READ_ONLY_TOOLS := by
  obtain ⟨w, hin⟩ := h
  rw [attenuateTools_of_hasInstalled hinstalled] at hin
  obtain ⟨tool, htool, rfl⟩ := List.mem_map.mp hin
  exact List.contains_iff_mem.mp (List.mem_filter.mp htool).2

/-- What a handler has logged. -/
def newEvents (st st' : AgentState W) : List Event := st'.trace.log.drop st.trace.log.length

/-- The events of a turn on a thread, opened with the given skills active. It goes on whenever a request of this turn
    is answered; `later` are the skills active then. What else happens in between is left open, so each part starts
    from any state. -/
inductive Turn (env : Env W) (user : String) (tid : Uuid) (skills : List LoadedSkill) :
    (later : List (List LoadedSkill)) → List Event → Prop
  | opened (prompt : List ToolDefinition → String) (context : List ChatMessage) (st : AgentState W) :
      Turn env user tid skills [] (newEvents st (runTurn (env.withSkills skills prompt) user tid context st).2)
  | resumed {later : List (List LoadedSkill)} {events : List Event} (h : Turn env user tid skills later events)
      (skills' : List LoadedSkill) (prompt : List ToolDefinition → String) (requestId : Option Uuid)
      (approved always : Bool) (st : AgentState W)
      (hours : ∀ p, st.pendingAt user tid = some p → .raised p ∈ events) :
      Turn env user tid skills (skills' :: later)
        (events ++ newEvents st
          (processApproval (env.withSkills skills' prompt) user tid requestId approved always st).2)

/-- The model's structured calls name tools of the request's list, or tools that are never there. -/
def Obeys (env : Env W) : Prop :=
  ∀ request w response, (env.complete request w).1 = .ok response → ∀ tc ∈ response.toolCalls,
    tc.name ∈ request.tools.map ToolDefinition.name ∨ ∀ w', env.tool w' tc.name = none

section Ceiling

variable {env : Env W} {json : SerdeJson} {skills : List LoadedSkill}

/-- **An offer with an installed skill is kept**, if the structured calls keep to it. -/
theorem namesOnly_offered (hrecover : env.recoverToolCalls = recoverToolCallsFromContent json) (hobeys : Obeys env)
    (hinstalled : HasInstalled skills) {skills' : List LoadedSkill} (hinstalled' : HasInstalled skills')
    (prompt : List ToolDefinition → String) : NamesOnly (env.withSkills skills' prompt)
      (fun name => Offered env skills name ∨ ∀ w, env.tool w name = none) := by
  rintro calls content ⟨w₀, messages, w, response, hcomplete, hread⟩ tc htc
  -- the list of this request is a list of the turn: both are the read-only tools of the moment
  have hoffer : ∀ name, name ∈ ((env.withSkills skills' prompt).toolDefinitions w₀).map ToolDefinition.name →
      Offered env skills name := by
    intro name hname
    refine ⟨w₀, ?_⟩
    rw [attenuateTools_of_hasInstalled hinstalled, ← toolDefinitions_withSkills env hinstalled' prompt w₀]
    exact hname
  unfold readToolAnswer at hread
  split at hread
  · cases hread
    rcases hobeys _ w response hcomplete tc htc with hin | hnone
    · exact Or.inl (hoffer tc.name hin)
    · exact Or.inr hnone
  · split at hread
    · cases hread
      have hwithin := recoverToolCallsFromContent_names json (response.content.getD emptyReplyFallback)
        ((env.withSkills skills' prompt).toolDefinitions w₀)
      rw [← hrecover] at hwithin
      exact Or.inl (hoffer tc.name (hwithin tc htc))
    · cases hread

theorem newEvents_of_grows {Q : Event → Prop} {st st' : AgentState W}
    (h : Log.Grows Q st.trace.log st'.trace.log) : ∀ e ∈ newEvents st st', Q e := by
  obtain ⟨ev, hlog, hev⟩ := h
  unfold newEvents
  rw [hlog, List.drop_left]
  exact hev

/-- The calls a turn runs or stores. -/
theorem turn_names (hrecover : env.recoverToolCalls = recoverToolCallsFromContent json) (hobeys : Obeys env)
    (hinstalled : HasInstalled skills) {user : String} {tid : Uuid} {later : List (List LoadedSkill)}
    {events : List Event} (h : Turn env user tid skills later events) (hlater : ∀ s ∈ later, HasInstalled s) :
    ∀ e ∈ events, e.Names env fun name => Offered env skills name ∨ ∀ w, env.tool w name = none := by
  induction h with
  | opened prompt context st =>
    have hnames := namesOnly_offered hrecover hobeys hinstalled hinstalled prompt
    exact newEvents_of_grows (runTurn_named user tid hnames context).log
  | resumed hturn skills' prompt requestId approved always st hours ih =>
    have hpast := ih fun s hs => hlater s (List.mem_cons_of_mem _ hs)
    have hnames := namesOnly_offered hrecover hobeys hinstalled (hlater skills' List.mem_cons_self) prompt
    intro e he
    rcases List.mem_append.mp he with hin | hin
    · exact hpast e hin
    · -- the request is one of this turn, so its calls were named in this turn
      refine newEvents_of_grows (processApproval_named user tid hnames ?_ requestId approved always).log e hin
      exact fun p hp => hpast (.raised p) (hours p hp)

/-- **The ceiling holds in a turn whose structured calls keep to the offer and whose approving messages activate an
    installed skill again.** -/
theorem turn_stays_below_ceiling (hrecover : env.recoverToolCalls = recoverToolCallsFromContent json)
    (hobeys : Obeys env) (hinstalled : HasInstalled skills) (user : String) (tid : Uuid)
    (later : List (List LoadedSkill)) (hlater : ∀ s ∈ later, HasInstalled s) (events : List Event)
    (h : Turn env user tid skills later events) :
    ∀ call tool auto cause, .executed call tool auto cause ∈ events →
      Offered env skills call.name ∧ call.name ∈ READ_ONLY_TOOLS := by
  intro call tool auto cause hin
  obtain ⟨hname, w, htool⟩ := turn_names hrecover hobeys hinstalled h hlater _ hin
  rcases hname with hoffered | hnone
  · exact ⟨hoffered, hoffered.readOnly hinstalled⟩
  · rw [hnone w] at htool
    cases htool

end Ceiling

/-! ## A turn of two tools -/

/-- One installed skill. -/
def oneInstalled : List LoadedSkill := [⟨.installed⟩]

/-- `shell` and `echo` are registered and need no approval. The model asks for `wanted` first, and for nothing
    afterwards; one that `asks` only for what it was offered looks at the list. -/
def twoToolsEnv (wanted : String) (asks : List ToolDefinition → Bool) : Env Nat :=
  { Env.idle Nat with
    tool := fun _ name => if name = "shell" ∨ name = "echo" then some ⟨"", [], fun _ => .never, none⟩ else none
    toolDefinitions := fun _ => [⟨"shell", "run a command", .null⟩, ⟨"echo", "repeat a text", .null⟩]
    recoverToolCalls := recoverToolCallsFromContent
      ⟨fun _ => "null", fun text => if text = "null" then some .null else none⟩
    complete := fun request n =>
      (.ok (if n = 0 ∧ asks request.tools then ⟨none, [⟨"call_1", wanted, .object []⟩]⟩ else ⟨some "done", []⟩),
        n + 1) }

/-- A message of a user, located on a thread. -/
def located (env : Env Nat) : Uuid × AgentState Nat :=
  locateThread env { channel := "cli", userId := "ann", content := "tidy up" } 0 (AgentState.start {} 0)

/-- The state after its turn. -/
def turnTaken (env : Env Nat) : AgentState Nat :=
  (runTurn (env.withSkills oneInstalled env.systemPrompt) "ann" (located env).1 [ChatMessage.user "tidy up"]
    (located env).2).2

/-- The events of its turn. -/
def turnEvents (env : Env Nat) : List Event := newEvents (located env).2 (turnTaken env)

/-- The tool an event runs. -/
def toolRun : Event → Option String
  | .executed call _ _ _ => some call.name
  | _ => none

theorem executed_of_toolRun {events : List Event} {name : String} (h : name ∈ events.filterMap toolRun) :
    ∃ call tool auto cause, .executed call tool auto cause ∈ events ∧ call.name = name := by
  obtain ⟨e, he, hname⟩ := List.mem_filterMap.mp h
  cases e with
  | executed call tool auto cause => exact ⟨call, tool, auto, cause, he, Option.some.inj hname⟩
  | llm messages => cases hname
  | asked user content => cases hname
  | answered user content => cases hname
  | hooked original sensitive result => cases hname
  | raised pending => cases hname

/-- **`shell` runs in a turn in which only `echo` was offered.** -/
theorem shell_runs_under_ceiling :
    ∃ events, Turn (twoToolsEnv "shell" fun _ => true) "ann" (located (twoToolsEnv "shell" fun _ => true)).1
        oneInstalled [] events
      ∧ HasInstalled oneInstalled
      ∧ ∃ call tool auto cause, .executed call tool auto cause ∈ events
        ∧ ¬ Offered (twoToolsEnv "shell" fun _ => true) oneInstalled call.name := by
  have hrun : "shell" ∈ (turnEvents (twoToolsEnv "shell" fun _ => true)).filterMap toolRun := by decide +kernel
  obtain ⟨call, tool, auto, cause, hin, hname⟩ := executed_of_toolRun hrun
  refine ⟨_, .opened _ _ _, by decide, call, tool, auto, cause, hin, ?_⟩
  rintro ⟨w, hoffered⟩
  rw [hname] at hoffered
  revert hoffered
  show ¬ "shell" ∈ ["echo"]
  decide

/-- A model that looks at its offer before it asks. -/
def wantsEcho (tools : List ToolDefinition) : Bool := (tools.map ToolDefinition.name).contains "echo"

/-- `echo` is there and needs an approval. -/
def approvalEnv : Env Nat :=
  { twoToolsEnv "echo" wantsEcho with
    tool := fun _ name => if name = "echo" then some ⟨"", [], fun _ => .always, none⟩ else none }

theorem wantsEcho_obeys : Obeys approvalEnv := by
  intro request w response hcomplete tc htc
  have hresponse : (if w = 0 ∧ wantsEcho request.tools = true then ⟨none, [⟨"call_1", "echo", .object []⟩]⟩
      else ⟨some "done", []⟩ : LlmResponse) = response := Except.ok.inj hcomplete
  subst hresponse
  split at htc
  · next hasks =>
      rw [List.mem_singleton.mp htc]
      exact Or.inl (List.contains_iff_mem.mp hasks.2)
  · exact absurd htc List.not_mem_nil

/-- The request an event stores. -/
def requestOf : Event → Option PendingApproval
  | .raised pending => some pending
  | _ => none

theorem raised_of_requestOf {events : List Event} {p : PendingApproval} (h : events.findSome? requestOf = some p) :
    .raised p ∈ events := by
  obtain ⟨e, he, hrequest⟩ := List.exists_of_findSome?_eq_some h
  cases e with
  | raised pending => rwa [← Option.some.inj hrequest]
  | llm messages => cases hrequest
  | asked user content => cases hrequest
  | answered user content => cases hrequest
  | hooked original sensitive result => cases hrequest
  | executed call tool auto cause => cases hrequest

/-- The request of the turn. -/
def echoRequest : PendingApproval := ((turnEvents approvalEnv).findSome? requestOf).get (by decide +kernel)

/-- The state in which the user answers it. -/
def awaiting : AgentState Nat := (turnTaken approvalEnv).modifyThread "ann" (located approvalEnv).1
  (Thread.awaitApproval · echoRequest)

/-- The events of the turn and of its approval, by a message that activates the skill again. -/
def approvedEvents : List Event :=
  turnEvents approvalEnv ++ newEvents awaiting (processApproval (approvalEnv.withSkills oneInstalled
    approvalEnv.systemPrompt) "ann" (located approvalEnv).1 none true false awaiting).2

/-- `echo` runs when it has been approved, as offered. -/
theorem turn_stays_below_ceiling_echo :
    "echo" ∉ (turnEvents approvalEnv).filterMap toolRun ∧ "echo" ∈ approvedEvents.filterMap toolRun
      ∧ ∀ call tool auto cause, .executed call tool auto cause ∈ approvedEvents →
        Offered approvalEnv oneInstalled call.name ∧ call.name ∈ READ_ONLY_TOOLS := by
  have hturn : Turn approvalEnv "ann" (located approvalEnv).1 oneInstalled [oneInstalled] approvedEvents := by
    refine .resumed (.opened _ _ _) oneInstalled _ none true false awaiting fun p hp => ?_
    -- the request on the thread is the one the turn has stored
    have hpending : awaiting.pendingAt "ann" (located approvalEnv).1 = _ := pendingAt_modifyThread_self _ _ _ _
    obtain ⟨thread, -, hthread⟩ := Option.bind_eq_some_iff.mp (hpending.symm.trans hp)
    obtain rfl : echoRequest = p := Option.some.inj hthread
    exact raised_of_requestOf (Option.some_get _).symm
  exact ⟨by decide +kernel, by decide +kernel, turn_stays_below_ceiling rfl wantsEcho_obeys (by decide) "ann" _
    [oneInstalled] (fun s hs => by rw [List.mem_singleton.mp hs]; decide) _ hturn⟩

end Freeclawdia.ToolCeiling
