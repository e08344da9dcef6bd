import Freeclawdia.Correctness.Messages

/-!
# `Correctness.Shutdown` — what makes the agent stop

`Agent::run` leaves its message loop when `handle_message` returns `Ok(None)`. Quitting returns that, and so
does the suppression of a silent reply. A reply is silent when the text that becomes the answer of a turn is;
that text comes from the surroundings: the provider, a tool that asks for a token, or the hooks that transform
responses. `Vocabulary` collects what they may say, and `only_quit_stops_iff` states for which vocabularies
only quitting stops the agent.

Every other text of the agent starts with words of its own (`Loud`), which no silent reply does.
-/

namespace Freeclawdia.Shutdown

open Rust

variable {W : Type}

/-! ## Texts that are not silent -/

/-- Trimming keeps a first character that is not white space. -/
theorem trimChars_cons {c : Char} (h : isWhitespace c = false) (cs : List Char) :
    ∃ rest, trimChars (c :: cs) = c :: rest := by
  have hfront : (c :: cs).dropWhile isWhitespace = c :: cs := List.dropWhile_cons_of_neg (by simp [h])
  have hback : ∃ l, (cs.reverse ++ [c]).dropWhile isWhitespace = l ++ [c] := by
    rw [List.dropWhile_append]
    split
    · exact ⟨[], by simp [h]⟩
    · exact ⟨_, rfl⟩
  obtain ⟨l, hl⟩ := hback
  refine ⟨l.reverse, ?_⟩
  unfold trimChars
  rw [hfront, List.reverse_cons, hl, List.reverse_append]
  rfl

/-- A text that starts with a character no silent reply starts with. -/
def Loud (text : String) : Prop :=
  ∃ c cs, text.toList = c :: cs ∧ isWhitespace c = false ∧ c ≠ 'N'

/-- The test for a text that is given. -/
def startsLoud (text : String) : Bool :=
  match text.toList with
  | c :: _ => !isWhitespace c && c != 'N'
  | [] => false

theorem loud_of_starts (text : String) (h : startsLoud text = true) : Loud text := by
  unfold startsLoud at h
  split at h
  · rename_i c cs htext
    rw [Bool.and_eq_true, Bool.not_eq_true', bne_iff_ne] at h
    exact ⟨c, cs, htext, h⟩
  · cases h

variable {text : String}

theorem Loud.append (h : Loud text) (more : String) : Loud (text ++ more) := by
  obtain ⟨c, cs, htext, hc⟩ := h
  exact ⟨c, cs ++ more.toList, by rw [String.toList_append, htext]; rfl, hc⟩

theorem Loud.foldl {A : Type} {f : String → A → String} (h : Loud text) (hf : ∀ text a, Loud text → Loud (f text a))
    (l : List A) : Loud (l.foldl f text) := by
  induction l generalizing text with
  | nil => exact h
  | cons a rest ih => exact ih (hf text a h)

theorem silentReplyToken_toList : silentReplyToken.toList = ['N', 'O', '_', 'R', 'E', 'P', 'L', 'Y'] := by
  decide

/-- **Loud texts are not silent.** -/
theorem Loud.not_silent (h : Loud text) : isSilentReply text = false := by
  obtain ⟨c, cs, htext, hc, hne⟩ := h
  obtain ⟨rest, hrest⟩ := trimChars_cons hc cs
  have htrim : (trim text).toList = c :: rest := by
    unfold trim
    rw [htext, hrest, String.toList_ofList]
  have hstarts : startsWith (trim text) silentReplyToken = false := by
    unfold startsWith
    rw [htrim, silentReplyToken_toList, List.isPrefixOf_cons_cons, beq_false_of_ne hne.symm, Bool.false_and]
  have heq : (trim text == silentReplyToken) = false := by
    refine beq_false_of_ne ?_
    intro he
    have hlist := congrArg String.toList he
    rw [htrim, silentReplyToken_toList] at hlist
    exact hne (List.cons.inj hlist).1
  unfold isSilentReply
  rw [hstarts, heq, Bool.false_and, Bool.false_and, Bool.false_or]

/-! ## Handlers that speak for themselves -/

/-- A result that is turned into a reply. -/
def Heard (r : SubmissionResult) : Prop := replyOf r ≠ none

theorem heard_response (h : isSilentReply text = false) : Heard (.response text) := by
  have hreply : replyOf (.response text) = some text := by
    show (if isSilentReply text = true then none else some text) = some text
    rw [h]
    rfl
  unfold Heard
  rw [hreply]
  exact Option.some_ne_none _

theorem heard_loud (h : Loud text) : Heard (.response text) := heard_response h.not_silent

/-- What commands answer with. -/
inductive Spoken : SubmissionResult → Prop
  | response {text : String} (h : isSilentReply text = false) : Spoken (.response text)
  | ok {text : String} (h : Loud text) : Spoken (.ok (some text))
  | error (message : String) : Spoken (.error message)

theorem Spoken.loud (h : Loud text) : Spoken (.response text) := .response h.not_silent

variable {r : SubmissionResult}

theorem Spoken.heard (h : Spoken r) : Heard r := by
  cases h with
  | response h => exact heard_response h
  | ok h => exact Option.some_ne_none _
  | error message => exact Option.some_ne_none _

section Commands

variable (env : Env W) (cmds : CommandEnv W)

theorem describeJob_loud (job : JobView) : Loud (describeJob job) := by
  unfold describeJob
  repeat apply Loud.append
  exact loud_of_starts "Job: " (by decide)

variable {text : String}

theorem handleCheckStatus_loud (user : String) (jobId : Option String) (w : W)
    (h : handleCheckStatus cmds user jobId w = .ok text) : Loud text := by
  cases jobId with
  | none =>
    cases h
    unfold describeSummary
    repeat apply Loud.append
    exact loud_of_starts "Jobs summary: Total: " (by decide)
  | some jobId =>
    unfold handleCheckStatus at h
    dsimp only at h
    split at h
    · cases h
      exact describeJob_loud _
    · obtain ⟨j, _, rfl⟩ : ∃ j, ownJob cmds user jobId w = .ok j ∧ describeJob j.2 = text := by
        generalize ownJob cmds user jobId w = found at h
        cases found with
        | error e => cases h
        | ok j => exact ⟨j, rfl, Except.ok.inj h⟩
      exact describeJob_loud j.2

theorem handleCancelJob_loud (user jobId : String) (w : W) (h : (handleCancelJob cmds user jobId w).1 = .ok text) :
    Loud text := by
  unfold handleCancelJob at h
  split at h
  · cases h
  · split at h
    · cases h
    · cases h
      repeat apply Loud.append
      exact loud_of_starts "Job " (by decide)

theorem handleHelpJob_loud (user jobId : String) (w : W) (h : (handleHelpJob cmds user jobId w).1 = .ok text) :
    Loud text := by
  unfold handleHelpJob at h
  split at h
  · cases h
  · split at h
    · split at h
      · cases h
      · cases h
        repeat apply Loud.append
        exact loud_of_starts "Job " (by decide)
    · cases h
      repeat apply Loud.append
      exact loud_of_starts "Job " (by decide)

theorem handleCreateJob_loud (user title description : String) (w : W)
    (h : (handleCreateJob cmds user title description w).1 = .ok text) : Loud text := by
  unfold handleCreateJob at h
  split at h
  · cases h
  · cases h
    repeat apply Loud.append
    exact loud_of_starts "Created job: " (by decide)

/-- The only listing that starts with an `N` is a fixed text. -/
theorem handleListJobs_spoken (user : String) (w : W) : Spoken (.response (handleListJobs cmds user w)) := by
  unfold handleListJobs
  split
  · exact .response (by decide)
  · refine Spoken.loud (Loud.foldl (loud_of_starts "Jobs:\n" (by decide)) ?_ _)
    intro text job h
    repeat apply Loud.append
    exact h

theorem handleSkillsList_spoken (w : W) : Spoken (handleSkillsList cmds w) := by
  unfold handleSkillsList
  split
  · exact .error _
  · exact .error _
  · exact .response (by decide)
  · refine Spoken.loud (Loud.append (Loud.foldl (loud_of_starts "Installed skills:\n\n" (by decide)) ?_ _) _)
    intro text skill h
    repeat apply Loud.append
    exact h

theorem handleSkillsSearch_spoken (query : String) (w : W) : Spoken (handleSkillsSearch cmds query w).1 := by
  unfold handleSkillsSearch
  split
  · exact .error _
  · apply Spoken.loud
    repeat apply Loud.append
    exact loud_of_starts "ClawHub results for \"" (by decide)

theorem showModels_spoken (w : W) : Spoken (showModels cmds w).1 := by
  have hloud : Loud "Active model: " := loud_of_starts _ (by decide)
  unfold showModels
  split
  · apply Spoken.loud
    repeat apply Loud.append
    exact hloud
  · apply Spoken.loud
    repeat apply Loud.append
    exact hloud
  · apply Spoken.loud
    repeat apply Loud.append
    exact hloud

theorem switchModel_spoken (requested : String) (w : W) : Spoken (switchModel cmds requested w).1 := by
  have hswitched : Loud ("Switched model to: " ++ requested) :=
    (loud_of_starts "Switched model to: " (by decide)).append requested
  unfold switchModel
  generalize cmds.listModels w = listed
  obtain ⟨listed, w'⟩ := listed
  dsimp only
  split_ifs
  · exact .error _
  · rcases cmds.setModel requested w' with ⟨e | _, w''⟩
    · exact .error _
    · exact Spoken.loud hswitched

/-- **System commands** speak. -/
theorem handleSystemCommand_spoken (command : String) (args : List String) (channel : String) (w : W) :
    Spoken (handleSystemCommand cmds command args channel w).1 := by
  unfold handleSystemCommand
  split_ifs
  · apply Spoken.loud
    unfold helpText
    repeat apply Loud.append
    exact loud_of_starts "System:\n" (by decide)
  · exact Spoken.loud (loud_of_starts "pong!" (by decide))
  · exact .error _
  · exact .error _
  · exact Spoken.loud ((loud_of_starts "Restarting in 2 second(s). The process will exit cleanly and the "
      (by decide)).append _)
  · exact Spoken.loud (loud_of_starts "ironclaw v0.16.1" (by decide))
  · exact Spoken.loud ((loud_of_starts "Available tools: " (by decide)).append _)
  · exact .ok (loud_of_starts _ (by decide))
  · cases args with
    | nil => exact handleSkillsList_spoken cmds w
    | cons first rest =>
      dsimp only
      split_ifs
      · exact .error _
      · exact .error _
      · exact handleSkillsSearch_spoken cmds _ w
  · cases args with
    | nil => exact showModels_spoken cmds w
    | cons requested rest => exact switchModel_spoken cmds requested w
  · exact .error _

/-- **Job intents and commands** are always heard. -/
theorem handleJobOrCommand_heard (intent : MessageIntent) (user channel : String) (w : W)
    {r : SubmissionResult} (h : (handleJobOrCommand cmds intent user channel w).1 = .ok r) : Heard r := by
  have hmap : ∀ {e : Except Error String}, (∀ text, e = .ok text → Loud text) →
      e.map .response = .ok r → Heard r := by
    intro e he hr
    cases e with
    | error e => cases hr
    | ok text =>
      rw [← Except.ok.inj hr]
      exact heard_loud (he text rfl)
  cases intent with
  | createJob title description category => exact hmap (fun _ => handleCreateJob_loud cmds user title description w) h
  | checkJobStatus jobId => exact hmap (fun _ => handleCheckStatus_loud cmds user jobId w) h
  | cancelJob jobId => exact hmap (fun _ => handleCancelJob_loud cmds user jobId w) h
  | listJobs filter =>
    cases h
    exact (handleListJobs_spoken cmds user w).heard
  | helpJob jobId => exact hmap (fun _ => handleHelpJob_loud cmds user jobId w) h
  | command command args =>
    have hspoken := handleSystemCommand_spoken cmds command args channel w
    unfold handleJobOrCommand handleCommand at h
    dsimp only at h
    generalize handleSystemCommand cmds command args channel w = result at h hspoken
    obtain ⟨result, w'⟩ := result
    cases hspoken with
    | response hsilent =>
      cases h
      exact heard_response hsilent
    | ok hloud =>
      cases h
      exact heard_loud hloud
    | error message =>
      cases h
      exact heard_loud ((loud_of_starts "Error: " (by decide)).append message)
  | unknown =>
    cases h
    exact heard_loud (loud_of_starts "Unknown intent" (by decide))

end Commands

/-! ## What the surroundings say -/

/-- Texts that may become the answer of a turn. -/
structure Vocabulary where
  /-- Cleaned texts of the provider. -/
  said : Set String
  /-- Instructions of tools that ask for a token. -/
  instructions : Set String
  /-- What the hooks that transform responses put in a response's place. -/
  replacements : Set String

/-- The text the loop makes of a cleaned text of the provider. -/
def delivered (text : String) : String := stripInternalToolCallText (finalText id text)

/-- No text of the vocabulary is a silent reply. -/
structure Vocabulary.Audible (v : Vocabulary) : Prop where
  said : ∀ text ∈ v.said, isSilentReply (delivered text) = false
  instructions : ∀ text ∈ v.instructions, isSilentReply text = false
  replacements : ∀ text ∈ v.replacements, isSilentReply text = false

/-- An output a registered tool can give for a call whose parameters are valid, as it is printed. -/
def Produces (env : Env W) (tc : ToolCall) (output : String) : Prop :=
  ∃ w tool value, env.tool w tc.name = some tool ∧ env.validateToolParams tc.arguments = []
    ∧ (env.execute tc.name tc.arguments w).1 = .done value ∧ env.toStringPretty value = .ok output

/-- The surroundings keep to a vocabulary. A provider may always answer with a blank text, for which the agent
    has a text of its own; instructions are those in the outputs tools can give. -/
structure Speaks (v : Vocabulary) (env : Env W) : Prop where
  said : ∀ {request : LlmRequest} {w : W} {response : LlmResponse},
    (env.complete request w).1 = .ok response → ∀ absent ∈ ["", emptyReplyFallback],
      (trim (env.cleanResponse (response.content.getD absent))).isEmpty = true
        ∨ env.cleanResponse (response.content.getD absent) ∈ v.said
  instructions : ∀ {tc : ToolCall} {output extension text : String}, Produces env tc output →
    checkAuthRequired env tc.name (.ok output) = some (extension, text) → text ∈ v.instructions
  replacements : ∀ {w : W} {hook : Hook W}, hook ∈ env.hooks .transformResponse w →
    ∀ {event : HookEvent} {w' : W} {value : String},
      (hook.execute event w').1 = .answered (.continue (some value)) → value ∈ v.replacements

/-- A result is one the call can have: an output in it is one the called tool can give. -/
def Own (env : Env W) (tc : ToolCall) (result : Except Error String) : Prop :=
  ∀ output, result = .ok output → Produces env tc output

section Results

variable {env : Env W} {auto : List String} {cause : Cause}

theorem own_error (tc : ToolCall) (e : Error) : Own env tc (.error e) := fun _ h => by cases h

theorem executeChatTool_result (auto : List String) (cause : Cause) (tc : ToolCall) (tr : Trace W) :
    Own env tc (executeChatTool env auto cause tc tr).1 := by
  intro output h
  unfold executeChatTool at h
  cases htool : env.tool tr.world tc.name with
  | none =>
    rw [htool] at h
    cases h
  | some tool =>
    cases hparams : env.validateToolParams tc.arguments with
    | cons e es =>
      rw [htool, hparams] at h
      cases h
    | nil =>
      rw [htool, hparams] at h
      rcases hrun : env.execute tc.name tc.arguments tr.world with ⟨value | _ | _, w⟩
      · rw [hrun] at h
        dsimp only at h
        have hprinted : env.toStringPretty value = .ok output := by
          cases hp : env.toStringPretty value with
          | error e =>
            rw [hp] at h
            cases h
          | ok text =>
            rw [hp] at h
            exact congrArg Except.ok (Except.ok.inj h)
        exact ⟨tr.world, tool, value, htool, hparams, by rw [hrun], hprinted⟩
      · rw [hrun] at h
        cases h
      · rw [hrun] at h
        cases h

/-- Every result is at the position of a task that can have it. -/
def Slotted (env : Env W) (tasks : List (Nat × ToolCall)) (results : List (Nat × Except Error String)) : Prop :=
  ∀ r ∈ results, ∃ tc, (r.1, tc) ∈ tasks ∧ Own env tc r.2

theorem runTasks_slotted (fuel : Nat) (tasks : List (Nat × ToolCall)) (tr : Trace W) :
    Slotted env tasks (runTasks env auto cause fuel tasks tr).1 := by
  induction fuel generalizing tasks tr with
  | zero =>
    intro r hr
    cases hr
  | succ fuel ih =>
    unfold runTasks
    cases htask : tasks[env.nextTask tr.world % tasks.length]? with
    | none =>
      intro r hr
      cases hr
    | some task =>
      have hrest : Slotted env tasks (runTasks env auto cause fuel
          (tasks.eraseIdx (env.nextTask tr.world % tasks.length))
          (executeChatTool env auto cause task.2 tr).2).1 := by
        intro r hr
        obtain ⟨tc, hmem, hown⟩ := ih _ _ r hr
        exact ⟨tc, List.mem_of_mem_eraseIdx hmem, hown⟩
      dsimp only
      split
      · exact hrest
      · intro r hr
        rcases List.mem_cons.mp hr with rfl | hlater
        · exact ⟨task.2, List.mem_of_getElem? htask, executeChatTool_result auto cause task.2 tr⟩
        · exact hrest r hlater

variable {results : List (Nat × Except Error String)}

theorem slot_mem {i : Nat} {result : Except Error String}
    (h : slot results i = some result) : (i, result) ∈ results := by
  unfold slot at h
  obtain ⟨r, hr, hresult⟩ := Option.map_eq_some_iff.mp h
  have hfound := List.find?_some hr
  have hi : r.1 = i := beq_iff_eq.mp hfound
  rw [← hi, ← hresult]
  exact List.mem_of_find?_eq_some hr

/-- What is slotted at a position, or an error in its place. -/
theorem Slotted.getD {tasks : List (Nat × ToolCall)}
    (h : Slotted env tasks results) {i : Nat} {tc : ToolCall} (ht : (i, tc) ∈ tasks) (e : Error) :
    ∃ tc', (i, tc') ∈ tasks ∧ Own env tc' ((slot results i).getD (.error e)) := by
  cases hslot : slot results i with
  | none => exact ⟨tc, ht, own_error tc e⟩
  | some result => exact h _ (slot_mem hslot)

theorem executeRunnable_slotted (tasks : List (Nat × ToolCall)) (tr : Trace W) :
    Slotted env tasks (executeRunnable env auto cause tasks tr).1 := by
  unfold executeRunnable
  split
  · intro r hr
    cases hr
  · rename_i t
    intro r hr
    rw [List.mem_singleton.mp hr]
    exact ⟨t.2, List.mem_cons_self, executeChatTool_result auto cause t.2 tr⟩
  · intro r hr
    obtain ⟨t, ht, rfl⟩ := List.mem_map.mp hr
    exact (runTasks_slotted tasks.length tasks tr).getD ht _

/-- **A batch's outcomes** are its calls' own: positions tell the calls apart. -/
theorem batchOutcomes_result (user : String) (calls : List ToolCall) (s : Session) (tr : Trace W) (tc : ToolCall)
    (result : Except Error String)
    (h : (tc, CallOutcome.ran result) ∈ outcomesOf (batchPreflight env user calls s tr).1.entries
      (batchResults env user calls s tr).1) : Own env tc result := by
  obtain ⟨⟨⟨tc', passed⟩, i⟩, hentry, hout⟩ := List.mem_map.mp h
  have hslotted := @executeRunnable_slotted W env s.autoApprovedTools .batch
    (runnableOf (batchPreflight env user calls s tr).1.entries) (batchPreflight env user calls s tr).2
  cases passed with
  | rejected msg => cases hout
  | runnable =>
    obtain ⟨rfl, hresult⟩ : tc' = tc ∧ (slot (batchResults env user calls s tr).1 i).getD
        (.error (.tool (.executionFailed tc'.name "No result available"))) = result := by
      cases hout
      exact ⟨rfl, rfl⟩
    have hmem : (i, tc') ∈ runnableOf (batchPreflight env user calls s tr).1.entries :=
      List.mem_filterMap.mpr ⟨_, hentry, rfl⟩
    obtain ⟨tc, htc, hown⟩ := hslotted.getD hmem (.tool (.executionFailed tc'.name "No result available"))
    -- The task at that position is the entry there.
    obtain ⟨⟨⟨tc₀, passed⟩, k⟩, hk, hrun⟩ := List.mem_filterMap.mp htc
    obtain rfl : tc = tc' := by
      cases passed with
      | rejected msg => cases hrun
      | runnable =>
        cases hrun
        have hat := List.mem_zipIdx_iff_getElem?.mp hk
        have hat' := List.mem_zipIdx_iff_getElem?.mp hentry
        exact congrArg Prod.fst (Option.some.inj (hat.symm.trans hat'))
    rw [← hresult]
    exact hown

/-- **Deferred calls** have results of their own. -/
theorem deferredResults_own (auto : List String) (runnable : List ToolCall) (tr : Trace W) :
    ∀ r ∈ deferredResults runnable (executeRunnable env auto .deferred
      (runnable.zipIdx.map fun t => (t.2, t.1)) tr).1, Own env r.1 r.2 := by
  intro r hr
  obtain ⟨⟨tc, i⟩, ht, rfl⟩ := List.mem_map.mp hr
  have hmem : (i, tc) ∈ runnable.zipIdx.map fun t => (t.2, t.1) := List.mem_map_of_mem ht
  obtain ⟨tc', htc', hown⟩ := (@executeRunnable_slotted W env auto .deferred _ tr).getD
    hmem (.tool (.executionFailed tc.name "Task failed during execution"))
  obtain ⟨t', ht', heq⟩ := List.mem_map.mp htc'
  cases heq
  have hat := List.mem_zipIdx_iff_getElem?.mp ht
  have hat' := List.mem_zipIdx_iff_getElem?.mp ht'
  obtain rfl : t'.1 = tc := Option.some.inj (hat'.symm.trans hat)
  exact hown

end Results

/-- A cleaned text the provider may answer with. -/
def Vocabulary.Says (v : Vocabulary) (text : String) : Prop := (trim text).isEmpty = true ∨ text ∈ v.said

/-- A text the loop may end with. -/
def Vocabulary.Answers (v : Vocabulary) (text : String) : Prop :=
  (∃ t, v.Says t ∧ text = delivered t) ∨ text ∈ v.instructions

/-- The agent's own text for a blank answer is heard. -/
theorem fallback_not_silent : isSilentReply (stripInternalToolCallText emptyReplyFallback) = false := by
  decide

variable {v : Vocabulary}

theorem Vocabulary.Audible.answers (hv : v.Audible) (h : v.Answers text) : isSilentReply text = false := by
  rcases h with ⟨t, hblank | hsaid, htext⟩ | hinstructions
  · have hfallback : finalText id t = emptyReplyFallback := if_pos hblank
    unfold delivered at htext
    rw [htext, hfallback]
    exact fallback_not_silent
  · rw [htext]
    exact hv.said t hsaid
  · exact hv.instructions text hinstructions

section Loop

variable {v : Vocabulary} {env : Env W} (hs : Speaks v env)

include hs

variable {text : String} {tr : Trace W}

theorem respondWithTools_says {ctx : ReasoningContext} (h : (respondWithTools env ctx tr).1 = .ok (.text text)) :
    ∃ t, v.Says t ∧ text = finalText id t := by
  unfold respondWithTools at h
  split at h
  · unfold Trace.complete at h
    dsimp only at h
    cases hr : (env.complete ⟨ChatMessage.system ctx.systemPrompt :: ctx.messages, []⟩ tr.world).1 with
    | error e =>
      rw [hr] at h
      cases h
    | ok response =>
      rw [hr] at h
      have htext : finalText env.cleanResponse (response.content.getD "") = text :=
        RespondResult.text.inj (Except.ok.inj h)
      exact ⟨_, hs.said hr "" List.mem_cons_self, htext.symm⟩
  · unfold Trace.complete at h
    dsimp only at h
    cases hr : (env.complete ⟨ChatMessage.system ctx.systemPrompt :: ctx.messages, ctx.availableTools⟩
      tr.world).1 with
    | error e =>
      rw [hr] at h
      cases h
    | ok response =>
      rw [hr] at h
      have hread : readToolAnswer env ctx.availableTools response = .text text := Except.ok.inj h
      unfold readToolAnswer at hread
      split at hread
      · cases hread
      · split at hread
        · cases hread
        · have htext := RespondResult.text.inj hread
          exact ⟨_, hs.said hr emptyReplyFallback (List.mem_cons_of_mem _ List.mem_cons_self), htext.symm⟩

variable {context : List ChatMessage} {prompts : Prompts}

theorem exchange_says {tools : List ToolDefinition} {force : Bool} {c : List ChatMessage}
    (h : (exchange env prompts tools force context tr).1 = .ok (.text text, c)) :
    ∃ t, v.Says t ∧ text = finalText id t := by
  unfold exchange at h
  dsimp only at h
  rcases hr : respondWithTools env
    ⟨context, tools, if force then prompts.withoutTools else prompts.withTools, force⟩ tr with ⟨e | r, tr₁⟩
  · rw [hr] at h
    cases e with
    | contextLengthExceeded used limit =>
      dsimp only at h
      rcases hr₂ : respondWithTools env
        ⟨compactMessagesForRetry context, if force then [] else tools,
          if force then prompts.withoutTools else prompts.withTools, force⟩ tr₁ with ⟨e | r, tr₂⟩
      · rw [hr₂] at h
        cases h
      · rw [hr₂] at h
        cases h
        exact respondWithTools_says hs (by rw [hr₂])
    | invalidResponse provider reason => cases h
    | other d => cases h
  · rw [hr] at h
    cases h
    exact respondWithTools_says hs (by rw [hr])

theorem checkAuthRequired_instructs {tc : ToolCall} {extension : String} {result : Except Error String}
    (hown : Own env tc result) (h : checkAuthRequired env tc.name result = some (extension, text)) :
    text ∈ v.instructions := by
  cases result with
  | error e =>
    unfold checkAuthRequired at h
    split at h
    · cases h
    · cases h
  | ok output => exact hs.instructions (hown output rfl) h

theorem postflight_instructs (tid : Uuid) (outcomes : List (ToolCall × CallOutcome)) (p : Postflight)
    (hown : ∀ tc result, (tc, CallOutcome.ran result) ∈ outcomes → Own env tc result)
    (hp : ∀ text, p.deferredAuth = some text → text ∈ v.instructions)
    (h : (postflight env tid outcomes p).deferredAuth = some text) : text ∈ v.instructions := by
  unfold postflight at h
  induction outcomes generalizing p with
  | nil => exact hp text h
  | cons o rest ih =>
    refine ih _ (fun tc result hmem => hown tc result (List.mem_cons_of_mem _ hmem)) ?_ h
    intro text ht
    rcases o with ⟨tc, msg | result⟩
    · exact hp text ht
    · have hnote : ∀ p' : Postflight, (∀ text, p'.deferredAuth = some text → text ∈ v.instructions) →
          ∀ text, (noteAuth env tid tc result p').deferredAuth = some text → text ∈ v.instructions := by
        intro p' hp' text ht
        unfold noteAuth at ht
        split at ht
        · rename_i hauth
          cases ht
          exact checkAuthRequired_instructs hs (hown tc result List.mem_cons_self) hauth
        · exact hp' text ht
      exact hnote { p with session := onLastTurn tid (recordResult result) p.session } hp text ht

variable {s : Session} {user : String} {tid : Uuid}

theorem runBatch_instructs {calls : List ToolCall} {content : Option String}
    (h : (runBatch env user tid calls content context s tr).1 = .finished (.response text)) :
    text ∈ v.instructions := by
  rw [runBatch_eq] at h
  unfold finishBatch at h
  cases hauth : (batchPostflight env user tid calls content context s tr).deferredAuth with
  | some instructions =>
    rw [hauth] at h
    cases h
    exact postflight_instructs hs tid _ (batchStart env tid calls content context s tr)
      (batchOutcomes_result user calls s tr) (fun _ ht => by cases ht) hauth
  | none =>
    rw [hauth] at h
    dsimp only at h
    split at h
    · cases h
    · cases h

/-- **The loop** ends with a text of the provider or with token instructions. -/
theorem agenticLoop_answers {n nudges : Nat}
    (h : (agenticLoop env user tid prompts n nudges context s tr).1 = .ok (.response text)) : v.Answers text := by
  induction n generalizing nudges context s tr with
  | zero => cases h
  | succ n ih =>
    unfold agenticLoop at h
    split at h
    · cases h
    · split at h
      · cases h
      · dsimp only at h
        rcases hx : exchange env prompts (env.toolDefinitions tr.world)
          (forceText env (env.maxToolIterations + 1 - n))
          (nudgedContext env (env.maxToolIterations + 1 - n) context) tr with
          ⟨e | ⟨t | ⟨calls, content⟩, c'⟩, tr'⟩
        · rw [hx] at h
          cases h
        · rw [hx] at h
          dsimp only at h
          split at h
          · exact ih h
          · have htext : stripInternalToolCallText t = text :=
              AgenticLoopResult.response.inj (Except.ok.inj h)
            obtain ⟨u, hu, ht⟩ := exchange_says hs (by rw [hx])
            rw [ht] at htext
            exact Or.inl ⟨u, hu, htext.symm⟩
        · rw [hx] at h
          dsimp only at h
          rcases hb : runBatch env user tid calls content c' s tr' with ⟨c'' | r, s', tr''⟩
          · rw [hb] at h
            exact ih h
          · rw [hb] at h
            cases h
            exact Or.inr (runBatch_instructs hs (by rw [hb]))

/-- **Hooks that transform a response** keep it or put a text of theirs in its place. -/
theorem runList_replaces (hooks : List (Hook W))
    (hhooks : ∀ hook ∈ hooks, ∃ w, hook ∈ env.hooks .transformResponse w) (user thread response : String) (w : W)
    {event : HookEvent}
    (h : (HookRegistry.runList env.fromStr hooks (.responseTransform user thread response) w).1 = .ok event) :
    ∃ response', event = .responseTransform user thread response'
      ∧ (response' = response ∨ response' ∈ v.replacements) := by
  induction hooks generalizing response w with
  | nil => exact ⟨response, (Except.ok.inj h).symm, Or.inl rfl⟩
  | cons hook rest ih =>
    have hrest : ∀ hook ∈ rest, ∃ w, hook ∈ env.hooks .transformResponse w :=
      fun hook' hmem => hhooks hook' (List.mem_cons_of_mem hook hmem)
    unfold HookRegistry.runList at h
    rcases hrun : hook.execute (.responseTransform user thread response) w with
      ⟨(modified | reason) | err | t, w'⟩
    · rw [hrun] at h
      cases modified with
      | none => exact ih hrest response w' h
      | some value =>
        obtain ⟨w₀, hmem⟩ := hhooks hook List.mem_cons_self
        have hvalue : value ∈ v.replacements := hs.replacements hmem (by rw [hrun])
        obtain ⟨response', hevent, hresponse⟩ := ih hrest value w' h
        refine ⟨response', hevent, Or.inr ?_⟩
        rcases hresponse with hsame | hnew
        · rw [hsame]
          exact hvalue
        · exact hnew
    · rw [hrun] at h
      cases h
    · rw [hrun] at h
      dsimp only at h
      split at h
      · exact ih hrest response w' h
      · cases h
    · rw [hrun] at h
      dsimp only at h
      split at h
      · exact ih hrest response w' h
      · cases h

theorem runHooks_replaces (user thread response : String) (st : AgentState W) (text : String)
    (h : (st.runHooks env (.responseTransform user thread response)).1 = .ok (.continue (some text))) :
    text ∈ v.replacements := by
  have hrun : (HookRegistry.run env.fromStr env.toText (env.hooks .transformResponse st.trace.world)
      (.responseTransform user thread response) st.trace.world).1 = .ok (.continue (some text)) := h
  unfold HookRegistry.run at hrun
  split at hrun
  · cases hrun
  · rcases hlist : HookRegistry.runList env.fromStr (env.hooks .transformResponse st.trace.world)
      (.responseTransform user thread response) st.trace.world with ⟨e | event, w'⟩
    · rw [hlist] at hrun
      cases hrun
    · rw [hlist] at hrun
      dsimp only at hrun
      obtain ⟨response', hevent, hresponse⟩ := runList_replaces hs _
        (fun hook hmem => ⟨_, hmem⟩) user thread response st.trace.world (by rw [hlist])
      split at hrun
      · rename_i hchanged
        have htext : event.extractContent env.toText = text :=
          Option.some.inj (HookOutcome.continue.inj (Except.ok.inj hrun))
        rw [hevent] at hchanged htext
        rcases hresponse with hsame | hnew
        · exact absurd hsame hchanged
        · rw [← htext]
          exact hnew
      · cases hrun

theorem transformResponse_not_silent (hv : v.Audible) (user : String) (tid : Uuid) {response : String}
    (hresponse : isSilentReply response = false) (st : AgentState W) :
    isSilentReply (transformResponse env user tid response st).1 = false := by
  have hreplaced := runHooks_replaces hs user (Uuid.toString tid) response st
  unfold transformResponse
  generalize st.runHooks env (.responseTransform user (Uuid.toString tid) response) = result at hreplaced ⊢
  rcases result with ⟨e | (_ | text) | reason, st'⟩
  · cases e with
    | rejected reason =>
      exact (((loud_of_starts "[Response filtered: " (by decide)).append reason).append "]").not_silent
    | executionFailed reason =>
      exact (((loud_of_starts "[Response blocked by hook policy: " (by decide)).append _).append "]").not_silent
    | timeout t =>
      exact (((loud_of_starts "[Response blocked by hook policy: " (by decide)).append _).append "]").not_silent
  · exact hresponse
  · exact hv.replacements text (hreplaced text rfl)
  · exact hresponse

end Loop

/-! ## Handlers -/

/-- An outcome of a handler that is not turned into `Ok(None)`. -/
def Replies (outcome : Except Error SubmissionResult) : Prop := outcome.map replyOf ≠ .ok none

theorem replies_error (e : Error) : Replies (.error e) := fun h => by cases h

theorem replies_ok (h : Heard r) : Replies (.ok r) :=
  fun hnone => h (Except.ok.inj hnone)

theorem replies_message (text : String) : Replies (.ok (.okWithMessage text)) :=
  replies_ok (Option.some_ne_none _)

theorem replies_failure (message : String) : Replies (.ok (.error message)) :=
  replies_ok (Option.some_ne_none _)

/-- Undoing and redoing reply, whatever the undo manager does. -/
theorem moveInHistory_replies (env : Env W) (possible : UndoManager → Bool)
    (move : UndoManager → Uuid → Nat → List ChatMessage → Option Checkpoint × UndoManager) (nothing failed : String)
    (moved : Checkpoint → UndoManager → String) (user : String) (tid : Uuid) (st : AgentState W) :
    Replies (moveInHistory env possible move nothing failed moved user tid st).1 := by
  unfold moveInHistory
  dsimp only
  split
  · exact replies_message _
  · split
    · exact replies_error _
    · split
      · exact replies_message _
      · exact replies_failure _

section Handlers

variable {v : Vocabulary} {env : Env W} (hs : Speaks v env) (hv : v.Audible) (cmds : CommandEnv W)
  (user : String) (tid : Uuid) (st : AgentState W)

/-- A loop result whose text, if it is one, is heard. -/
def HeardResult (result : Except Error AgenticLoopResult) : Prop :=
  ∀ text, result = .ok (.response text) → isSilentReply text = false

include hs hv

theorem runLoop_heard (context : List ChatMessage) : HeardResult (runLoop env user tid context st).1 := by
  intro text h
  unfold runLoop at h
  cases hsession : st.manager.session user with
  | none =>
    rw [hsession] at h
    cases h
  | some s =>
    rw [hsession] at h
    exact hv.answers (agenticLoop_answers hs h)

variable {result : Except Error AgenticLoopResult}

theorem finishTurn_replies (h : HeardResult result) :
    Replies (finishTurn env user tid result st).1 := by
  unfold finishTurn
  split
  · exact replies_error _
  · split
    · exact replies_ok (Option.some_ne_none _)
    · split
      · exact replies_ok (heard_response (transformResponse_not_silent hs hv user tid (h _ rfl) st))
      · exact replies_ok (Option.some_ne_none _)
      · exact replies_failure _

omit hs hv in
theorem finishApproval_replies (h : HeardResult result) :
    Replies (finishApproval env user tid result st).1 := by
  unfold finishApproval
  split
  · exact replies_error _
  · split
    · exact replies_ok (heard_response (h _ rfl))
    · exact replies_ok (Option.some_ne_none _)
    · exact replies_failure _

theorem processUserInput_replies (msg : IncomingMessage) (content : String) :
    Replies (processUserInput env cmds msg tid content st).1 := by
  unfold processUserInput
  split
  · exact replies_error _
  · split
    · exact replies_failure _
    · split
      · rename_i intent _
        have hheard := fun r => handleJobOrCommand_heard cmds intent msg.userId msg.channel st.trace.world (r := r)
        generalize handleJobOrCommand cmds intent msg.userId msg.channel st.trace.world = outcome at hheard ⊢
        rcases outcome with ⟨e | r, w⟩
        · exact replies_error e
        · exact replies_ok (hheard r rfl)
      · exact finishTurn_replies hs hv msg.userId tid _ (runLoop_heard hs hv msg.userId tid _ _)

omit hv in
theorem deferredPostflight_instructs (rs : List (ToolCall × Except Error String)) (p : DeferredPostflight W)
    (hown : ∀ r ∈ rs, Own env r.1 r.2) (hp : ∀ text, p.deferredAuth = some text → text ∈ v.instructions) (text : String)
    (h : (rs.foldl (deferredPostflightCall env user tid) p).deferredAuth = some text) : text ∈ v.instructions := by
  induction rs generalizing p with
  | nil => exact hp text h
  | cons r rest ih =>
    refine ih _ (fun r' hmem => hown r' (List.mem_cons_of_mem _ hmem)) ?_ h
    clear h
    intro text ht
    have hfirst : ∀ p' : DeferredPostflight W, (∀ text, p'.deferredAuth = some text → text ∈ v.instructions) →
        ∀ text, (interceptFirstAuth env user tid r.1 r.2 p').deferredAuth = some text →
          text ∈ v.instructions := by
      intro p' hp' text ht
      unfold interceptFirstAuth at ht
      split at ht
      · rename_i hauth
        cases ht
        exact checkAuthRequired_instructs hs (hown r List.mem_cons_self) hauth
      · exact hp' text ht
    exact hfirst { p with state := p.state.modifyThread user tid (Thread.modifyLastTurn (recordResult r.2)) }
      hp text ht

theorem replayDeferred_replies (deferred : List ToolCall) (context : List ChatMessage) :
    Replies (replayDeferred env user tid deferred context st).1 := by
  unfold replayDeferred
  dsimp only
  have hinstructs := deferredPostflight_instructs hs user tid
    (deferredResults (deferredPreflight env (st.autoApproved user) st.trace.world 0 deferred).1
      (executeRunnable env (st.autoApproved user) .deferred
        ((deferredPreflight env (st.autoApproved user) st.trace.world 0 deferred).1.zipIdx.map
          fun t => (t.2, t.1)) st.trace).1)
    { state := { st with trace := (executeRunnable env (st.autoApproved user) .deferred
        ((deferredPreflight env (st.autoApproved user) st.trace.world 0 deferred).1.zipIdx.map
          fun t => (t.2, t.1)) st.trace).2 }, context }
    (deferredResults_own _ _ st.trace) (fun _ h => by cases h)
  unfold afterDeferred
  split
  · rename_i text hauth
    exact replies_ok (heard_response (hv.instructions text (hinstructs text hauth)))
  · split
    · exact replies_ok (Option.some_ne_none _)
    · exact finishApproval_replies user tid _ (runLoop_heard hs hv user tid _ _)

omit hv in
/-- What an approved call tells the user are instructions. -/
theorem approved_instructs {pending : PendingApproval} {extension : String}
    (h : checkAuthRequired env pending.toolName (executeApproved env user tid pending st).1 = some (extension, text)) :
    text ∈ v.instructions :=
  checkAuthRequired_instructs hs (executeChatTool_result _ _ pending.call st.trace) h

theorem processApproval_replies (requestId : Option Uuid) (approved always : Bool) :
    Replies (processApproval env user tid requestId approved always st).1 := by
  unfold processApproval
  split
  · exact replies_error _
  · split
    · exact replies_message _
    · split
      · exact replies_message _
      · dsimp only
        split
        · exact replies_failure _
        · split
          · unfold resumeApproved
            dsimp only
            split
            · rename_i hauth
              exact replies_ok (heard_response (hv.instructions _ (approved_instructs hs user tid _ hauth)))
            · exact replayDeferred_replies hs hv user tid _ _ _
          · apply replies_ok
            apply heard_loud
            unfold rejectionText
            repeat apply Loud.append
            exact loud_of_starts "Tool '" (by decide)

omit hs hv in
theorem askAboutThread_replies (instruction question empty failure : String) {heading : String}
    (hheading : Loud heading) :
    Replies (askAboutThread env instruction question empty heading failure user tid st).1 := by
  unfold askAboutThread
  split
  · exact replies_error _
  · split
    · exact replies_message _
    · split
      · exact replies_ok (heard_loud (hheading.append _))
      · exact replies_failure _

/-- **Every handler replies**; only quitting has none. -/
theorem dispatch_replies (msg : IncomingMessage) (now : Time) (submission : Submission)
    {r : Except Error SubmissionResult × AgentState W}
    (h : dispatch env cmds msg now tid submission st = some r) : Replies r.1 := by
  cases submission with
  | userInput content => cases h; exact processUserInput_replies hs hv cmds tid st msg content
  | systemCommand command args =>
    cases h
    exact replies_ok (handleSystemCommand_spoken cmds command args msg.channel st.trace.world).heard
  | execApproval requestId approved always =>
    cases h; exact processApproval_replies hs hv msg.userId tid st (some requestId) approved always
  | approvalResponse approved always =>
    cases h; exact processApproval_replies hs hv msg.userId tid st none approved always
  | undo => cases h; exact moveInHistory_replies env _ _ _ _ _ msg.userId tid st
  | redo => cases h; exact moveInHistory_replies env _ _ _ _ _ msg.userId tid st
  | resume checkpointId =>
    cases h
    unfold processResume
    dsimp only
    split
    · exact replies_failure _
    · split
      · exact replies_error _
      · exact replies_message _
  | interrupt =>
    cases h
    unfold processInterrupt
    split
    · exact replies_error _
    · split
      · exact replies_message _
      · exact replies_message _
  | compact =>
    cases h
    unfold processCompact
    split
    · exact replies_error _
    · split
      · exact replies_message _
      · exact replies_failure _
  | clear =>
    cases h
    unfold processClear
    split
    · exact replies_error _
    · exact replies_message _
  | newThread => cases h; exact replies_message _
  | switchThread target =>
    cases h
    unfold processSwitchThread
    split
    · exact replies_message _
    · exact replies_failure _
  | heartbeat =>
    cases h
    show Replies (.ok (processHeartbeat env cmds st.trace.world).1)
    unfold processHeartbeat
    split
    · split
      · exact replies_message _
      · exact replies_ok (heard_loud ((loud_of_starts "Heartbeat findings:\n\n" (by decide)).append _))
      · exact replies_message _
      · exact replies_failure _
    · exact replies_failure _
  | summarize =>
    cases h
    exact askAboutThread_replies msg.userId tid st _ _ _ _ (loud_of_starts "Thread Summary:\n\n" (by decide))
  | suggest =>
    cases h
    exact askAboutThread_replies msg.userId tid st _ _ _ _
      (loud_of_starts "Suggested Next Steps:\n\n" (by decide))
  | jobStatus jobId =>
    cases h
    show Replies (.ok (processJobStatus cmds msg.userId jobId st.trace.world))
    unfold processJobStatus
    cases hstatus : handleCheckStatus cmds msg.userId jobId st.trace.world with
    | ok text => exact replies_ok (heard_loud (handleCheckStatus_loud cmds msg.userId jobId _ hstatus))
    | error e => exact replies_failure _
  | jobCancel jobId =>
    cases h
    show Replies (.ok (processJobCancel cmds msg.userId jobId st.trace.world).1)
    unfold processJobCancel
    rcases hcancel : handleCancelJob cmds msg.userId jobId st.trace.world with ⟨e | text, w⟩
    · exact replies_failure _
    · exact replies_ok (heard_loud (handleCancelJob_loud cmds msg.userId jobId _ (by rw [hcancel])))
  | quit => cases h

end Handlers

/-! ## Messages -/

section Messages

variable {env : Env W} (cmds : CommandEnv W) (msg : IncomingMessage) (now : Time) (st : AgentState W)

/-- Quitting always returns `Ok(None)`. -/
theorem handleMessage_quit (h : SubmissionParser.parse env.decodeExecApproval msg.content = .quit) :
    (handleMessage env cmds msg now st).1 = .ok none := by
  unfold handleMessage
  rw [h]
  show (handleResolved env cmds msg now (locateThread env msg now st).1 .quit (locateThread env msg now st).2).1
    = .ok none
  unfold handleResolved
  split
  · rename_i hquit
    cases hquit
  · rfl

/-- **Nothing else does**, in surroundings whose vocabulary is audible. -/
theorem handleMessage_replies {v : Vocabulary} (hs : Speaks v env) (hv : v.Audible)
    (h : SubmissionParser.parse env.decodeExecApproval msg.content ≠ .quit) :
    (handleMessage env cmds msg now st).1 ≠ .ok none := by
  have hsubmission : ∀ submission : Submission, submission ≠ .quit → ∀ (tid : Uuid) (st : AgentState W),
      (handleSubmission env cmds msg now tid submission st).1 ≠ .ok none := by
    intro submission hne tid st
    unfold handleSubmission
    cases hd : dispatch env cmds msg now tid submission st with
    | none =>
      cases submission with
      | quit => exact absurd rfl hne
      | _ => cases hd
    | some r => exact dispatch_replies hs hv cmds tid st msg now submission hd
  have hresolved : ∀ submission : Submission, submission ≠ .quit → ∀ (tid : Uuid) (st : AgentState W),
      (handleResolved env cmds msg now tid submission st).1 ≠ .ok none := by
    intro submission hne tid st
    unfold handleResolved
    split
    · intro hnone
      cases hnone
    · exact hsubmission _ hne tid _
  unfold handleMessage
  generalize SubmissionParser.parse env.decodeExecApproval msg.content = parsed at h ⊢
  -- Hooks may change the text of an input, which stays an input.
  have hhook : ∀ submission, (inboundHook env msg parsed st).1 = .ok submission → submission ≠ .quit := by
    intro submission hok
    unfold inboundHook at hok
    split at hok
    · split at hok
      · cases hok
      · cases hok
      · rw [← Except.ok.inj hok]
        intro hquit
        cases hquit
      · rw [← Except.ok.inj hok]
        exact h
    · rw [← Except.ok.inj hok]
      exact h
  rcases hi : inboundHook env msg parsed st with ⟨reply | submission, st₁⟩
  · intro hnone
    cases hnone
  · exact hresolved submission (hhook submission (by rw [hi])) _ _

end Messages

/-! ## Silent surroundings -/

variable {st : AgentState W} {env : Env W} {t : Thread}

/-- A turn whose loop ends with a text is answered with it, transformed. -/
theorem runTurn_response {user : String} {tid : Uuid} {context : List ChatMessage} (ht : st.thread user tid = some t)
    (hstate : t.state ≠ .interrupted)
    (hloop : ∀ s, isInterrupted s tid = false → (runAgenticLoop env user tid context s st.trace).1 =
      .ok (.response text)) :
    ∃ st', (runTurn env user tid context st).1 = .ok (.response (transformResponse env user tid text st').1) := by
  obtain ⟨s, hsession, hlookup⟩ := Option.bind_eq_some_iff.mp ht
  have hrunning : isInterrupted s tid = false := by
    unfold isInterrupted
    rw [hlookup]
    simpa using hstate
  have hframe := (runAgenticLoop_frame env user tid context s st.trace).threads tid
  have hresult := hloop s hrunning
  unfold runTurn runLoop
  rw [hsession]
  dsimp only
  generalize runAgenticLoop env user tid context s st.trace = out at hframe hresult ⊢
  obtain ⟨result, s', tr'⟩ := out
  dsimp only at hframe hresult ⊢
  -- The loop leaves the thread's state alone.
  obtain ⟨t', ht', hkept⟩ : ∃ t', s'.threads.lookup tid = some t' ∧ t'.kept = t.kept := by
    rw [hlookup] at hframe
    exact Option.map_eq_some_iff.mp hframe
  have hstate' : t'.state ≠ .interrupted := by
    have hsame : t'.kept.state = t.kept.state := congrArg Thread.state hkept
    intro hinterrupted
    exact hstate (hsame.symm.trans hinterrupted)
  let after : AgentState W :=
    { st with manager := { st.manager with sessions := st.manager.sessions.insert user s' }, trace := tr' }
  have hthread : after.thread user tid = some t' := by
    show ((st.manager.sessions.insert user s').lookup user).bind (fun s => s.threads.lookup tid) = some t'
    rw [AList.lookup_insert]
    exact ht'
  refine ⟨after, ?_⟩
  show (finishTurn env user tid result after).1 = _
  unfold finishTurn
  rw [hthread, hresult]
  dsimp only
  rw [if_neg hstate']

/-- Without hooks nothing happens. -/
theorem runHooks_nil {event : HookEvent} (h : env.hooks event.hookPoint st.trace.world = []) :
    st.runHooks env event = (.ok (.continue none), st) := by
  unfold AgentState.runHooks Trace.runHooks
  rw [h]
  rfl

/-- The surroundings let a user's first input through to the loop. -/
structure LetsThrough (env : Env W) : Prop where
  hooks : ∀ w, env.hooks .beforeInbound w = []
  valid : ∀ content, env.validateInput content = []
  policy : ∀ content, env.policyBlocks content = false
  secrets : ∀ content, env.scanInboundForSecrets content = none
  compaction : ∀ messages, env.suggestCompaction messages = none

/-- The thread a message is located on is there. -/
theorem locateThread_present (env : Env W) (msg : IncomingMessage) (now : Time) (st : AgentState W) :
    ∃ t, (locateThread env msg now st).2.thread msg.userId (locateThread env msg now st).1 = some t := by
  apply Option.isSome_iff_exists.mp
  unfold locateThread
  dsimp only
  exact (SessionManager.holds_resolveThread _ msg.userId msg.channel msg.threadId _ _ now msg.userId _).mpr
    (Or.inr ⟨rfl, rfl⟩)

/-- The thread of a turn that has been opened is processing. -/
theorem openTurn_thread (env : Env W) (user : String) (tid : Uuid) (content : String) (ht : st.thread user tid = some t)
    (thread : Thread) :
    (openTurn env user tid content thread st).thread user tid = some (thread.startTurn content) := by
  let opened := (checkpointTurn env tid thread (st.modifyThread user tid fun _ => thread)).modifyThread user tid
    (Thread.startTurn · content)
  have hmanager : (openTurn env user tid content thread st).manager = opened.manager :=
    (persistMessage_same env tid user (opened.emit (.asked user content)) "user" content).1
  have hopened : opened.thread user tid = some (thread.startTurn content) := by
    have hthread : (checkpointTurn env tid thread (st.modifyThread user tid fun _ => thread)).thread user tid
        = (st.modifyThread user tid fun _ => thread).thread user tid := rfl
    rw [AgentState.thread_modifyThread_self, hthread, AgentState.thread_modifyThread_self, ht]
    rfl
  unfold AgentState.thread at hopened ⊢
  rw [hmanager]
  exact hopened

/-- The first message an agent gets. -/
def hello : IncomingMessage := { channel := "cli", userId := "ann", content := "hello" }

/-- Its outcome. -/
def greeted (env : Env Nat) : Except Error (Option String) :=
  (handleMessage env (CommandEnv.idle Nat) hello 0 (AgentState.start {} 0)).1

/-- A fresh agent answers its first message with what the loop ends with, transformed. -/
theorem greeted_response {env : Env Nat} (hlets : LetsThrough env)
    (hloop : ∀ tid context s tr, isInterrupted s tid = false →
      (runAgenticLoop env "ann" tid context s tr).1 = .ok (.response text)) :
    ∃ tid st, greeted env = .ok (replyOf (.response (transformResponse env "ann" tid text st).1)) := by
  let st₀ : AgentState Nat := AgentState.start {} 0
  have hparse : SubmissionParser.parse env.decodeExecApproval hello.content = .userInput "hello" := rfl
  have hhook : inboundHook env hello (.userInput "hello") st₀ = (.ok (.userInput "hello"), st₀) := by
    unfold inboundHook
    dsimp only
    rw [runHooks_nil (hlets.hooks _)]
  -- The thread is new, hence empty and idle.
  have hlocated : (locateThread env hello 0 st₀).2.thread "ann" (locateThread env hello 0 st₀).1
      = some (Thread.withId (locateThread env hello 0 st₀).1) := by
    obtain ⟨t, ht⟩ := locateThread_present env hello 0 st₀
    rcases locateThread_thread env hello 0 st₀ ht with hold | ⟨_, hnew | ⟨hext, _⟩⟩
    · cases hold
    · rw [hnew] at ht
      exact ht
    · cases hext
  generalize hloc : locateThread env hello 0 st₀ = located at hlocated
  obtain ⟨tid, st⟩ := located
  dsimp only at hlocated
  have hrefuse : refuseInput env (Thread.withId tid).state "hello" = none := by
    unfold refuseInput
    rw [hlets.valid, hlets.policy, hlets.secrets]
    rfl
  have hcompact : autoCompact env (Thread.withId tid) st.trace = (Thread.withId tid, st.trace) := by
    unfold autoCompact
    rw [hlets.compaction]
  have hinput : processUserInput env (CommandEnv.idle Nat) hello tid "hello" st
      = runTurn env "ann" tid ((Thread.withId tid).startTurn "hello").messages
          (openTurn env "ann" tid "hello" (Thread.withId tid) st) := by
    unfold processUserInput
    rw [show st.thread hello.userId tid = some (Thread.withId tid) from hlocated]
    dsimp only
    rw [hrefuse]
    dsimp only
    rw [show Router.routeCommand "hello" = none from rfl]
    dsimp only
    rw [hcompact]
    rfl
  obtain ⟨st', hturn⟩ := runTurn_response
    (openTurn_thread env "ann" tid "hello" hlocated (Thread.withId tid)) (fun h => by cases h)
    (fun s h => hloop tid _ s _ h)
  refine ⟨tid, st', ?_⟩
  unfold greeted handleMessage
  rw [hparse, hhook]
  dsimp only
  rw [hloc]
  dsimp only
  unfold handleResolved
  rw [show (st.thread hello.userId tid).bind (·.pendingAuth) = none by
    rw [show st.thread hello.userId tid = some (Thread.withId tid) from hlocated]; rfl]
  show (handleSubmission env (CommandEnv.idle Nat) hello 0 tid (.userInput "hello") st).1 = _
  unfold handleSubmission
  show (processUserInput env (CommandEnv.idle Nat) hello tid "hello" st).1.map replyOf = _
  rw [hinput, hturn]
  rfl

/-- Without hooks a response stays as it is. -/
theorem transformResponse_unhooked (hnone : ∀ w, env.hooks .transformResponse w = []) (user : String) (tid : Uuid)
    (response : String) (st : AgentState W) : (transformResponse env user tid response st).1 = response := by
  unfold transformResponse
  rw [runHooks_nil (hnone _)]

/-- A provider that always says the same. -/
def sayingEnv (text : String) : Env Nat :=
  { Env.idle Nat with complete := fun _ n => (.ok ⟨some text, []⟩, n + 1) }

theorem sayingEnv_speaks (h : text ∈ v.said) : Speaks v (sayingEnv text) where
  said := by
    intro request w response hr absent _
    rw [← Except.ok.inj hr]
    exact Or.inr h
  instructions := by
    intro tc output extension t _ hauth
    unfold checkAuthRequired at hauth
    split at hauth
    · cases hauth
    · cases hauth
  replacements := by
    intro w hook hmem
    cases hmem

theorem runAgenticLoop_saying (text user : String) (tid : Uuid) (context : List ChatMessage) (s : Session)
    (tr : Trace Nat) (h : isInterrupted s tid = false) :
    (runAgenticLoop (sayingEnv text) user tid context s tr).1 = .ok (.response (delivered text)) := by
  show (agenticLoop (sayingEnv text) _ _ _ (10 + 1) 0 _ s _).1 = _
  unfold agenticLoop
  rw [h]
  rfl

theorem greeted_saying (text : String) : greeted (sayingEnv text) = .ok (replyOf (.response (delivered text))) := by
  have hlets : LetsThrough (sayingEnv text) :=
    ⟨fun _ => rfl, fun _ => rfl, fun _ => rfl, fun _ => rfl, fun _ => rfl⟩
  obtain ⟨tid, st, hst⟩ := greeted_response hlets (runAgenticLoop_saying text "ann")
  rw [hst, transformResponse_unhooked fun _ => rfl]

/-- A provider that calls a tool, which asks for a token. -/
def askingEnv (instructions : String) : Env Nat :=
  { Env.idle Nat with
    complete := fun _ n => (.ok ⟨some "", [⟨"a", "tool_auth", .null⟩]⟩, n + 1)
    tool := fun _ name => if name = "tool_auth" then some ⟨"authenticate", [], fun _ => .never, none⟩ else none
    toolDefinitions := fun _ => [⟨"tool_auth", "authenticate", .null⟩]
    fromStr := fun _ => some (.object [("awaiting_token", .bool true), ("name", .string "mail"),
      ("instructions", .string instructions)]) }

theorem askingEnv_speaks (h : text ∈ v.instructions) : Speaks v (askingEnv text) where
  said := by
    intro request w response hr absent _
    rw [← Except.ok.inj hr]
    exact Or.inl rfl
  instructions := by
    intro tc output extension t _ hauth
    unfold checkAuthRequired at hauth
    split at hauth
    · cases hauth
    · have hsome : some ("mail", text) = some (extension, t) := hauth
      have ht : text = t := congrArg Prod.snd (Option.some.inj hsome)
      rw [← ht]
      exact h
  replacements := by
    intro w hook hmem
    cases hmem

theorem runAgenticLoop_asking (text user : String) (tid : Uuid) (context : List ChatMessage) (s : Session)
    (tr : Trace Nat) (h : isInterrupted s tid = false) :
    (runAgenticLoop (askingEnv text) user tid context s tr).1 = .ok (.response text) := by
  show (agenticLoop (askingEnv text) _ _ _ (10 + 1) 0 _ s _).1 = _
  unfold agenticLoop
  rw [h]
  rfl

theorem greeted_asking (text : String) : greeted (askingEnv text) = .ok (replyOf (.response text)) := by
  have hlets : LetsThrough (askingEnv text) :=
    ⟨fun _ => rfl, fun _ => rfl, fun _ => rfl, fun _ => rfl, fun _ => rfl⟩
  obtain ⟨tid, st, hst⟩ := greeted_response hlets (runAgenticLoop_asking text "ann")
  rw [hst, transformResponse_unhooked fun _ => rfl]

/-- A provider that says nothing, and a hook that puts a text in its place. -/
def replacingEnv (text : String) : Env Nat :=
  { sayingEnv "" with
    hooks := fun point _ =>
      if point = .transformResponse then
        [⟨"replace", .failOpen, fun _ w => (.answered (.continue (some text)), w)⟩]
      else [] }

theorem replacingEnv_speaks (h : text ∈ v.replacements) : Speaks v (replacingEnv text) where
  said := by
    intro request w response hr absent _
    rw [← Except.ok.inj hr]
    exact Or.inl rfl
  instructions := by
    intro tc output extension t _ hauth
    unfold checkAuthRequired at hauth
    split at hauth
    · cases hauth
    · cases hauth
  replacements := by
    intro w hook hmem event w' value hvalue
    rw [List.mem_singleton.mp hmem] at hvalue
    have hsame : text = value := Option.some.inj (HookOutcome.continue.inj (HookRun.answered.inj hvalue))
    rw [← hsame]
    exact h

theorem transformResponse_replacing {response : String} (hne : text ≠ response) (user : String) (tid : Uuid)
    (st : AgentState Nat) : (transformResponse (replacingEnv text) user tid response st).1 = text := by
  have hrun : (st.runHooks (replacingEnv text) (.responseTransform user (Uuid.toString tid) response)).1
      = .ok (.continue (some text)) := by
    show (if text ≠ response then (Except.ok (HookOutcome.continue (some text)), st.trace.world)
      else (.ok (.continue none), st.trace.world)).1 = _
    rw [if_pos hne]
  unfold transformResponse
  generalize st.runHooks (replacingEnv text) (.responseTransform user (Uuid.toString tid) response) = result
    at hrun ⊢
  obtain ⟨result, st'⟩ := result
  dsimp only at hrun
  rw [hrun]

theorem runAgenticLoop_replacing (text user : String) (tid : Uuid) (context : List ChatMessage) (s : Session)
    (tr : Trace Nat) (h : isInterrupted s tid = false) :
    (runAgenticLoop (replacingEnv text) user tid context s tr).1 = .ok (.response (delivered "")) := by
  show (agenticLoop (replacingEnv text) _ _ _ (10 + 1) 0 _ s _).1 = _
  unfold agenticLoop
  rw [h]
  rfl

theorem greeted_replacing (hsilent : isSilentReply text = true) : greeted (replacingEnv text) = .ok none := by
  have hlets : LetsThrough (replacingEnv text) :=
    ⟨fun _ => rfl, fun _ => rfl, fun _ => rfl, fun _ => rfl, fun _ => rfl⟩
  obtain ⟨tid, st, hst⟩ := greeted_response hlets (runAgenticLoop_replacing text "ann")
  have hne : text ≠ delivered "" := by
    intro h
    have hblank : finalText id "" = emptyReplyFallback := if_pos (by decide)
    unfold delivered at h
    rw [h, hblank, fallback_not_silent] at hsilent
    cases hsilent
  rw [hst, transformResponse_replacing hne]
  show Except.ok (if isSilentReply text = true then none else some text) = .ok none
  rw [if_pos hsilent]

/-- **Only quitting stops the agent, when nobody can say a silent reply.** For every vocabulary: in all
    surroundings that keep to it, for every message and every state, `Ok(None)` means quitting, exactly when no
    text of the provider is a silent reply once it is stripped for delivery, no token instructions in an output
    that a tool can give are one, and no text is one that the response hooks put in place. -/
theorem only_quit_stops_iff (v : Vocabulary) :
    (∀ (W : Type) (env : Env W), Speaks v env →
        ∀ (cmds : CommandEnv W) (msg : IncomingMessage) (now : Time) (st : AgentState W),
          (handleMessage env cmds msg now st).1 = .ok none
            ↔ SubmissionParser.parse env.decodeExecApproval msg.content = .quit)
      ↔ v.Audible := by
  constructor
  · intro hall
    have hheard : ∀ env : Env Nat, Speaks v env → env.decodeExecApproval = (Env.idle Nat).decodeExecApproval →
        greeted env ≠ .ok none := by
      intro env hs hdecode hnone
      have hquit := (hall Nat env hs (CommandEnv.idle Nat) hello 0 (AgentState.start {} 0)).mp hnone
      rw [hdecode] at hquit
      have hinput : SubmissionParser.parse (Env.idle Nat).decodeExecApproval hello.content
          = .userInput "hello" := rfl
      rw [hinput] at hquit
      cases hquit
    have hsilent : ∀ {text : String}, replyOf (.response text) ≠ none → isSilentReply text = false := by
      intro text h
      cases hs : isSilentReply text with
      | false => rfl
      | true =>
        exact absurd (show (if isSilentReply text = true then none else some text) = none by rw [if_pos hs]) h
    refine ⟨?_, ?_, ?_⟩
    · intro text ht
      refine hsilent fun hnone => hheard (sayingEnv text) (sayingEnv_speaks ht) rfl ?_
      rw [greeted_saying, hnone]
    · intro text ht
      refine hsilent fun hnone => hheard (askingEnv text) (askingEnv_speaks ht) rfl ?_
      rw [greeted_asking, hnone]
    · intro text ht
      cases hs : isSilentReply text with
      | false => rfl
      | true => exact absurd (greeted_replacing hs) (hheard (replacingEnv text) (replacingEnv_speaks ht) rfl)
  · intro hv W env hs cmds msg now st
    constructor
    · intro hnone
      by_contra hquit
      exact handleMessage_replies cmds msg now st hs hv hquit hnone
    · exact handleMessage_quit cmds msg now st

/-- **The model says it has nothing to say**, and the agent shuts down. -/
theorem no_reply_stops_the_agent :
    (handleMessage (sayingEnv "NO_REPLY") (CommandEnv.idle Nat) hello 0 (AgentState.start {} 0)).1 = .ok none
      ∧ SubmissionParser.parse (sayingEnv "NO_REPLY").decodeExecApproval hello.content = .userInput "hello" := by
  refine ⟨?_, rfl⟩
  have hsilent : isSilentReply (delivered "NO_REPLY") = true := by decide
  show greeted (sayingEnv "NO_REPLY") = .ok none
  rw [greeted_saying]
  show Except.ok (if isSilentReply (delivered "NO_REPLY") = true then none else some (delivered "NO_REPLY"))
    = .ok none
  rw [if_pos hsilent]

end Freeclawdia.Shutdown
