import Freeclawdia.Agent.Env
import Freeclawdia.Rust.Str

/-!
# `Llm.Reasoning` — one exchange with the model

`Reasoning::respond_with_tools` and its small relatives (`src/llm/reasoning.rs`). The message list sent to
the provider is the system prompt followed by the context; the answer becomes either a text or a batch of
tool calls, taken from the structured field or recovered from the text.

A batch is read off the answer to the one request that was made (`respondWithTools_spec`), and it is never empty: an
assistant message that asks for no tool would be one that nothing answers.
-/

namespace Freeclawdia

open Rust

variable {W : Type}

/-- Token the LLM returns when it has nothing to say. -/
def silentReplyToken : String := "NO_REPLY"

/-- Injected when the LLM announces a tool use without making the call. -/
def toolIntentNudge : String :=
  "You said you would perform an action, but you did not include any tool calls.\n"
    ++ "Do NOT describe what you intend to do — actually call the tool now.\n"
    ++ "Use the tool_calls mechanism to invoke the appropriate tool."

/-- Shown when the model's text is empty after cleaning. -/
def emptyReplyFallback : String := "I'm not sure how to respond to that."

/-- Is the text the silent reply token, possibly followed by a little punctuation? -/
def isSilentReply (text : String) : Bool :=
  trim text == silentReplyToken
    || (startsWith (trim text) silentReplyToken
      && decide (byteLen (trim text) ≤ byteLen silentReplyToken + 4)
      && ((trim text).toList.drop silentReplyToken.toList.length).all
          (fun c => isWhitespace c || isAsciiPunctuation c))

/-- What one exchange yields. -/
inductive RespondResult
  | text (text : String)
  | toolCalls (toolCalls : List ToolCall) (content : Option String)

/-- Context of one exchange; the system prompt is always the cached one. -/
structure ReasoningContext where
  messages : List ChatMessage
  availableTools : List ToolDefinition
  systemPrompt : String
  forceText : Bool

/-- Cleaned model text, or the fallback when nothing is left. -/
def finalText (clean : String → String) (content : String) : String :=
  if (trim (clean content)).isEmpty then emptyReplyFallback else clean content

variable (env : Env W)

/-- How an answer to a request with tools is read. -/
def readToolAnswer (tools : List ToolDefinition) (response : LlmResponse) : RespondResult :=
  if !response.toolCalls.isEmpty then
    .toolCalls response.toolCalls (response.content.map env.cleanResponse)
  else if !(env.recoverToolCalls (response.content.getD emptyReplyFallback) tools).isEmpty then
    .toolCalls (env.recoverToolCalls (response.content.getD emptyReplyFallback) tools)
      (if (env.cleanResponse (response.content.getD emptyReplyFallback)).isEmpty then none
        else some (env.cleanResponse (response.content.getD emptyReplyFallback)))
  else .text (finalText env.cleanResponse (response.content.getD emptyReplyFallback))

/-- `Reasoning::respond_with_tools`. Without tools a plain completion is asked for, and its tool calls, if a
    provider sends any, are not looked at. -/
def respondWithTools (ctx : ReasoningContext) (tr : Trace W) :
    Except LlmError RespondResult × Trace W :=
  if ctx.forceText || ctx.availableTools.isEmpty then
    match tr.complete env ⟨ChatMessage.system ctx.systemPrompt :: ctx.messages, []⟩ with
    | (.error e, tr) => (.error e, tr)
    | (.ok response, tr) => (.ok (.text (finalText env.cleanResponse (response.content.getD ""))), tr)
  else
    match tr.complete env ⟨ChatMessage.system ctx.systemPrompt :: ctx.messages, ctx.availableTools⟩ with
    | (.error e, tr) => (.error e, tr)
    | (.ok response, tr) => (.ok (readToolAnswer env ctx.availableTools response), tr)

variable {calls : List ToolCall} {tools : List ToolDefinition} {content : Option String}

/-- A batch is never empty. -/
theorem readToolAnswer_ne_nil {response : LlmResponse}
    (h : readToolAnswer env tools response = .toolCalls calls content) : calls ≠ [] := by
  unfold readToolAnswer at h
  split at h
  · rename_i hcalls
    cases h
    intro hnil
    simp [hnil] at hcalls
  · split at h
    · rename_i hrec
      cases h
      intro hnil
      simp [hnil] at hrec
    · cases h

/-- **One exchange**: the prompt and the context go to the provider in one request, and a batch is what was read off
    the answer to a request that offers the tools at hand. -/
theorem respondWithTools_spec (ctx : ReasoningContext) (tr : Trace W) :
    ∃ tools, (respondWithTools env ctx tr).2
        = (tr.complete env ⟨ChatMessage.system ctx.systemPrompt :: ctx.messages, tools⟩).2
      ∧ ∀ calls content, (respondWithTools env ctx tr).1 = .ok (.toolCalls calls content) →
        ∃ response, (env.complete ⟨ChatMessage.system ctx.systemPrompt :: ctx.messages, ctx.availableTools⟩
            tr.world).1 = .ok response ∧ readToolAnswer env ctx.availableTools response = .toolCalls calls content := by
  unfold respondWithTools
  split
  · refine ⟨[], ?_⟩
    rcases tr.complete env ⟨ChatMessage.system ctx.systemPrompt :: ctx.messages, []⟩ with ⟨_ | response, tr'⟩
    · exact ⟨rfl, fun _ _ h => by cases h⟩
    · exact ⟨rfl, fun _ _ h => by cases h⟩
  · refine ⟨ctx.availableTools, ?_⟩
    rcases hanswer : tr.complete env ⟨ChatMessage.system ctx.systemPrompt :: ctx.messages, ctx.availableTools⟩ with
      ⟨_ | response, tr'⟩
    · exact ⟨rfl, fun _ _ h => by cases h⟩
    · exact ⟨rfl, fun _ _ h => ⟨response, congrArg Prod.fst hanswer, Except.ok.inj h⟩⟩

/-- Where a text is forced, no calls are read. -/
theorem respondWithTools_forced {messages : List ChatMessage} {prompt : String} {tr tr' : Trace W}
    (h : respondWithTools env ⟨messages, tools, prompt, true⟩ tr = (.ok (.toolCalls calls content), tr')) : False := by
  unfold respondWithTools at h
  rw [if_pos (by rfl)] at h
  split at h
  · cases h
  · cases h

/-- `Reasoning::complete`: a plain completion with the text cleaned. -/
def completeText (messages : List ChatMessage) (tr : Trace W) :
    Except LlmError String × Trace W :=
  match tr.complete env ⟨messages, []⟩ with
  | (.error e, tr) => (.error e, tr)
  | (.ok response, tr) => (.ok (env.cleanResponse (response.content.getD "")), tr)

end Freeclawdia
