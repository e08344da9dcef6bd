import Freeclawdia.Rust.Replace
import Freeclawdia.Tools.Tool

/-!
# `Tools.Builtin.Shell` — what the `shell` tool refuses

`tools/builtin/shell.rs`: the lists of patterns, the checks for obfuscated commands, and `execute_command` up to where
a command is run.
-/

namespace Freeclawdia

open Rust

/-- Commands that are always blocked for safety. -/
def BLOCKED_COMMANDS : List String :=
  ["rm -rf /", "rm -rf /*", ":()\x7b :|:& \x7d;:", "dd if=/dev/zero", "mkfs", "chmod -R 777 /", "> /dev/sda", "curl | sh",
    "wget | sh", "curl | bash", "wget | bash"]

/-- Patterns that indicate potentially dangerous commands. -/
def DANGEROUS_PATTERNS : List String :=
  ["sudo ", "doas ", " | sh", " | bash", " | zsh", "eval ", "$(curl", "$(wget", "/etc/passwd", "/etc/shadow", "~/.ssh",
    ".bash_history", "id_rsa"]

/-! ## Obfuscated commands -/

/-- What can come behind the name of a shell. -/
def endsShellName (c : Char) : Bool := [' ', '\t', '\n', ';', '|', '&', ')'].contains c

/-- What can come before a command. -/
def startsCommand (c : Char) : Bool := [' ', '\t', '|', ';', '&', '\n', '('].contains c

/-- Check if the command pipes to a specific interpreter, with word boundary validation. -/
def hasPipeTo (lower shell : String) : Bool :=
  ["| ", "|"].any fun pre =>
    (matchSplits (pre ++ shell).toList 0 [] lower.toList).any fun m => m.2.head?.all endsShellName

/-- Check if a command string contains a pipe to a shell interpreter. -/
def containsShellPipe (lower : String) : Bool :=
  hasPipeTo lower "sh" || hasPipeTo lower "bash" || hasPipeTo lower "zsh" || hasPipeTo lower "dash" ||
    hasPipeTo lower "/bin/sh" || hasPipeTo lower "/bin/bash"

/-- Check if a command string contains shell command substitution. -/
def hasCommandSubstitution (s : String) : Bool := contains s "$(" || contains s "`"

/-- Check if `token` appears as a standalone command. -/
def hasCommandToken (lower token : String) : Bool :=
  (matchSplits token.toList 0 [] lower.toList).any fun m => m.1.getLast?.all startsCommand

/-- Detect command injection and obfuscation attempts. -/
def detectCommandInjection (cmd : String) : Option String :=
  if cmd.toList.contains (Char.ofNat 0) then some "null byte in command"
  else
    let lower := toLowercase cmd
    if (contains lower "base64 -d" || contains lower "base64 --decode") && containsShellPipe lower then
      some "base64 decode piped to shell"
    else if (contains lower "printf" || contains lower "echo -e" || contains lower "echo $'") &&
        (contains lower "\\x" || contains lower "\\0") && containsShellPipe lower then
      some "encoded escape sequences piped to shell"
    else if (contains lower "xxd -r" || hasCommandToken lower "od ") && containsShellPipe lower then
      some "binary decode piped to shell"
    else if (hasCommandToken lower "dig " || hasCommandToken lower "nslookup " || hasCommandToken lower "host ") &&
        hasCommandSubstitution lower then
      some "potential DNS exfiltration via command substitution"
    else if (hasCommandToken lower "nc " || hasCommandToken lower "ncat " || hasCommandToken lower "netcat ") &&
        (contains lower "|" || contains lower "<") then
      some "netcat with data piping"
    else if contains lower "curl" &&
        (contains lower "-d @" || contains lower "-d@" || contains lower "--data @" || contains lower "--data-binary @" ||
          contains lower "--upload-file") then
      some "curl posting file contents"
    else if contains lower "wget" && contains lower "--post-file" then some "wget posting file contents"
    else if (contains lower "| rev" || contains lower "|rev") && containsShellPipe lower then
      some "string reversal piped to shell"
    else none

/-! ## The tool -/

/-- Shell command execution tool. -/
structure ShellTool where
  workingDir : Option String := none
  timeout : Nat := 120
  allowDangerous : Bool := false
  /-- A sandbox manager, and whether it is initialized or enabled. -/
  sandbox : Option Bool := none

/-- What running a command answers: its output and exit code. -/
structure ShellRuns where
  currentDir : String
  executeSandboxed : (cmd cwd : String) → (timeout : Nat) → Except Tools.ToolError (String × Int)
  executeDirect : (cmd cwd : String) → (timeout : Nat) → (extraEnv : List (String × String)) →
    Except Tools.ToolError (String × Int)

/-- Truncate command for error messages. -/
def truncateForError (s : String) : String :=
  if s.toList.length ≤ 100 then s else String.ofList (s.toList.take 100) ++ "..."

namespace ShellTool

/-- Check if a command is blocked. -/
def isBlocked (tool : ShellTool) (cmd : String) : Option String :=
  let normalized := toLowercase cmd
  if BLOCKED_COMMANDS.any fun blocked => contains normalized blocked then some "Command contains blocked pattern"
  else if !tool.allowDangerous && DANGEROUS_PATTERNS.any fun pattern => contains normalized pattern then
    some "Command contains potentially dangerous pattern"
  else none

/-- Execute a command, using sandbox if available. -/
def executeCommand (tool : ShellTool) (runs : ShellRuns) (cmd : String) (workdir : Option String) (timeout : Option Nat)
    (extraEnv : List (String × String)) : Except Tools.ToolError (String × Int) :=
  match tool.isBlocked cmd with
  | some reason => .error (.notAuthorized (reason ++ ": " ++ truncateForError cmd))
  | none =>
    match detectCommandInjection cmd with
    | some reason =>
      .error (.notAuthorized ("Command injection detected (" ++ reason ++ "): " ++ truncateForError cmd))
    | none =>
      let cwd := (workdir.or tool.workingDir).getD runs.currentDir
      let timeoutDuration := timeout.getD tool.timeout
      if tool.sandbox = some true then runs.executeSandboxed cmd cwd timeoutDuration
      else runs.executeDirect cmd cwd timeoutDuration extraEnv

end ShellTool
end Freeclawdia
