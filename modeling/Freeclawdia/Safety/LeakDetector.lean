import Freeclawdia.Lib.MultiPattern
import Freeclawdia.Rust.RegexSyntax
import Freeclawdia.Rust.Utf8
import Mathlib.Data.List.Sort

/-!
# `Safety.LeakDetector` — secrets in data that crosses the sandbox boundary

`safety/leak_detector.rs`. Ranges count characters here and bytes there: a match starts and ends between characters.
`isWord` is the table behind the `regex` crate's `\b`.
-/

namespace Freeclawdia

open Rust

/-! ## Patterns -/

/-- Action to take when a leak is detected. -/
inductive LeakAction
  | block
  | redact
  | warn
  deriving DecidableEq

/-- Severity of a detected leak. -/
inductive LeakSeverity
  | low
  | medium
  | high
  | critical
  deriving DecidableEq

/-- A pattern for detecting secret leaks; `source` is the text of its regex. -/
structure LeakPattern where
  name : String
  source : String
  severity : LeakSeverity
  action : LeakAction
  deriving DecidableEq

/-- The compiled regex. -/
def LeakPattern.regex (p : LeakPattern) : Regex := (Regex.parse p.source).getD .empty

/-- A detected potential secret leak. -/
structure LeakMatch where
  patternName : String
  severity : LeakSeverity
  action : LeakAction
  location : Nat × Nat
  maskedPreview : String

/-- Result of scanning content for leaks. -/
structure LeakScanResult where
  leaks : List LeakMatch
  shouldBlock : Bool
  redactedContent : Option String

/-- Error from leak detection. -/
inductive LeakDetectionError
  | secretLeakBlocked (pattern preview : String)

def LeakDetectionError.display : LeakDetectionError → String
  | secretLeakBlocked pattern preview =>
    "Secret leak blocked: pattern '" ++ pattern ++ "' matched '" ++ preview ++ "'"

/-! ## Masking and redaction -/

/-- Mask a secret for display: the first and the last four characters stay. Lengths are in bytes. -/
def maskSecret (secret : String) : String :=
  let len := byteLen secret
  if len ≤ 8 then String.ofList (List.replicate len '*')
  else
    String.ofList (secret.toList.take 4 ++ List.replicate (Nat.min (len - 8) 8) '*' ++ secret.toList.drop (len - 4))

/-- The loop of `apply_redactions`: `lastEnd` is where the last range ended, even if one before ended later. -/
def applyRedactions (content : List Char) : (lastEnd : Nat) → List (Nat × Nat) → List Char
  | lastEnd, [] => content.drop lastEnd
  | lastEnd, (start, stop) :: ranges =>
    (if lastEnd < start then (content.take start).drop lastEnd else []) ++ "[REDACTED]".toList ++
      applyRedactions content stop ranges

/-! ## The detector -/

/-- Characters that start special regex constructs. -/
def isRegexSpecial (c : Char) : Bool :=
  c = '[' || c = '(' || c = '.' || c = '*' || c = '+' || c = '?' || c = '\x7b' || c = '|' || c = '^' || c = '$' ||
    c = '\\'

/-- Extract a literal prefix from a regex pattern, if it has three bytes. -/
def extractLiteralPrefix (pattern : String) : Option String :=
  let lead := String.ofList (pattern.toList.takeWhile fun c => !isRegexSpecial c)
  if 3 ≤ byteLen lead then some lead else none

/-- Detector for secret leaks in output data. -/
structure LeakDetector where
  patterns : List LeakPattern
  /-- The words of the Aho-Corasick automaton. -/
  prefixMatcher : Option (List (List Char))
  /-- Prefixes with the number of their pattern. -/
  knownPrefixes : List (String × Nat)

namespace LeakDetector

/-- The prefixes of the patterns that have one. -/
def prefixesOf (patterns : List LeakPattern) : List (String × Nat) :=
  patterns.zipIdx.filterMap fun x =>
    match extractLiteralPrefix x.1.source with
    | some lead => if 3 ≤ byteLen lead then some (lead, x.2) else none
    | none => none

/-- Create a detector with custom patterns. -/
def withPatterns (patterns : List LeakPattern) : LeakDetector :=
  let prefixes := prefixesOf patterns
  { patterns := patterns
    prefixMatcher := if prefixes.isEmpty then none else some (prefixes.map fun x => x.1.toList)
    knownPrefixes := prefixes }

/-- Do two prefixes overlap, in that one starts with the other? -/
def comparable (other found : String) : Bool := startsWith other found || startsWith found other

/-- Add all patterns whose prefix overlaps with a found one. -/
def addOverlapping (known : List (String × Nat)) (found : String) (indices : List Nat) : List Nat :=
  known.foldl (fun acc x => if comparable x.1 found && !acc.contains x.2 then acc ++ [x.2] else acc) indices

/-- The patterns whose regex is run: those the prefix matcher cannot rule out. -/
def candidateIndices (d : LeakDetector) (content : String) : List Nat :=
  match d.prefixMatcher with
  | none => List.range d.patterns.length
  | some words =>
    let found := (MultiPattern.findIter words content.toList).foldl
      (fun acc hit => addOverlapping d.knownPrefixes ((d.knownPrefixes[hit.pattern]?).map Prod.fst |>.getD "") acc) []
    -- also include patterns without prefixes
    (List.range d.patterns.length).foldl
      (fun acc idx => if !(d.knownPrefixes.any fun x => x.2 == idx) && !acc.contains idx then acc ++ [idx] else acc)
      found

/-- The text of a range. -/
def slice (content : String) (range : Nat × Nat) : String :=
  String.ofList ((content.toList.take range.2).drop range.1)

variable (isWord : Char → Bool)

/-- The matches of one pattern. -/
def patternMatches (pattern : LeakPattern) (content : String) : List LeakMatch :=
  (pattern.regex.findIter isWord content.toList).map fun range =>
    { patternName := pattern.name
      severity := pattern.severity
      action := pattern.action
      location := range
      maskedPreview := maskSecret (slice content range) }

/-- The matches of the candidates, in the order they are found. -/
def candidateMatches (d : LeakDetector) (content : String) : List LeakMatch :=
  (d.candidateIndices content).flatMap fun idx =>
    ((d.patterns[idx]?).map fun pattern => patternMatches isWord pattern content).getD []

/-- Scan content for potential secret leaks. -/
def scan (d : LeakDetector) (content : String) : LeakScanResult :=
  let found := candidateMatches isWord d content
  let redactRanges := ((found.filter fun m => m.action = .redact).map LeakMatch.location).insertionSort
    fun a b => a.1 ≤ b.1
  { leaks := found.insertionSort fun a b => a.location.1 ≤ b.location.1
    shouldBlock := found.any fun m => m.action = .block
    redactedContent :=
      if redactRanges.isEmpty then none else some (String.ofList (applyRedactions content.toList 0 redactRanges)) }

/-- Scan content and return the cleaned version, or an error if it must be blocked. -/
def scanAndClean (d : LeakDetector) (content : String) : Except LeakDetectionError String :=
  let result := scan isWord d content
  if result.shouldBlock then
    let blocking := result.leaks.find? fun m => m.action = .block
    .error (.secretLeakBlocked ((blocking.map LeakMatch.patternName).getD "")
      ((blocking.map LeakMatch.maskedPreview).getD ""))
  else .ok (result.redactedContent.getD content)

/-- The headers of a request, one after the other. -/
def scanHeaders (d : LeakDetector) : List (String × String) → Except LeakDetectionError Unit
  | [] => .ok ()
  | (name, value) :: rest =>
    match scanAndClean isWord d value with
    | .error e => .error (.secretLeakBlocked ("header:" ++ name) e.display)
    | .ok _ => scanHeaders d rest

/-- Scan an outbound HTTP request for potential secret leakage. -/
def scanHttpRequest (d : LeakDetector) (url : String) (headers : List (String × String)) (body : Option (List UInt8)) :
    Except LeakDetectionError Unit :=
  match scanAndClean isWord d url with
  | .error e => .error e
  | .ok _ =>
    match scanHeaders isWord d headers with
    | .error e => .error e
    | .ok () =>
      match body with
      | none => .ok ()
      | some bytes => (scanAndClean isWord d (fromUtf8Lossy bytes)).map fun _ => ()

end LeakDetector

/-! ## The default patterns -/

/-- Default leak detection patterns. -/
def defaultPatterns : List LeakPattern :=
  [⟨"openai_api_key", "sk-(?:proj-)?[a-zA-Z0-9]\x7b20,\x7d(?:T3BlbkFJ[a-zA-Z0-9_-]*)?", .critical, .block⟩,
   ⟨"anthropic_api_key", "sk-ant-api[a-zA-Z0-9_-]\x7b90,\x7d", .critical, .block⟩,
   ⟨"aws_access_key", "AKIA[0-9A-Z]\x7b16\x7d", .critical, .block⟩,
   ⟨"github_token", "gh[pousr]_[A-Za-z0-9_]\x7b36,\x7d", .critical, .block⟩,
   ⟨"github_fine_grained_pat", "github_pat_[a-zA-Z0-9]\x7b22\x7d_[a-zA-Z0-9]\x7b59\x7d", .critical, .block⟩,
   ⟨"stripe_api_key", "sk_(?:live|test)_[a-zA-Z0-9]\x7b24,\x7d", .critical, .block⟩,
   ⟨"nearai_session", "sess_[a-zA-Z0-9]\x7b32,\x7d", .critical, .block⟩,
   ⟨"pem_private_key", "-----BEGIN\\s+(?:RSA\\s+)?PRIVATE\\s+KEY-----", .critical, .block⟩,
   ⟨"ssh_private_key", "-----BEGIN\\s+(?:OPENSSH|EC|DSA)\\s+PRIVATE\\s+KEY-----", .critical, .block⟩,
   ⟨"google_api_key", "AIza[0-9A-Za-z_-]\x7b35\x7d", .high, .block⟩,
   ⟨"slack_token", "xox[baprs]-[0-9a-zA-Z-]\x7b10,\x7d", .high, .block⟩,
   ⟨"twilio_api_key", "SK[a-fA-F0-9]\x7b32\x7d", .high, .block⟩,
   ⟨"sendgrid_api_key", "SG\\.[a-zA-Z0-9_-]\x7b22\x7d\\.[a-zA-Z0-9_-]\x7b43\x7d", .high, .block⟩,
   -- redact instead of block, might be intentional
   ⟨"bearer_token", "Bearer\\s+[a-zA-Z0-9_-]\x7b20,\x7d", .high, .redact⟩,
   ⟨"auth_header", "(?i)authorization:\\s*[a-zA-Z]+\\s+[a-zA-Z0-9_-]\x7b20,\x7d", .high, .redact⟩,
   -- potential secrets, warn only
   ⟨"high_entropy_hex", "\\b[a-fA-F0-9]\x7b64\x7d\\b", .medium, .warn⟩]

/-- Create a new detector with default patterns. -/
def LeakDetector.new : LeakDetector := LeakDetector.withPatterns defaultPatterns

end Freeclawdia
