import Freeclawdia.Lib.Joint
import Freeclawdia.Tools.Builtin.Shell

/-!
# `Correctness.ShellGate` — which spellings of a command the shell tool's gate misses

The gate compares texts in lower case, so the one blocked entry with a capital letter is never found; and it knows a
pipe to a shell with no blank or one, so with other blanks it takes the name of the shell for no shell.
-/

namespace Freeclawdia.ShellTool

open Rust

/-! ## What should hold -/

/-- The names of shells that the checks know. -/
def interpreters : List String := ["sh", "bash", "zsh", "dash", "/bin/sh", "/bin/bash"]

/-- A word ends before this text. -/
def WordEnds (rest : String) : Prop := ∀ c, rest.toList.head? = some c → endsShellName c = true

/-- Up to ASCII case, the command contains the text. -/
def ContainsIgnoringCase (cmd text : String) : Prop := contains (toAsciiLowercase cmd) (toAsciiLowercase text) = true

/-- The command is not run, whatever the other arguments are. -/
def Refuses (tool : ShellTool) (cmd : String) : Prop :=
  ∀ runs workdir timeout extraEnv, ∃ reason,
    tool.executeCommand runs cmd workdir timeout extraEnv = .error (.notAuthorized reason)

def Blanks (w : String) : Prop := ∀ c ∈ w.toList, c = ' ' ∨ c = '\t'

instance : DecidablePred Blanks := fun w => List.decidableBAll (fun c => c = ' ' ∨ c = '\t') w.toList

/-- The gate does not depend on how the command is spelled. -/
structure Uniform (tool : ShellTool) (cmd : String) : Prop where
  blocked : (∃ entry ∈ BLOCKED_COMMANDS, ContainsIgnoringCase cmd entry) → (tool.isBlocked cmd).isSome = true ∧
    tool.Refuses cmd
  blanks : ∀ before name rest w, cmd = before ++ "|" ++ name ++ rest → toAsciiLowercase name ∈ interpreters →
    WordEnds rest →
    Blanks w → (detectCommandInjection cmd).isSome = true →
      (detectCommandInjection (before ++ "|" ++ w ++ name ++ rest)).isSome = true

/-! ## When it holds -/

/-- Checks of a command that decodes something and has a pipe to a shell. -/
def decodes (lower : String) : Bool :=
  (contains lower "base64 -d" || contains lower "base64 --decode") ||
    ((contains lower "printf" || contains lower "echo -e" || contains lower "echo $'") &&
      (contains lower "\\x" || contains lower "\\0")) ||
    (contains lower "xxd -r" || hasCommandToken lower "od ") ||
    (contains lower "| rev" || contains lower "|rev")

/-- Checks of a command that do not look for a pipe to a shell. -/
def leaks (lower : String) : Bool :=
  ((hasCommandToken lower "dig " || hasCommandToken lower "nslookup " || hasCommandToken lower "host ") &&
      hasCommandSubstitution lower) ||
    ((hasCommandToken lower "nc " || hasCommandToken lower "ncat " || hasCommandToken lower "netcat ") &&
      (contains lower "|" || contains lower "<")) ||
    (contains lower "curl" &&
      (contains lower "-d @" || contains lower "-d@" || contains lower "--data @" || contains lower "--data-binary @" ||
        contains lower "--upload-file")) ||
    (contains lower "wget" && contains lower "--post-file")

def hasNull (cmd : String) : Bool := cmd.toList.contains (Char.ofNat 0)

/-- Where the command has the entry with the capital letter, another pattern is in it too. -/
def OtherPattern (tool : ShellTool) (cmd : String) : Prop :=
  ContainsIgnoringCase cmd "chmod -R 777 /" →
    (∃ entry ∈ BLOCKED_COMMANDS, entry ≠ "chmod -R 777 /" ∧ contains (toLowercase cmd) entry = true) ∨
      (tool.allowDangerous = false ∧ ∃ pattern ∈ DANGEROUS_PATTERNS, contains (toLowercase cmd) pattern = true)

/-- Where the command decodes something, and only its pipe to a shell makes it flagged, it has another such pipe. -/
def OtherPipe (cmd : String) : Prop :=
  ∀ before name rest, cmd = before ++ "|" ++ name ++ rest → toAsciiLowercase name ∈ interpreters → WordEnds rest →
    decodes (toLowercase cmd) = true → leaks (toLowercase cmd) = false → hasNull cmd = false →
      containsShellPipe (toLowercase (before ++ "|")) = true ∨ containsShellPipe (toLowercase rest) = true

/-! ## The checks -/

theorem isSome_ite {c : Bool} {s : String} {o : Option String} :
    (if c = true then some s else o).isSome = (c || o.isSome) := by
  cases c <;> rfl

variable {tool : ShellTool} {cmd : String}

theorem isBlocked_isSome_iff : (tool.isBlocked cmd).isSome = true ↔
      (∃ entry ∈ BLOCKED_COMMANDS, contains (toLowercase cmd) entry = true) ∨
        (tool.allowDangerous = false ∧ ∃ pattern ∈ DANGEROUS_PATTERNS, contains (toLowercase cmd) pattern = true) := by
  unfold isBlocked
  simp only [isSome_ite, Option.isSome_none, Bool.or_false]
  simp only [Bool.or_eq_true, Bool.and_eq_true, Bool.not_eq_true', List.any_eq_true]

theorem refuses_of_isBlocked (h : (tool.isBlocked cmd).isSome = true) : tool.Refuses cmd := by
  intro runs workdir timeout extraEnv
  obtain ⟨reason, hreason⟩ := Option.isSome_iff_exists.mp h
  unfold executeCommand
  rw [hreason]
  exact ⟨_, rfl⟩

/-- The order of the checks does not matter. -/
theorem checks_sorted : ∀ null base64 escapes binary dns netcat curl wget rev pipe : Bool,
    (null || (base64 && pipe || (escapes && pipe || (binary && pipe || (dns || (netcat || (curl || (wget || rev && pipe)))))))) =
      (null || ((dns || netcat || curl || wget) || ((base64 || escapes || binary || rev) && pipe))) := by
  decide

/-- **What is flagged**: what leaks, and what decodes something and has a pipe to a shell. -/
theorem detect_isSome_iff (cmd : String) : (detectCommandInjection cmd).isSome = true ↔
      hasNull cmd = true ∨ leaks (toLowercase cmd) = true ∨
        (decodes (toLowercase cmd) = true ∧ containsShellPipe (toLowercase cmd) = true) := by
  rw [← Bool.and_eq_true, ← Bool.or_eq_true, ← Bool.or_eq_true]
  unfold detectCommandInjection
  simp only [isSome_ite, Option.isSome_none, Bool.or_false]
  rw [checks_sorted]
  rfl

/-! ## The blocked entries -/

theorem mapped_infix {w text : List Char} (h : w <:+: text.map Char.toLower) :
    ∃ v, v <:+: text ∧ v.map Char.toLower = w := by
  obtain ⟨x, y, hsplit⟩ := h
  obtain ⟨left, right, rfl, hleft, -⟩ := List.map_eq_append_iff.mp hsplit.symm
  obtain ⟨x', v, rfl, -, hv⟩ := List.map_eq_append_iff.mp hleft
  exact ⟨v, ⟨x', right, rfl⟩, hv⟩

/-- A text in lower case ASCII is found whatever its case is in the command. -/
theorem contains_toLowercase {text : String} (hascii : Ascii text.toList) (hlower : toAsciiLowercase text = text)
    (h : ContainsIgnoringCase cmd text) : contains (toLowercase cmd) text = true := by
  unfold ContainsIgnoringCase at h
  rw [hlower, contains_iff, toAsciiLowercase, String.toList_ofList] at h
  obtain ⟨v, hv, hmap⟩ := mapped_infix h
  have hvascii : Ascii v := fun c hc => ascii_of_toLower (hascii _ (hmap ▸ List.mem_map_of_mem hc))
  rw [contains_iff, toLowercase, String.toList_ofList, ← hmap]
  exact infix_lowerFrom hvascii hv []

/-- There is no capital letter in the lower case of a text. -/
theorem lowerFrom_not_capital (before text : List Char) : 'R' ∉ lowerFrom before text := by
  induction text generalizing before with
  | nil => exact List.not_mem_nil
  | cons c text ih =>
    rw [lowerFrom]
    intro h
    rcases List.mem_append.mp h with h | h
    · split at h
      · split at h
        · exact absurd (List.mem_singleton.mp h) (by decide)
        · exact absurd (List.mem_singleton.mp h) (by decide)
      · exact lowerChar_not_capital c h
    · exact ih (c :: before) h

theorem contains_capital (cmd : String) : contains (toLowercase cmd) "chmod -R 777 /" = false := by
  rw [Bool.eq_false_iff, ne_eq, contains_iff, toLowercase, String.toList_ofList (l := lowerFrom [] cmd.toList)]
  intro h
  have hR : 'R' ∈ "chmod -R 777 /".toList := by decide
  exact lowerFrom_not_capital [] cmd.toList (h.subset hR)

/-- The entries without a capital letter. -/
theorem entries_lower : ∀ entry ∈ BLOCKED_COMMANDS, entry ≠ "chmod -R 777 /" →
    Ascii entry.toList ∧ toAsciiLowercase entry = entry := by
  decide

/-- **Blocked entries are found**, but for the one with a capital letter. -/
theorem blocked_iff :
    ((∃ entry ∈ BLOCKED_COMMANDS, ContainsIgnoringCase cmd entry) → (tool.isBlocked cmd).isSome = true ∧
      tool.Refuses cmd) ↔
      tool.OtherPattern cmd := by
  constructor
  · intro h hcapital
    rcases isBlocked_isSome_iff.mp (h ⟨_, by decide, hcapital⟩).1 with ⟨entry, hmem, hin⟩ | hpattern
    · refine .inl ⟨entry, hmem, ?_, hin⟩
      rintro rfl
      rw [contains_capital] at hin
      cases hin
    · exact .inr hpattern
  · rintro h ⟨entry, hmem, hcontains⟩
    have hblocked : (tool.isBlocked cmd).isSome = true := by
      rw [isBlocked_isSome_iff]
      by_cases hentry : entry = "chmod -R 777 /"
      · subst hentry
        exact (h hcontains).imp (fun ⟨other, hother, _, hin⟩ => ⟨other, hother, hin⟩) id
      · obtain ⟨hascii, hlower⟩ := entries_lower entry hmem hentry
        exact .inl ⟨entry, hmem, contains_toLowercase hascii hlower hcontains⟩
    exact ⟨hblocked, refuses_of_isBlocked hblocked⟩

/-! ## Blanks behind a pipe -/

def shellJoint : Joint Char where
  bar := '|'
  isBlank c := c == ' ' || c == '\t'
  names := interpreters.map String.toList
  isEnd := endsShellName
  bar_end := by decide
  bar_not_blank := by decide
  names_solid := by decide
  names_bar := by decide

/-- The blanks the checks know. -/
def gaps : List (List Char) := [[], [' ']]

variable {lower : String}

theorem hasPipeTo_iff {shell : String} (hnone : Borderless ("|" ++ shell).toList)
    (hone : Borderless ("| " ++ shell).toList) :
    hasPipeTo lower shell = true ↔
      ∃ x g y, lower.toList = x ++ '|' :: (g ++ (shell.toList ++ y)) ∧ g ∈ gaps ∧ shellJoint.Ends y := by
  have hends (y : List Char) : y.head?.all endsShellName = true ↔ shellJoint.Ends y := by
    cases y with
    | nil => exact ⟨fun _ _ => nofun, fun _ => rfl⟩
    | cons d y => exact ⟨fun h c hc => Option.some.inj hc ▸ h, fun h => h d rfl⟩
  unfold hasPipeTo
  simp only [List.any_cons, List.any_nil, Bool.or_false, Bool.or_eq_true, List.any_eq_true, Prod.exists,
    mem_matchSplits_iff hnone, mem_matchSplits_iff hone, hends]
  simp only [gaps, List.mem_cons, List.not_mem_nil, or_false, String.toList_append]
  constructor
  · rintro (⟨x, y, ⟨x', -, hsplit⟩, hy⟩ | ⟨x, y, ⟨x', -, hsplit⟩, hy⟩)
    · exact ⟨x', [' '], y, by simpa using hsplit, .inr rfl, hy⟩
    · exact ⟨x', [], y, by simpa using hsplit, .inl rfl, hy⟩
  · rintro ⟨x, g, y, hsplit, rfl | rfl, hy⟩
    · exact .inr ⟨x, y, ⟨x, rfl, by simpa using hsplit⟩, hy⟩
    · exact .inl ⟨x, y, ⟨x, rfl, by simpa using hsplit⟩, hy⟩

theorem containsShellPipe_iff : containsShellPipe lower = true ↔ shellJoint.Joined gaps lower.toList := by
  unfold containsShellPipe
  simp only [Bool.or_eq_true]
  rw [hasPipeTo_iff (by decide) (by decide), hasPipeTo_iff (by decide) (by decide), hasPipeTo_iff (by decide) (by decide),
    hasPipeTo_iff (by decide) (by decide), hasPipeTo_iff (by decide) (by decide), hasPipeTo_iff (by decide) (by decide)]
  constructor
  · rintro (((((h | h) | h) | h) | h) | h) <;>
      · obtain ⟨x, g, y, hsplit, hg, hy⟩ := h
        exact ⟨x, g, _, y, hsplit, hg, List.mem_map_of_mem (by decide), hy⟩
  · rintro ⟨x, g, n, y, hsplit, hg, hn, hy⟩
    obtain ⟨name, hname, rfl⟩ := List.mem_map.mp hn
    simp only [interpreters, List.mem_cons, List.not_mem_nil, or_false] at hname
    have hpipe : ∃ x g y, lower.toList = x ++ '|' :: (g ++ (name.toList ++ y)) ∧ g ∈ gaps ∧ shellJoint.Ends y :=
      ⟨x, g, y, hsplit, hg, hy⟩
    rcases hname with rfl | rfl | rfl | rfl | rfl | rfl
    · exact .inl (.inl (.inl (.inl (.inl hpipe))))
    · exact .inl (.inl (.inl (.inl (.inr hpipe))))
    · exact .inl (.inl (.inl (.inr hpipe)))
    · exact .inl (.inl (.inr hpipe))
    · exact .inl (.inr hpipe)
    · exact .inr hpipe

theorem hasCommandToken_iff {token : String} (h : Borderless token.toList) : hasCommandToken lower token = true ↔
      token.toList <+: lower.toList ∨ ∃ sep, startsCommand sep = true ∧ sep :: token.toList <:+: lower.toList := by
  unfold hasCommandToken
  simp only [List.any_eq_true, Prod.exists, mem_matchSplits_iff h]
  constructor
  · rintro ⟨x, y, ⟨_, rfl, hsplit⟩, hx⟩
    rcases List.eq_nil_or_concat x with rfl | ⟨x', sep, rfl⟩
    · exact .inl ⟨y, hsplit.symm⟩
    · rw [List.concat_eq_append, List.getLast?_concat] at hx
      exact .inr ⟨sep, hx, x', y, by rw [hsplit]; simp⟩
  · rintro (⟨y, hsplit⟩ | ⟨sep, hsep, x, y, hsplit⟩)
    · exact ⟨[], y, ⟨[], rfl, hsplit.symm⟩, rfl⟩
    · refine ⟨x ++ [sep], y, ⟨x ++ [sep], rfl, by rw [← hsplit]; simp⟩, ?_⟩
      rw [List.getLast?_concat]
      exact hsep

/-- A command token that has to do with no joint. -/
def PlainToken (token : String) : Prop :=
  Borderless token.toList ∧ '|' ∉ token.toList ∧
    ∀ sep ∈ [' ', '\t', '|', ';', '&', '\n', '('], shellJoint.clear (sep :: token.toList) = true

instance : DecidablePred PlainToken := fun token =>
  have : Decidable (∀ sep ∈ [' ', '\t', '|', ';', '&', '\n', '('], shellJoint.clear (sep :: token.toList) = true) :=
    List.decidableBAll (fun sep => shellJoint.clear (sep :: token.toList) = true) _
  inferInstanceAs (Decidable (Borderless token.toList ∧ '|' ∉ token.toList ∧ _))

section Spaced

variable {lower spaced : String} {a n v r : List Char}

theorem contains_spaced (hlower : lower.toList = a ++ '|' :: (n ++ r))
    (hspaced : spaced.toList = a ++ '|' :: (v ++ (n ++ r)))
    (hn : n ∈ shellJoint.names) (hv : shellJoint.Blanks v) {pat : String} (hpat : shellJoint.clear pat.toList = true) :
    contains spaced pat = contains lower pat := by
  rw [Bool.eq_iff_iff, contains_iff, contains_iff, hlower, hspaced]
  exact Joint.infix_blanks_iff (Joint.clear_sound hpat) hn hv

theorem token_spaced (hlower : lower.toList = a ++ '|' :: (n ++ r)) (hspaced : spaced.toList = a ++ '|' :: (v ++ (n ++ r)))
    (hn : n ∈ shellJoint.names) (hv : shellJoint.Blanks v) {token : String} (htoken : PlainToken token) :
    hasCommandToken spaced token = hasCommandToken lower token := by
  obtain ⟨hborder, hbar, hclear⟩ := htoken
  have hfront (b : List Char) : token.toList <+: a ++ '|' :: b ↔ token.toList <+: a :=
    Joint.prefix_bar_iff (J := shellJoint) hbar
  rw [Bool.eq_iff_iff, hasCommandToken_iff hborder, hasCommandToken_iff hborder, hlower, hspaced, hfront, hfront]
  refine or_congr_right (exists_congr fun sep => and_congr_right fun hsep => ?_)
  exact Joint.infix_blanks_iff (Joint.clear_sound (hclear sep (List.contains_iff_mem.mp hsep))) hn hv

theorem decodes_spaced (hlower : lower.toList = a ++ '|' :: (n ++ r))
    (hspaced : spaced.toList = a ++ '|' :: (v ++ (n ++ r)))
    (hn : n ∈ shellJoint.names) (hv : shellJoint.Blanks v) : decodes spaced = decodes lower := by
  unfold decodes
  simp (disch := decide) only [contains_spaced hlower hspaced hn hv, token_spaced hlower hspaced hn hv]

theorem leaks_spaced (hlower : lower.toList = a ++ '|' :: (n ++ r)) (hspaced : spaced.toList = a ++ '|' :: (v ++ (n ++ r)))
    (hn : n ∈ shellJoint.names) (hv : shellJoint.Blanks v) : leaks spaced = leaks lower := by
  unfold leaks hasCommandSubstitution
  simp (disch := decide) only [contains_spaced hlower hspaced hn hv, token_spaced hlower hspaced hn hv]

end Spaced

/-! ## The lower case of a command with a joint -/

theorem divides_of_ends {c : Char} (h : endsShellName c = true) : Divides c := by
  have htable : ([' ', '\t', '\n', ';', '|', '&', ')'].all fun c => c.toNat < 128 ∧ c.toLower = c ∧
      inRuns casedRuns c = false ∧ inRuns caseIgnorableRuns c = false) = true := by
    decide +kernel
  obtain ⟨hascii, hlower, hcased, hignorable⟩ :=
    of_decide_eq_true (List.all_eq_true.mp htable c (List.contains_iff_mem.mp h))
  exact ⟨hascii, hlower, hcased, hignorable⟩

variable {rest : List Char}

/-- Where a word ends, the rest is lowered alone. -/
theorem lowerFrom_rest (h : shellJoint.Ends rest) (before : List Char) : lowerFrom before rest = lowerFrom [] rest := by
  cases rest with
  | nil => rfl
  | cons d rest =>
    have hd := divides_of_ends (h d rfl)
    have hleft := lowerFrom_divide hd before [] rest
    have hright := lowerFrom_divide hd [] [] rest
    exact hleft.trans hright.symm

theorem ends_lowerFrom (h : shellJoint.Ends rest) : shellJoint.Ends (lowerFrom [] rest) := by
  cases rest with
  | nil => exact h
  | cons d rest =>
    have hd := divides_of_ends (h d rfl)
    have hdivide := lowerFrom_divide hd [] [] rest
    rw [List.nil_append] at hdivide
    intro c hc
    rw [hdivide] at hc
    cases hc
    exact h d rfl

theorem blanks_ends {w : List Char} (hw : shellJoint.Blanks w) : ∀ c ∈ w, Divides c := by
  intro c hc
  refine divides_of_ends ?_
  rcases Bool.or_eq_true_iff.mp (hw c hc) with h | h
  · rw [beq_iff_eq.mp h]
    rfl
  · rw [beq_iff_eq.mp h]
    rfl

variable {before name w : String}

theorem lower_joint {rest : String} (hname : toAsciiLowercase name ∈ interpreters) (hrest : WordEnds rest)
    (hw : shellJoint.Blanks w.toList) : (toLowercase (before ++ "|" ++ w ++ name ++ rest)).toList =
      lowerFrom [] before.toList ++ '|' :: (w.toList ++ ((toAsciiLowercase name).toList ++ lowerFrom [] rest.toList)) := by
  have hascii : Ascii name.toList := by
    have hall : ∀ text ∈ interpreters, Ascii text.toList := by decide
    intro c hc
    refine ascii_of_toLower (hall _ hname _ ?_)
    rw [toAsciiLowercase, String.toList_ofList]
    exact List.mem_map_of_mem hc
  have hsplit : (before ++ "|" ++ w ++ name ++ rest).toList =
      before.toList ++ '|' :: (w.toList ++ (name.toList ++ rest.toList)) := by
    simp [String.toList_append]
  rw [toLowercase, String.toList_ofList, hsplit, lowerFrom_divide (divides_of_ends (by decide)),
    lowerFrom_dividers (blanks_ends hw), lowerFrom_ascii_append hascii, lowerFrom_rest hrest, toAsciiLowercase,
    String.toList_ofList]

theorem joint_blanks (h : Blanks w) : shellJoint.Blanks w.toList := by
  intro c hc
  rcases h c hc with rfl | rfl
  · rfl
  · rfl

theorem gaps_blanks : ∀ g ∈ gaps, shellJoint.Blanks g := by
  intro g hg c hc
  rcases List.mem_cons.mp hg with rfl | hg
  · cases hc
  · rw [List.mem_singleton.mp hg] at hc
    rw [List.mem_singleton.mp hc]
    rfl

/-- **What is flagged with blanks behind a pipe**: with a gap that is none of the known ones, the pipe counts no more. -/
theorem spaced_isSome_iff {rest : String} (hname : toAsciiLowercase name ∈ interpreters) (hrest : WordEnds rest)
    (hw : shellJoint.Blanks w.toList) : (detectCommandInjection (before ++ "|" ++ w ++ name ++ rest)).isSome = true ↔
      hasNull (before ++ "|" ++ name ++ rest) = true ∨ leaks (toLowercase (before ++ "|" ++ name ++ rest)) = true ∨
        (decodes (toLowercase (before ++ "|" ++ name ++ rest)) = true ∧
          (w.toList ∈ gaps ∨ containsShellPipe (toLowercase (before ++ "|")) = true ∨
            containsShellPipe (toLowercase rest) = true)) := by
  have hmem : (toAsciiLowercase name).toList ∈ shellJoint.names := List.mem_map_of_mem hname
  have hnone : shellJoint.Blanks "".toList := fun c hc => absurd hc List.not_mem_nil
  have hspaced : (toLowercase (before ++ "|" ++ w ++ name ++ rest)).toList =
      lowerFrom [] before.toList ++ '|' :: (w.toList ++ ((toAsciiLowercase name).toList ++ lowerFrom [] rest.toList)) :=
    lower_joint hname hrest hw
  have hlower : (toLowercase (before ++ "|" ++ name ++ rest)).toList =
      lowerFrom [] before.toList ++ '|' :: ((toAsciiLowercase name).toList ++ lowerFrom [] rest.toList) := by
    have hjoint : (toLowercase (before ++ "|" ++ "" ++ name ++ rest)).toList = _ := lower_joint hname hrest hnone
    rw [String.append_empty] at hjoint
    exact hjoint
  have hnull : hasNull (before ++ "|" ++ w ++ name ++ rest) = hasNull (before ++ "|" ++ name ++ rest) := by
    have hblank : Char.ofNat 0 ∉ w.toList := fun h => absurd (hw _ h) (by decide)
    unfold hasNull
    simp [String.toList_append, hblank]
  have hbefore : (toLowercase (before ++ "|")).toList = lowerFrom [] before.toList ++ ['|'] := by
    rw [toLowercase, String.toList_ofList, String.toList_append]
    exact lowerFrom_divide (divides_of_ends (by decide)) [] before.toList []
  rw [detect_isSome_iff, hnull, leaks_spaced hlower hspaced hmem hw, decodes_spaced hlower hspaced hmem hw,
    containsShellPipe_iff, containsShellPipe_iff, containsShellPipe_iff, hspaced, hbefore]
  rw [show '|' = shellJoint.bar from rfl, Joint.joined_joint_iff gaps_blanks hmem hw (ends_lowerFrom hrest)]
  rw [toLowercase, toLowercase, String.toList_ofList]

/-- **Blanks behind a pipe do not matter**, exactly where something else makes the command flagged. -/
theorem blanks_iff :
    (∀ before name rest w, cmd = before ++ "|" ++ name ++ rest → toAsciiLowercase name ∈ interpreters → WordEnds rest →
      Blanks w → (detectCommandInjection cmd).isSome = true →
        (detectCommandInjection (before ++ "|" ++ w ++ name ++ rest)).isSome = true) ↔ OtherPipe cmd := by
  constructor
  · rintro h before name rest rfl hname hrest hdecodes hleaks hnull
    have hflagged : (detectCommandInjection (before ++ "|" ++ name ++ rest)).isSome = true := by
      have hnone : shellJoint.Blanks "".toList := fun c hc => absurd hc List.not_mem_nil
      have hiff : (detectCommandInjection (before ++ "|" ++ "" ++ name ++ rest)).isSome = true ↔ _ :=
        spaced_isSome_iff hname hrest hnone
      rw [String.append_empty] at hiff
      exact hiff.mpr (.inr (.inr ⟨hdecodes, .inl (by decide)⟩))
    have htab : Blanks "\t" := by decide
    rcases (spaced_isSome_iff hname hrest (joint_blanks htab)).mp
      (h before name rest "\t" rfl hname hrest htab hflagged) with
      h | h | ⟨-, h | h⟩
    · rw [hnull] at h
      cases h
    · rw [hleaks] at h
      cases h
    · exact absurd h (by decide)
    · exact h
  · rintro h before name rest w rfl hname hrest hw hflagged
    rw [spaced_isSome_iff hname hrest (joint_blanks hw)]
    rcases (detect_isSome_iff _).mp hflagged with hnull | hleaks | ⟨hdecodes, -⟩
    · exact .inl hnull
    · exact .inr (.inl hleaks)
    · cases hnull : hasNull (before ++ "|" ++ name ++ rest) with
      | true => exact .inl rfl
      | false =>
        cases hleaks : leaks (toLowercase (before ++ "|" ++ name ++ rest)) with
        | true => exact .inr (.inl rfl)
        | false => exact .inr (.inr ⟨hdecodes, .inr (h before name rest rfl hname hrest hdecodes hleaks hnull)⟩)

/-- **The gate is uniform** exactly for the commands in which the entry with the capital letter comes with another
pattern, and the pipe of a decoded text to a shell with another pipe to a shell. -/
theorem uniform_iff (tool : ShellTool) (cmd : String) : tool.Uniform cmd ↔ tool.OtherPattern cmd ∧ OtherPipe cmd :=
  ⟨fun h => ⟨blocked_iff.mp h.blocked, blanks_iff.mp h.blanks⟩, fun h => ⟨blocked_iff.mpr h.1, blanks_iff.mpr h.2⟩⟩

/-! ## Two commands that slip through -/

/-- The entry with the capital letter, and a decoded text piped to a shell with two blanks. -/
theorem gate_misses :
    ¬Uniform {} "chmod -R 777 /" ∧ ¬Uniform {} "base64 -d x |sh" := by
  constructor
  · intro h
    exact absurd (h.blocked ⟨"chmod -R 777 /", by decide, show contains _ _ = true by decide⟩).1 (by decide)
  · intro h
    have hspaced := h.blanks "base64 -d x " "sh" "" "  " (by decide) (by decide) nofun (by decide)
      (by decide)
    exact absurd hspaced (by decide)

end Freeclawdia.ShellTool
