import Freeclawdia.Channels.MessageHandlers

/-!
# `Correctness.HistoryPages` — what is lost between the pages of a chat history

Every user message opens one turn, and the turn looks at most two messages ahead (`buildTurns_append`). So a page
boundary changes the turns exactly when the message after it continues the turn before it, or when there are turns on
both sides, since every page counts its turns from 0. Messages themselves are lost where a page starts within messages
of one millisecond (`Paging.Apart`).
-/

namespace Freeclawdia.Conversations

open Rust Paging

variable {fromStr : String → Option Json} {number : Nat}

/-! ## Turns of a list of messages -/

variable (messages : List ConversationMessage)

/-- The user messages of a list. -/
def users : Nat := messages.countP fun m => m.role = "user"

theorem users_append (ms ms' : List ConversationMessage) : users (ms ++ ms') = users ms + users ms' := List.countP_append

variable {m : ConversationMessage} {rest : List ConversationMessage}

theorem nextWith_some {role : String} (h : nextWith role rest = some m) : rest.head? = some m ∧ m.role = role := by
  obtain ⟨hhead, hrole⟩ := Option.filter_eq_some_iff.mp h
  exact ⟨hhead, of_decide_eq_true hrole⟩

theorem nextWith_cons (role : String) (m : ConversationMessage) (rest : List ConversationMessage) :
    nextWith role (m :: rest) = if m.role = role then some m else none := by
  by_cases h : m.role = role <;> simp [nextWith, Option.filter, h]

/-- Messages that are no user's are passed over in any case. -/
theorem buildTurnsFrom_skip (skip : Nat) (rest : List ConversationMessage) (h : ∀ m ∈ rest.take skip, m.role ≠ "user") :
    buildTurnsFrom fromStr number skip rest = buildTurnsFrom fromStr number 0 rest := by
  induction rest generalizing skip with
  | nil => rw [buildTurnsFrom, buildTurnsFrom]
  | cons m rest ih =>
    cases skip with
    | zero => rfl
    | succ skip =>
      have hm : m.role ≠ "user" := h m (by simp)
      have hrest : ∀ m ∈ rest.take skip, m.role ≠ "user" := fun m' hm' => h m' (by simp [hm'])
      rw [buildTurnsFrom, buildTurnsFrom, if_neg hm, ih skip hrest]

/-- What a turn takes of the messages to come is no user's. -/
theorem taken_not_user (rest : List ConversationMessage) :
    ∀ m ∈ rest.take ((turnRecords rest).1.toList.length + (turnRecords rest).2.toList.length), m.role ≠ "user" := by
  cases rest with
  | nil => simp
  | cons a rest =>
    unfold turnRecords
    rw [nextWith_cons]
    by_cases hcalls : a.role = "tool_calls"
    · rw [if_pos hcalls]
      intro m hm
      cases rest with
      | nil =>
        simp [nextWith] at hm
        rw [hm, hcalls]
        decide
      | cons b rest =>
        simp only [List.drop_succ_cons, List.drop_zero, nextWith_cons] at hm
        by_cases hanswer : b.role = "assistant"
        · simp only [hanswer, if_true, Option.toList_some, List.length_singleton] at hm
          simp only [List.take_succ_cons, List.take_zero, List.mem_cons, List.not_mem_nil, or_false] at hm
          rcases hm with rfl | rfl
          · rw [hcalls]; decide
          · rw [hanswer]; decide
        · simp only [hanswer, if_false, Option.toList_some, Option.toList_none, List.length_singleton,
            List.length_nil, List.take_succ_cons, List.take_zero, List.mem_singleton] at hm
          rw [hm, hcalls]
          decide
    · rw [if_neg hcalls]
      simp only [nextWith_cons]
      by_cases hanswer : a.role = "assistant"
      · simp [hanswer]
      · simp [hanswer]

/-- **One message of the loop.** -/
theorem buildTurnsFrom_cons (m : ConversationMessage) (rest : List ConversationMessage) :
    buildTurnsFrom fromStr number 0 (m :: rest) =
      if m.role = "user" then
        turnOf fromStr number m (turnRecords rest).1 (turnRecords rest).2 :: buildTurnsFrom fromStr (number + 1) 0 rest
      else buildTurnsFrom fromStr number 0 rest := by
  rw [buildTurnsFrom]
  split
  next => rw [← buildTurnsFrom_skip _ rest (taken_not_user rest)]
  next => rfl

/-- The turns of a list of messages when others follow. -/
def turnsBeside (fromStr : String → Option Json) (after : List ConversationMessage) :
    Nat → List ConversationMessage → List DbTurnInfo
  | _, [] => []
  | number, m :: rest =>
    if m.role = "user" then
      turnOf fromStr number m (turnRecords (rest ++ after)).1 (turnRecords (rest ++ after)).2
        :: turnsBeside fromStr after (number + 1) rest
    else turnsBeside fromStr after number rest

theorem turnsBeside_nil :
    turnsBeside fromStr [] number messages = buildTurnsFrom fromStr number 0 messages := by
  induction messages generalizing number with
  | nil => rw [turnsBeside, buildTurnsFrom]
  | cons m rest ih => rw [turnsBeside, buildTurnsFrom_cons, List.append_nil, ih, ih]

theorem users_cons (m : ConversationMessage) (rest : List ConversationMessage) :
    users (m :: rest) = if m.role = "user" then users rest + 1 else users rest := by
  by_cases h : m.role = "user" <;> simp [users, h]

/-- **The turns of two lists of messages.** -/
theorem buildTurnsFrom_append (ms ms' : List ConversationMessage) : buildTurnsFrom fromStr number 0 (ms ++ ms') =
      turnsBeside fromStr ms' number ms ++ buildTurnsFrom fromStr (number + users ms) 0 ms' := by
  induction ms generalizing number with
  | nil => rfl
  | cons m rest ih =>
    rw [List.cons_append, buildTurnsFrom_cons, turnsBeside, users_cons]
    split
    next => rw [ih, List.cons_append, Nat.add_right_comm, Nat.add_assoc]
    next => exact ih

theorem numbers_buildTurnsFrom (ms : List ConversationMessage) :
    (buildTurnsFrom fromStr number 0 ms).map (fun turn => turn.turnNumber) = List.range' number (users ms) := by
  induction ms generalizing number with
  | nil => rfl
  | cons m rest ih =>
    rw [buildTurnsFrom_cons, users_cons]
    split
    next =>
      rw [List.map_cons, ih, List.range'_succ]
      rfl
    next => exact ih

theorem length_turnsBeside (after ms : List ConversationMessage) :
    (turnsBeside fromStr after number ms).length = users ms := by
  induction ms generalizing number with
  | nil => rfl
  | cons m rest ih =>
    rw [turnsBeside, users_cons]
    split
    next => rw [List.length_cons, ih]
    next => exact ih

theorem length_buildTurnsFrom (ms : List ConversationMessage) :
    (buildTurnsFrom fromStr number 0 ms).length = users ms := by
  rw [← turnsBeside_nil, length_turnsBeside]

/-- Turns counted from 0 and from elsewhere are the same only if there are none. -/
theorem buildTurnsFrom_eq_iff (ms : List ConversationMessage) :
    buildTurnsFrom fromStr 0 0 ms = buildTurnsFrom fromStr number 0 ms ↔ number = 0 ∨ users ms = 0 := by
  constructor
  · intro h
    have hnumbers := congrArg (List.map fun turn : DbTurnInfo => turn.turnNumber) h
    rw [numbers_buildTurnsFrom, numbers_buildTurnsFrom] at hnumbers
    cases husers : users ms with
    | zero => exact .inr rfl
    | succ k =>
      rw [husers, List.range'_succ, List.range'_succ] at hnumbers
      exact .inl (List.cons.inj hnumbers).1.symm
  · rintro (rfl | hnone)
    · rfl
    · have hzero : ∀ k, buildTurnsFrom fromStr k 0 ms = [] := by
        intro k
        rw [← List.length_eq_zero_iff, length_buildTurnsFrom, hnone]
      rw [hzero, hzero]

/-! ## Boundaries within a turn -/

/-- Does the message after a boundary belong to the turn before it? -/
def continues (before after : List ConversationMessage) : Bool :=
  match before.reverse, after.head? with
  | last :: earlier, some next =>
    (last.role = "user" && (next.role = "tool_calls" || next.role = "assistant"))
      || (last.role = "tool_calls" && earlier.head?.any (fun m => m.role = "user") && next.role = "assistant")
  | _, _ => false

variable {after before : List ConversationMessage}

theorem continues_head {after' : List ConversationMessage} (h : after.head? = after'.head?) :
    continues before after = continues before after' := by
  unfold continues
  rw [h]

/-- Only the last two messages before the boundary matter. -/
theorem continues_cons (m a b : ConversationMessage) (rest after : List ConversationMessage) :
    continues (m :: a :: b :: rest) after = continues (a :: b :: rest) after := by
  unfold continues
  have hreverse : ∃ last second earlier, (a :: b :: rest).reverse = last :: second :: earlier ∧
      (m :: a :: b :: rest).reverse = last :: second :: (earlier ++ [m]) := by
    cases hr : (a :: b :: rest).reverse with
    | nil => simp at hr
    | cons last tail =>
      cases tail with
      | nil =>
        have hlength := congrArg List.length hr
        simp at hlength
      | cons second earlier =>
        refine ⟨last, second, earlier, rfl, ?_⟩
        rw [List.reverse_cons, hr]
        rfl
  obtain ⟨last, second, earlier, hr, hr'⟩ := hreverse
  rw [hr, hr']
  cases after.head? with
  | none => rfl
  | some next => rfl

theorem users_of_continues (h : continues before after = true) : 0 < users before := by
  unfold continues at h
  split at h
  next last earlier next hreverse _ =>
    have hmem : ∃ u ∈ before, u.role = "user" := by
      simp only [Bool.or_eq_true, Bool.and_eq_true, decide_eq_true_eq] at h
      rcases h with ⟨huser, -⟩ | ⟨⟨-, hearlier⟩, -⟩
      · exact ⟨last, by rw [← List.mem_reverse, hreverse]; exact List.mem_cons_self, huser⟩
      · cases hhead : earlier.head? with
        | none =>
          rw [hhead] at hearlier
          cases hearlier
        | some u =>
          rw [hhead] at hearlier
          refine ⟨u, ?_, of_decide_eq_true hearlier⟩
          rw [← List.mem_reverse, hreverse]
          exact List.mem_cons_of_mem _ (List.mem_of_mem_head? hhead)
    obtain ⟨u, hu, huser⟩ := hmem
    exact List.countP_pos_iff.mpr ⟨u, hu, decide_eq_true huser⟩
  next => cases h

/-- What a turn takes does not change when messages follow that do not continue it. -/
theorem turnRecords_beside (hm : m.role = "user") (h : continues (m :: rest) after = false) :
    turnRecords (rest ++ after) = turnRecords rest := by
  cases rest with
  | nil =>
    cases after with
    | nil => rfl
    | cons next after =>
      have hnext : next.role ≠ "tool_calls" ∧ next.role ≠ "assistant" := by simpa [continues, hm] using h
      simp only [List.nil_append, turnRecords, nextWith_cons, hnext.1, hnext.2, if_false]
      rfl
  | cons a rest =>
    cases rest with
    | nil =>
      simp only [List.singleton_append, turnRecords, nextWith_cons]
      by_cases hcalls : a.role = "tool_calls"
      · simp only [hcalls, if_true, List.drop_succ_cons, List.drop_zero]
        cases after with
        | nil => rfl
        | cons next after =>
          have hnext : next.role ≠ "assistant" := by simpa [continues, hm, hcalls] using h
          rw [nextWith_cons, if_neg hnext]
          rfl
      · simp only [hcalls, if_false]
    | cons b rest =>
      -- The turn looks at two messages only, and both are before the boundary.
      simp only [List.cons_append, turnRecords, nextWith_cons, List.drop_succ_cons, List.drop_zero]

theorem continues_of_tail (h : continues rest after = true) : continues (m :: rest) after = true := by
  cases rest with
  | nil => cases h
  | cons a rest =>
    cases rest with
    | nil =>
      unfold continues at h ⊢
      cases hhead : after.head? with
      | none =>
        rw [hhead] at h
        cases h
      | some next =>
        rw [hhead] at h
        simp only [List.reverse_cons, List.reverse_nil, List.nil_append, List.head?_nil, Option.any_none,
          Bool.and_false, Bool.false_and, Bool.or_false, List.singleton_append] at h ⊢
        rw [h, Bool.true_or]
    | cons b rest =>
      rw [continues_cons]
      exact h

variable {ms : List ConversationMessage}

/-- **A boundary that no turn crosses** leaves the turns before it as they are. -/
theorem turnsBeside_eq (h : continues ms after = false) :
    turnsBeside fromStr after number ms = buildTurnsFrom fromStr number 0 ms := by
  induction ms generalizing number with
  | nil => rw [turnsBeside, buildTurnsFrom]
  | cons m rest ih =>
    have hrest : continues rest after = false := by
      rw [← Bool.not_eq_true]
      intro htrue
      rw [continues_of_tail htrue] at h
      cases h
    rw [turnsBeside, buildTurnsFrom_cons]
    split
    next huser => rw [turnRecords_beside huser h, ih hrest]
    next => exact ih hrest

/-- The messages that a list of turns is made of. -/
def idsOf (turns : List DbTurnInfo) : List Uuid := turns.flatMap fun turn => turn.messageIds

theorem mem_turnRecords (h : m ∈ (turnRecords rest).1.toList ++ (turnRecords rest).2.toList) : m ∈ rest := by
  unfold turnRecords at h
  split at h
  next calls hcalls =>
    rcases List.mem_append.mp h with h | h
    · rw [Option.mem_toList.mp h |> Option.some.inj] at hcalls
      exact List.mem_of_mem_head? (nextWith_some hcalls).1
    · have hanswer := nextWith_some (Option.mem_toList.mp h)
      exact List.mem_of_mem_drop (List.mem_of_mem_head? hanswer.1)
  next =>
    rcases List.mem_append.mp h with h | h
    · cases h
    · exact List.mem_of_mem_head? (nextWith_some (Option.mem_toList.mp h)).1

/-- Turns are made of the messages they are built from. -/
theorem idsOf_buildTurnsFrom (ms : List ConversationMessage) :
    idsOf (buildTurnsFrom fromStr number 0 ms) ⊆ ms.map (·.id) := by
  induction ms generalizing number with
  | nil => simp [idsOf, buildTurnsFrom]
  | cons m rest ih =>
    rw [buildTurnsFrom_cons]
    split
    next =>
      intro id hid
      rw [idsOf, List.flatMap_cons, List.mem_append] at hid
      rcases hid with hid | hid
      · rcases List.mem_cons.mp hid with rfl | hid
        · exact List.mem_cons_self
        · obtain ⟨m', hm', rfl⟩ := List.mem_map.mp hid
          exact List.mem_cons_of_mem _ (List.mem_map_of_mem (mem_turnRecords hm'))
      · exact List.mem_cons_of_mem _ (ih hid)
    next => exact fun id hid => List.mem_cons_of_mem _ (ih hid)

/-- A turn that crosses the boundary takes the message after it. -/
theorem next_mem_idsOf {next : ConversationMessage} (h : continues ms (next :: after) = true) :
    next.id ∈ idsOf (turnsBeside fromStr (next :: after) number ms) := by
  induction ms generalizing number with
  | nil => cases h
  | cons m rest ih =>
    have hlater : continues rest (next :: after) = true →
        next.id ∈ idsOf (turnsBeside fromStr (next :: after) number (m :: rest)) := by
      intro hrest
      rw [turnsBeside]
      split
      next =>
        rw [idsOf, List.flatMap_cons, List.mem_append]
        exact .inr (ih hrest)
      next => exact ih hrest
    cases rest with
    | nil =>
      have hnext : m.role = "user" ∧ (next.role = "tool_calls" ∨ next.role = "assistant") := by
        simpa [continues] using h
      rw [turnsBeside, if_pos hnext.1, List.nil_append, turnRecords, nextWith_cons]
      by_cases hcalls : next.role = "tool_calls"
      · simp [hcalls, idsOf, turnOf]
      · have hanswer : next.role = "assistant" := hnext.2.resolve_left hcalls
        simp [hanswer, idsOf, turnOf, nextWith_cons]
    | cons a rest =>
      cases rest with
      | nil =>
        by_cases htail : continues [a] (next :: after) = true
        · exact hlater htail
        · have hshape : a.role = "tool_calls" ∧ m.role = "user" ∧ next.role = "assistant" := by
            simp only [continues, List.reverse_cons, List.reverse_nil, List.nil_append, List.singleton_append,
              List.head?_cons, List.head?_nil, Option.any_none, Option.any_some, Bool.and_false, Bool.false_and,
              Bool.or_false] at h htail
            rw [Bool.eq_false_iff.mpr htail, Bool.false_or] at h
            simpa [and_assoc] using h
          obtain ⟨hcalls, huser, hanswer⟩ := hshape
          rw [turnsBeside, if_pos huser]
          simp [turnRecords, nextWith_cons, hcalls, hanswer, idsOf, turnOf]
      | cons b rest =>
        rw [continues_cons] at h
        exact hlater h

/-! ## Turns of the pages -/

/-- The turns of the pages, oldest first. -/
def turnsOfPages (fromStr : String → Option Json) (pages : List (Page ConversationMessage String)) : List DbTurnInfo :=
  pages.reverse.flatMap (pageTurns fromStr)

theorem turnsOfPages_cons (page : Page ConversationMessage String) (rest : List (Page ConversationMessage String)) :
    turnsOfPages fromStr (page :: rest) = turnsOfPages fromStr rest ++ buildTurnsFrom fromStr 0 0 page.items := by
  simp [turnsOfPages, pageTurns, buildTurnsFromDbMessages]

theorem length_turnsOfPages (pages : List (Page ConversationMessage String)) :
    (turnsOfPages fromStr pages).length = users (concat pages) := by
  induction pages with
  | nil => rfl
  | cons page rest ih =>
    rw [turnsOfPages_cons, List.length_append, ih, length_buildTurnsFrom, concat_cons, users_append]

theorem idsOf_turnsOfPages (pages : List (Page ConversationMessage String)) :
    idsOf (turnsOfPages fromStr pages) ⊆ (concat pages).map (·.id) := by
  induction pages with
  | nil => simp [turnsOfPages, idsOf]
  | cons page rest ih =>
    intro id hid
    rw [turnsOfPages_cons, idsOf, List.flatMap_append, List.mem_append] at hid
    rw [concat_cons, List.map_append, List.mem_append]
    rcases hid with hid | hid
    · exact .inl (ih hid)
    · exact .inr (idsOf_buildTurnsFrom _ hid)

/-- All turns are on one side of the boundary, and none crosses it. -/
def OneSided (before after : List ConversationMessage) : Prop :=
  users before = 0 ∨ (users after = 0 ∧ continues before after = false)

/-- All turns of the first `i` messages are on one page. -/
def OnOnePage (n i : Nat) : Prop :=
  ∀ j, 0 < j → j < i → n ∣ i - j → OneSided (messages.take j) ((messages.take i).drop j)

/-- One more page: the turns are those of both parts together exactly when they were before and the new boundary is
    one-sided. -/
theorem turns_append_iff {page : List ConversationMessage} {turns : List DbTurnInfo}
    (hlength : turns.length = users before)
    (hids : idsOf turns ⊆ before.map (·.id)) (hdistinct : ((before ++ page).map (·.id)).Nodup) :
    turns ++ buildTurnsFrom fromStr 0 0 page = buildTurnsFrom fromStr 0 0 (before ++ page) ↔
      turns = buildTurnsFrom fromStr 0 0 before ∧ OneSided before page := by
  have hcrossing : continues before page = true → turns ≠ turnsBeside fromStr page 0 before := by
    rintro hcontinues rfl
    cases page with
    | nil =>
      unfold continues at hcontinues
      split at hcontinues
      next hnone => cases hnone
      next => cases hcontinues
    | cons next page =>
      have hmem := hids (next_mem_idsOf hcontinues)
      rw [List.map_append, List.nodup_append] at hdistinct
      exact hdistinct.2.2 _ hmem _ List.mem_cons_self rfl
  rw [buildTurnsFrom_append, Nat.zero_add]
  constructor
  · intro heq
    obtain ⟨hbefore, hpage⟩ := List.append_inj heq (by rw [hlength, length_turnsBeside])
    have hcontinues : continues before page = false := by
      rw [← Bool.not_eq_true]
      exact fun htrue => hcrossing htrue hbefore
    refine ⟨hbefore.trans (turnsBeside_eq hcontinues), ?_⟩
    rcases (buildTurnsFrom_eq_iff page).mp hpage with hnone | hnone
    · exact .inl hnone
    · exact .inr ⟨hnone, hcontinues⟩
  · rintro ⟨rfl, hsided⟩
    have hcontinues : continues before page = false := by
      rcases hsided with hnone | ⟨-, hcontinues⟩
      · rw [← Bool.not_eq_true]
        intro htrue
        have := users_of_continues htrue
        omega
      · exact hcontinues
    rw [turnsBeside_eq hcontinues]
    have hsame : buildTurnsFrom fromStr 0 0 page = buildTurnsFrom fromStr (users before) 0 page :=
      (buildTurnsFrom_eq_iff page).mpr (hsided.imp_right And.left)
    rw [← hsame]

variable {pages : List (Page ConversationMessage String)}

/-- **The turns of pages that were cut from a conversation** are those of the conversation exactly when all are on
    one page. -/
theorem turnsOfPages_iff {messages : List ConversationMessage} {n i : Nat} (hn : 0 < n)
    (hdistinct : (messages.map (·.id)).Nodup) (h : Cut messages n i pages) (hi : i ≤ messages.length) :
    turnsOfPages fromStr pages = buildTurnsFrom fromStr 0 0 (messages.take i) ↔ OnOnePage messages n i := by
  induction h with
  | @last i page hfew hitems =>
    have hturns : turnsOfPages fromStr [page] = buildTurnsFrom fromStr 0 0 (messages.take i) := by
      rw [turnsOfPages_cons, hitems]
      rfl
    refine ⟨fun _ j hj hlt hdvd => ?_, fun _ => hturns⟩
    have := Nat.le_of_dvd (by omega) hdvd
    omega
  | @more i page rest hlt hitems hrest ih =>
    have hcut := hrest.concat
    have htake : messages.take i = messages.take (i - n) ++ page.items := by
      have htake' : messages.take (i - n) = (messages.take i).take (i - n) := by
        rw [List.take_take, Nat.min_eq_left (Nat.sub_le i n)]
      rw [hitems, htake', List.take_append_drop]
    have hlength : (turnsOfPages fromStr rest).length = users (messages.take (i - n)) := by
      rw [length_turnsOfPages, hcut]
    have hids : idsOf (turnsOfPages fromStr rest) ⊆ (messages.take (i - n)).map (·.id) := by
      rw [← hcut]
      exact idsOf_turnsOfPages rest
    have hdistinct' : ((messages.take (i - n) ++ page.items).map (·.id)).Nodup := by
      rw [← htake]
      exact hdistinct.sublist ((List.take_sublist i messages).map _)
    rw [turnsOfPages_cons, htake, turns_append_iff hlength hids hdistinct', ih (by omega)]
    -- A boundary before the last one has more messages after it now.
    have hafter : ∀ j, j < i - n → (messages.take i).drop j = (messages.take (i - n)).drop j ++ page.items := by
      intro j hj
      have hle : j ≤ (messages.take (i - n)).length := by
        rw [List.length_take]
        omega
      rw [htake, List.drop_append_of_le_length hle]
    have hhead : ∀ j, j < i - n → ((messages.take i).drop j).head? = ((messages.take (i - n)).drop j).head? := by
      intro j hj
      rw [hafter j hj, List.head?_append_of_ne_nil]
      rw [ne_eq, List.drop_eq_nil_iff, List.length_take]
      omega
    have hlast : (messages.take i).drop (i - n) = page.items := hitems.symm
    constructor
    · rintro ⟨hbefore, hsided⟩ j hj hji hdvd
      rcases Nat.lt_trichotomy j (i - n) with hjn | rfl | hjn
      · have hdvd' : n ∣ (i - n) - j := by
          have hsub : i - j = ((i - n) - j) + n := by omega
          rw [hsub] at hdvd
          exact (Nat.dvd_add_left (Nat.dvd_refl n)).mp hdvd
        have husers : users (messages.take j) ≤ users (messages.take (i - n)) := by
          have hsub : (messages.take j).Sublist (messages.take (i - n)) := List.take_sublist_take_left (by omega)
          exact hsub.countP_le
        rcases hbefore j hj hjn hdvd' with hnone | ⟨hnone, hcontinues⟩
        · exact .inl hnone
        · rcases hsided with hnone' | ⟨hnone', -⟩
          · exact .inl (by omega)
          · refine .inr ⟨?_, ?_⟩
            · rw [hafter j hjn, users_append, hnone, hnone']
            · rw [continues_head (hhead j hjn), hcontinues]
      · rw [hlast]
        exact hsided
      · have := Nat.le_of_dvd (by omega) hdvd
        omega
    · intro hall
      refine ⟨fun j hj hjn hdvd => ?_, ?_⟩
      · have hdvd' : n ∣ i - j := by
          have hsub : i - j = ((i - n) - j) + n := by omega
          rw [hsub]
          exact Nat.dvd_add hdvd (Nat.dvd_refl n)
        rcases hall j hj (by omega) hdvd' with hnone | ⟨hnone, hcontinues⟩
        · exact .inl hnone
        · refine .inr ⟨?_, ?_⟩
          · rw [hafter j hjn, users_append] at hnone
            omega
          · rw [continues_head (hhead j hjn)] at hcontinues
            exact hcontinues
      · have hsub : i - (i - n) = n := by omega
        have hdvd : n ∣ i - (i - n) := by rw [hsub]
        have hboundary := hall (i - n) (by omega) (by omega) hdvd
        rw [hlast] at hboundary
        exact hboundary

/-! ## The pages of the handler -/

variable {t : Tables} {threadId : Uuid}

/-- Messages are read in the order of their times. -/
theorem listConversationMessages_sorted :
    (listConversationMessages t threadId).Pairwise fun m m' => m.createdAt ≤ m'.createdAt := by
  rw [listConversationMessages, List.pairwise_map]
  exact List.pairwise_insertionSort _ _

theorem listConversationMessages_distinct : ((listConversationMessages t threadId).map (·.id)).Nodup := by
  rw [listConversationMessages, List.map_map]
  have hperm : (Tables.byCreatedAt (t.messages.filter fun m => m.conversationId = threadId)).Perm
      (t.messages.filter fun m => m.conversationId = threadId) := List.perm_insertionSort _ _
  rw [(hperm.map _).nodup_iff, List.Nodup, List.pairwise_map]
  exact t.messages_apart.filter _

theorem listConversationMessagesPaginated_eq (before : Option String) (limit : Int) :
    listConversationMessagesPaginated t threadId before limit =
      (((limitRows (addI64 limit 1) (older (·.createdAt) (listConversationMessages t threadId) before).reverse).take
          (toUsize limit)).reverse, decide (limit <
          (limitRows (addI64 limit 1) (older (·.createdAt) (listConversationMessages t threadId) before).reverse).length)) := by
  cases before with
  | none =>
    have hall : ((listConversationMessages t threadId).filter fun _ => true) = listConversationMessages t threadId :=
      List.filter_eq_self.mpr fun _ _ => rfl
    unfold listConversationMessagesPaginated
    dsimp only
    rw [hall]
    rfl
  | some time => rfl

variable {limit : Nat}

/-- One row more than the page needs is enough to see whether there are more. -/
theorem limitRows_page (hlimit : limit < 2 ^ 63) (rows : List ConversationMessage) :
    ((limitRows (addI64 limit 1) rows.reverse).take limit).reverse = rows.drop (rows.length - limit) ∧
      decide ((limit : Int) < (limitRows (addI64 limit 1) rows.reverse).length) = decide (limit < rows.length) := by
  unfold limitRows addI64
  split
  next =>
    rw [List.take_reverse, List.reverse_reverse, List.length_reverse]
    refine ⟨rfl, ?_⟩
    apply decide_eq_decide.mpr
    omega
  next hpos =>
    have hfetch : (((limit : Int) + 1 + 2 ^ 63) % 2 ^ 64 - 2 ^ 63).toNat = limit + 1 := by omega
    rw [hfetch, List.take_take, Nat.min_eq_left (Nat.le_succ limit), List.take_reverse, List.reverse_reverse]
    refine ⟨rfl, ?_⟩
    rw [List.length_take, List.length_reverse]
    apply decide_eq_decide.mpr
    omega

/-- **A page of the handler** is the newest messages before the cursor, for a limit that is positive as an `i64`. -/
theorem historyPage_eq (hpos : 0 < limit) (hlimit : limit < 2 ^ 63) :
    historyPage t threadId limit = pageOf (·.createdAt) (listConversationMessages t threadId) limit := by
  funext before
  have hi64 : toI64 limit = limit := if_pos hlimit
  have husize : toUsize limit = limit := by
    unfold toUsize
    omega
  unfold historyPage
  rw [hi64, listConversationMessagesPaginated_eq, husize]
  unfold pageOf
  generalize older (·.createdAt) (listConversationMessages t threadId) before = rows
  obtain ⟨hitems, hmore⟩ := limitRows_page hlimit rows
  rw [hitems, hmore]
  dsimp only
  split
  next hempty =>
    have hdrop : rows.drop (rows.length - limit) = [] := by
      simp only [Bool.and_eq_true, List.isEmpty_iff] at hempty
      exact hempty.2
    have hnone : rows = [] := by
      rw [List.drop_eq_nil_iff] at hdrop
      rw [← List.length_eq_zero_iff]
      omega
    simp [hnone]
  next => rfl

/-- With a limit that is negative as an `i64` there is no end, or no message at all. -/
theorem historyPage_negative (hlimit : 2 ^ 63 ≤ limit) (husize : limit < 2 ^ 64)
    (hsome : listConversationMessages t threadId ≠ []) (h : Followed (historyPage t threadId limit) none pages) :
    concat pages = [] := by
  have hi64 : toI64 limit = (limit : Int) - 2 ^ 64 := if_neg (by omega)
  have hkept : toUsize ((limit : Int) - 2 ^ 64) = limit := by
    unfold toUsize
    omega
  by_cases hmax : limit = 2 ^ 64 - 1
  · -- `LIMIT 0`: nothing is read, and that is the end.
    have hfetch : ∀ rows : List ConversationMessage, limitRows (addI64 (limit - 2 ^ 64) 1) rows = [] := by
      intro rows
      have hzero : addI64 ((limit : Int) - 2 ^ 64) 1 = 0 := by
        unfold addI64
        omega
      rw [hzero]
      rfl
    have hpage : historyPage t threadId limit none = ⟨[], false, none⟩ := by
      unfold historyPage
      rw [hi64, listConversationMessagesPaginated_eq, hfetch, List.take_nil]
      rfl
    have hend : Followed (historyPage t threadId limit) none [historyPage t threadId limit none] :=
      .last (by rw [hpage])
    rw [h.unique hend, concat_singleton, hpage]
  · -- No limit at all: every page says there are more.
    have hfetch : ∀ rows : List ConversationMessage, limitRows (addI64 (limit - 2 ^ 64) 1) rows = rows := by
      intro rows
      have hneg : addI64 ((limit : Int) - 2 ^ 64) 1 < 0 := by
        unfold addI64
        omega
      rw [limitRows, if_pos hneg]
    have hmore : ∀ before, (historyPage t threadId limit before).hasMore = true := by
      intro before
      unfold historyPage
      rw [hi64, listConversationMessagesPaginated_eq, hfetch, hkept]
      dsimp only
      split
      next hempty =>
        -- Without a cursor there are messages.
        simp only [Bool.and_eq_true, Option.isNone_iff_eq_none, List.isEmpty_iff, List.reverse_eq_nil_iff,
          List.take_eq_nil_iff] at hempty
        obtain ⟨rfl, hzero | hnone⟩ := hempty
        · omega
        · exact absurd hnone hsome
      next => exact decide_eq_true (by omega)
    have hnever : ∀ before pages, ¬ Followed (historyPage t threadId limit) before pages := by
      intro before pages hpages
      induction hpages with
      | @last before hlast =>
        rw [hmore before] at hlast
        cases hlast
      | more _ _ _ ih => exact ih
    exact absurd h (hnever none pages)

/-! ## The result -/

/-- Following the cursor from the newest page comes to an end, with every message of the conversation once and, oldest
    first, the turns of the whole conversation. -/
def Lossless (fromStr : String → Option Json) (t : Tables) (threadId : Uuid) (limit : Nat) : Prop :=
  ∃ pages, Followed (historyPage t threadId limit) none pages ∧ concat pages = listConversationMessages t threadId ∧
    turnsOfPages fromStr pages = buildTurnsFromDbMessages fromStr (listConversationMessages t threadId)

/-- Cut from its end into pages of `limit`, the conversation has no page that starts within messages of one millisecond,
    and all its turns are on one page. -/
def CutsCleanly (limit : Nat) : Prop :=
  messages = [] ∨ (limit < 2 ^ 63 ∧ Apart (·.createdAt) messages limit messages.length ∧
    OnOnePage messages limit messages.length)

/-- **Exactly when pagination loses nothing.** -/
theorem history_lossless_iff (fromStr : String → Option Json) (t : Tables) (threadId : Uuid) (limit : Nat)
    (hpos : 1 ≤ limit) (husize : limit < 2 ^ 64) :
    Lossless fromStr t threadId limit ↔ CutsCleanly (listConversationMessages t threadId) limit := by
  by_cases hempty : listConversationMessages t threadId = []
  · refine ⟨fun _ => .inl hempty, fun _ => ?_⟩
    have hpage : historyPage t threadId limit none = ⟨[], false, none⟩ := by
      unfold historyPage
      have hrows : limitRows (addI64 (toI64 limit) 1) ([] : List ConversationMessage) = [] := by
        unfold limitRows
        split
        next => rfl
        next => rw [List.take_nil]
      rw [listConversationMessagesPaginated_eq, older, hempty, List.reverse_nil, hrows, List.take_nil]
      rfl
    refine ⟨[historyPage t threadId limit none], .last (by rw [hpage]), ?_, ?_⟩
    · rw [concat_singleton, hpage, hempty]
    · rw [hpage, hempty]
      rfl
  by_cases hlimit : limit < 2 ^ 63
  · unfold Lossless CutsCleanly
    rw [historyPage_eq hpos hlimit]
    have hread : older (·.createdAt) (listConversationMessages t threadId) none = listConversationMessages t threadId :=
      rfl
    have htake : (listConversationMessages t threadId).take (listConversationMessages t threadId).length
        = listConversationMessages t threadId := List.take_length
    constructor
    · rintro ⟨pages, hpages, hconcat, hturns⟩
      obtain ⟨hiff, hcut⟩ := hpages.concat_iff hpos listConversationMessages_sorted
      rw [hread] at hiff hcut
      have hone := (turnsOfPages_iff hpos listConversationMessages_distinct (hcut hconcat) (Nat.le_refl _)).mp
        (by rw [htake]; exact hturns)
      exact .inr ⟨hlimit, hiff.mp hconcat, hone⟩
    · rintro (hnone | ⟨-, hapart, hone⟩)
      · exact absurd hnone hempty
      · obtain ⟨pages, hpages⟩ := followed_exists hpos listConversationMessages_sorted (none : Option String)
        obtain ⟨hiff, hcut⟩ := hpages.concat_iff hpos listConversationMessages_sorted
        rw [hread] at hiff hcut
        have hconcat := hiff.mpr hapart
        refine ⟨pages, hpages, hconcat, ?_⟩
        rw [buildTurnsFromDbMessages, ← htake]
        exact (turnsOfPages_iff hpos listConversationMessages_distinct (hcut hconcat) (Nat.le_refl _)).mpr hone
  · constructor
    · rintro ⟨pages, hpages, hconcat, -⟩
      have hnone := historyPage_negative (by omega) husize hempty hpages
      exact absurd (hconcat.symm.trans hnone) hempty
    · rintro (hnone | ⟨hlt, -⟩)
      · exact absurd hnone hempty
      · exact absurd hlt hlimit

/-- A thread with some messages. -/
def threadOf (hdistinct : messages.Pairwise fun m m' => m.id ≠ m'.id) : Tables :=
  { Tables.empty with
    messages := messages.map fun m => { m with conversationId := 0 }
    messages_apart := List.pairwise_map.mpr hdistinct }

/-- Two notes of the assistant, a question and its answer. -/
def oneTurn : Tables :=
  threadOf [⟨1, "assistant", "The backup is done.", "2024-01-15T09:00:00.000Z"⟩,
    ⟨2, "assistant", "The disk is full.", "2024-01-15T10:00:00.000Z"⟩,
    ⟨3, "user", "Hello", "2024-01-15T10:30:00.123Z"⟩,
    ⟨4, "assistant", "Hi!", "2024-01-15T10:30:01.000Z"⟩] (by decide)

/-- Read two messages at a time, the turn is on the newer page and the notes are on the older. -/
theorem one_turn_is_read : Lossless (fun _ => none) oneTurn 0 2 := by
  apply (history_lossless_iff (fun _ => none) oneTurn 0 2 (by decide) (by decide)).mpr
  have hlength : (listConversationMessages oneTurn 0).length = 4 := by decide
  refine .inr ⟨by decide, ?_, ?_⟩
  · intro j x y hj hdvd hx hy
    rw [hlength] at hj hdvd
    -- the one boundary is after the second message
    obtain rfl : j = 1 := by omega
    have happart : ∀ x ∈ (listConversationMessages oneTurn 0)[1]?, ∀ y ∈ (listConversationMessages oneTurn 0)[2]?,
        x.createdAt < y.createdAt := by decide
    exact happart x hx y hy
  · intro j hj hlt hdvd
    rw [hlength] at hlt hdvd
    obtain rfl : j = 2 := by omega
    exact .inl (by decide)

/-- A question and its answer within one millisecond. -/
def quickTurn : Tables :=
  threadOf [⟨1, "user", "Hello", "2024-01-15T10:30:00.123Z"⟩,
    ⟨2, "assistant", "Hi!", "2024-01-15T10:30:00.123Z"⟩] (by decide)

/-- Read one message at a time, the question is never seen. -/
theorem quick_turn_is_lost : ¬ Lossless (fun _ => none) quickTurn 0 1 := by
  rintro ⟨pages, hpages, hconcat, -⟩
  have hread : Followed (historyPage quickTurn 0 1) none
      [historyPage quickTurn 0 1 none, historyPage quickTurn 0 1 (some "2024-01-15T10:30:00.123Z")] :=
    .more (by decide) (by decide) (.last (by decide))
  rw [hpages.unique hread] at hconcat
  have hlength := congrArg List.length hconcat
  revert hlength
  decide

end Freeclawdia.Conversations
