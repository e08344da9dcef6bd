import Freeclawdia.Workspace.Workspace

/-!
# `Correctness.Chunking` — the chunks of a document are windows on its words

Windows of `chunk_size` words, one every `step_size` words, until one reaches the last word. A tail of fewer words than
`min_chunk_size` is put behind the window before it, with the words the two share written twice.
-/

namespace Freeclawdia.Memory

open Rust

variable {config : ChunkConfig} {words : List String}

/-- The `i`-th window. -/
def window (config : ChunkConfig) (words : List String) (i : Nat) : String :=
  join " " ((words.drop (i * config.stepSize)).take config.chunkSize)

/-- The chunks are the first `m` windows, the last of which ends with the last word; or window `m` is a tail, and stands
behind the window before it, which ends earlier. -/
def Windowed (config : ChunkConfig) (words : List String) (m : Nat) (chunks : List String) : Prop :=
  chunks = (List.range m).map (window config words) ∧ words.length ≤ (m - 1) * config.stepSize + config.chunkSize ∨
  chunks = (List.range (m - 1)).map (window config words) ++
      [window config words (m - 1) ++ " " ++ window config words m] ∧
    (m - 1) * config.stepSize + config.chunkSize < words.length ∧ m * config.stepSize < words.length ∧
    words.length < m * config.stepSize + config.minChunkSize

theorem step_le_size (config : ChunkConfig) : config.stepSize ≤ config.chunkSize := Nat.sub_le _ _

/-- The words up to `end` are those the window shows. -/
theorem window_eq (i : Nat) : join " " ((words.drop (i * config.stepSize)).take
      (min (i * config.stepSize + config.chunkSize) words.length - i * config.stepSize)) = window config words i := by
  unfold window
  rcases Nat.le_total (i * config.stepSize + config.chunkSize) words.length with h | h
  · rw [Nat.min_eq_left h, Nat.add_sub_cancel_left]
  · rw [Nat.min_eq_right h, List.take_of_length_le (by simp), List.take_of_length_le (by simp; omega)]

/-- By induction on the rounds left. After `k` rounds there are `k` windows; if the last of them has reached the last
word, more than a tail is still to come. -/
theorem chunkLoop_windowed (hstep : 0 < config.stepSize) (hmin : config.minChunkSize ≤ config.chunkSize) {fuel k : Nat}
    (hfuel : words.length ≤ k * config.stepSize + fuel) (hwords : k = 0 → 0 < words.length)
    (hopen : 0 < k → words.length ≤ (k - 1) * config.stepSize + config.chunkSize →
      k * config.stepSize + config.minChunkSize < words.length) : ∃ m, 0 < m ∧ Windowed config words m
      (chunkLoop config words fuel (k * config.stepSize) ((List.range k).map (window config words))) := by
  have hsize := step_le_size config
  have hdone : words.length ≤ k * config.stepSize →
      ∃ m, 0 < m ∧ Windowed config words m ((List.range k).map (window config words)) := by
    intro hend
    obtain ⟨j, rfl⟩ : ∃ j, k = j + 1 :=
      Nat.exists_eq_succ_of_ne_zero fun hk => by
        have := hwords hk
        simp only [hk] at hend
        omega
    rw [Nat.add_one_mul] at hend
    exact ⟨j + 1, Nat.succ_pos j, .inl ⟨rfl, by rw [Nat.add_sub_cancel]; omega⟩⟩
  induction fuel generalizing k with
  | zero => exact hdone hfuel
  | succ fuel ih =>
    unfold chunkLoop
    split
    next hend => exact hdone hend
    next hend =>
      simp only [window_eq, List.length_take, List.length_drop]
      split
      next htail =>
        -- The tail: the window before it ends earlier, or the loop would have stopped there.
        obtain ⟨j, rfl⟩ : ∃ j, k = j + 1 := Nat.exists_eq_succ_of_ne_zero fun hk => htail.2 (by rw [hk]; rfl)
        have hshort := htail.1
        have hearlier := hopen (Nat.succ_pos j)
        refine ⟨j + 1, Nat.succ_pos j, .inr ⟨?_, ?_, by omega, by omega⟩⟩
        · simp [List.range_succ]
        · omega
      next =>
        have hpush : (List.range k).map (window config words) ++ [window config words k] =
            (List.range (k + 1)).map (window config words) := by
          rw [List.range_succ, List.map_append]
          rfl
        rw [hpush, show k * config.stepSize + config.stepSize = (k + 1) * config.stepSize from (Nat.add_one_mul _ _).symm]
        split
        next hlast =>
          refine ⟨k + 1, Nat.succ_pos k, .inl ⟨rfl, ?_⟩⟩
          rw [Nat.add_sub_cancel]
          omega
        next hmore =>
          refine ih ?_ (fun h => by omega) (fun _ hreached => ?_) ?_
          all_goals simp only [Nat.add_one_mul, Nat.add_sub_cancel] at *
          · omega
          · omega
          · intro hend
            exact ⟨k + 1, Nat.succ_pos k, .inl ⟨rfl, by rw [Nat.add_sub_cancel]; omega⟩⟩

/-- **Chunking covers the document**, and its loop ends by itself: more rounds than there are words change nothing. -/
theorem chunks_are_windows {content : String} (hstep : 0 < config.stepSize)
    (hmin : config.minChunkSize ≤ config.chunkSize) (hlong : config.chunkSize < (splitWhitespace content).length) :
    (∀ rounds, (splitWhitespace content).length ≤ rounds →
      chunkLoop config (splitWhitespace content) rounds 0 [] = chunkDocument content config) ∧
    ∃ m, 0 < m ∧ Windowed config (splitWhitespace content) m (chunkDocument content config) := by
  have hwords : 0 < (splitWhitespace content).length := Nat.zero_lt_of_lt hlong
  have hloop := chunkLoop_windowed (k := 0) hstep hmin (Nat.le_add_left _ _) (fun _ => hwords)
    fun h => absurd h (Nat.lt_irrefl 0)
  rw [Nat.zero_mul] at hloop
  unfold chunkDocument
  rw [if_neg (by rintro rfl; exact absurd hwords (by decide)), if_neg (List.length_pos_iff.mp hwords),
    if_neg (Nat.not_le.mpr hlong)]
  exact ⟨fun rounds h => chunkLoop_enough hstep (Nat.le_add_left _ _) h [], hloop⟩

/-- Windows of three words, every two words. -/
theorem seven_words_are_windowed : ∃ m, 0 < m ∧ Windowed ⟨3, 1, 2⟩ (splitWhitespace "a b c d e f g") m
    (chunkDocument "a b c d e f g" ⟨3, 1, 2⟩) :=
  (chunks_are_windows (by decide) (by decide) (by decide)).2

end Freeclawdia.Memory
