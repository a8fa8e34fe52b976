import Partyline.ChatServer

/-! The words of a frame, and the text that `broadcast` makes of them again. -/
namespace Partyline

theorem mem_tokens {frame word : Bytes} (mem : word ∈ tokens frame) :
    space ∉ word ∧ word ⊆ frame := by
  induction frame generalizing word with
  | nil => simp [tokens] at mem
  | cons ch rest ih =>
    unfold tokens at mem
    split_ifs at mem with blank
    · rcases List.mem_cons.mp mem with rfl | old
      · simp
      · exact ⟨(ih old).1, List.subset_cons_of_subset ch (ih old).2⟩
    · split at mem
      · obtain rfl := List.mem_singleton.mp mem
        exact ⟨by simpa using Ne.symm blank, by simp⟩
      · rename_i first words split
        rcases List.mem_cons.mp mem with rfl | old
        · obtain ⟨clean, sub⟩ := ih (split ▸ List.mem_cons_self)
          refine ⟨by simpa [Ne.symm blank] using clean, ?_⟩
          exact List.cons_subset_cons ch sub
        · obtain ⟨clean, sub⟩ := ih (split ▸ List.mem_cons_of_mem _ old)
          exact ⟨clean, List.subset_cons_of_subset ch sub⟩

theorem tokens_concat {word : Bytes} (whole : space ∉ word) (rest : Bytes) :
    tokens (word ++ space :: rest) = word :: tokens rest := by
  induction word with
  | nil => simp [tokens]
  | cons ch word ih =>
    obtain ⟨other, whole⟩ : space ≠ ch ∧ space ∉ word := by simpa using whole
    rw [List.cons_append, tokens, if_neg (Ne.symm other), ih whole]

theorem tokens_word {word : Bytes} (whole : space ∉ word) (nonempty : word ≠ []) :
    tokens word = [word] := by
  induction word with
  | nil => exact (nonempty rfl).elim
  | cons ch word ih =>
    obtain ⟨other, whole⟩ : space ≠ ch ∧ space ∉ word := by simpa using whole
    rw [tokens, if_neg (Ne.symm other)]
    cases word with
    | nil => rfl
    | cons next word => rw [ih whole (List.cons_ne_nil _ _)]

theorem tokens_head {ch : UInt8} (other : ch ≠ space) (rest : Bytes) :
    ((tokens (ch :: rest)).headD []).head? = some ch := by
  rw [tokens, if_neg other]
  cases tokens rest <;> rfl

/-- Every word but the last has had its space, and so has the last one where the frame
ends in a space. -/
def spaced (frame : Bytes) : Bytes :=
  if frame.getLast? = some space then frame else frame ++ [space]

theorem spaced_cons {rest : Bytes} (more : rest ≠ []) (ch : UInt8) :
    spaced (ch :: rest) = ch :: spaced rest := by
  have last : (ch :: rest).getLast? = rest.getLast? := by
    cases rest with
    | nil => exact (more rfl).elim
    | cons next rest => rfl
  unfold spaced
  rw [last]
  split_ifs <;> rfl

theorem tokens_ne_nil {frame : Bytes} (nonempty : frame ≠ []) : tokens frame ≠ [] := by
  cases frame with
  | nil => exact (nonempty rfl).elim
  | cons ch rest =>
    unfold tokens
    split_ifs
    · exact List.cons_ne_nil _ _
    · split <;> exact List.cons_ne_nil _ _

theorem flatMap_tokens {frame : Bytes} (nonempty : frame ≠ []) :
    (tokens frame).flatMap (fun word => word ++ [space]) = spaced frame := by
  induction frame with
  | nil => exact (nonempty rfl).elim
  | cons ch rest ih =>
    by_cases single : rest = []
    · subst single
      by_cases blank : ch = space <;> simp [tokens, spaced, blank]
    · rw [spaced_cons single, ← ih single]
      by_cases blank : ch = space
      · simp [tokens, blank]
      · obtain ⟨word, words, split⟩ := List.exists_cons_of_ne_nil (tokens_ne_nil single)
        simp [tokens, blank, split]

end Partyline
