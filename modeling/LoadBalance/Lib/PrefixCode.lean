import Mathlib.Data.List.Infix

/-!
# Prefix codes

A code is prefix-free if no word of it starts with another one. A stream of such words
can be cut into words in one way only, also when something follows the words, and a
piece of a word is not a stream of words.
-/

universe u

namespace PrefixCode

variable {α : Type u}

/-- No word of the code is a proper prefix of a word, and the empty list is not a word. -/
structure PrefixFree (Word : List α → Prop) : Prop where
  ne_nil : ∀ {word}, Word word → word ≠ []
  eq_of_prefix : ∀ {word other}, Word word → Word other → word <+: other → word = other

variable {Word : List α → Prop}

/-- Words which are followed by something are the first words of any cut into words. -/
theorem PrefixFree.exists_rest (code : PrefixFree Word) {words cut : List (List α)}
    {later : List α} (isWord : ∀ word ∈ words, Word word) (isCut : ∀ word ∈ cut, Word word)
    (sameStream : words.flatten ++ later = cut.flatten) :
    ∃ rest, cut = words ++ rest ∧ later = rest.flatten := by
  induction words generalizing cut with
  | nil => exact ⟨cut, rfl, sameStream⟩
  | cons word words ih =>
      simp only [List.forall_mem_cons] at isWord
      rw [List.flatten_cons, List.append_assoc] at sameStream
      cases cut with
      | nil =>
          rw [List.flatten_nil, List.append_eq_nil_iff] at sameStream
          exact absurd sameStream.1 (code.ne_nil isWord.1)
      | cons first cut =>
          simp only [List.forall_mem_cons] at isCut
          rw [List.flatten_cons] at sameStream
          have same : word = first := by
            have wordPrefix : word <+: first ++ cut.flatten :=
              sameStream ▸ List.prefix_append _ _
            rcases List.prefix_or_prefix_of_prefix wordPrefix (List.prefix_append _ _) with
              shorter | longer
            · exact code.eq_of_prefix isWord.1 isCut.1 shorter
            · exact (code.eq_of_prefix isCut.1 isWord.1 longer).symm
          subst same
          rcases ih isWord.2 isCut.2 (List.append_cancel_left sameStream) with ⟨rest, rfl, tail⟩
          exact ⟨rest, rfl, tail⟩

/-- Behind whole words, a piece of a word keeps the stream from being one of whole words. -/
theorem PrefixFree.not_flatten_of_piece (code : PrefixFree Word) {words : List (List α)}
    {word piece : List α} (isWord : ∀ word ∈ words, Word word) (whole : Word word)
    (started : piece <+: word) (nonempty : piece ≠ []) (short : piece.length < word.length)
    {cut : List (List α)} (isCut : ∀ word ∈ cut, Word word) :
    words.flatten ++ piece ≠ cut.flatten := by
  intro sameStream
  rcases code.exists_rest isWord isCut sameStream with ⟨rest, rfl, remaining⟩
  cases rest with
  | nil => exact nonempty remaining
  | cons first rest =>
      have firstWord : Word first := isCut first (by simp)
      have firstPrefix : first <+: piece := by
        rw [remaining, List.flatten_cons]
        exact List.prefix_append _ _
      have same := code.eq_of_prefix firstWord whole (firstPrefix.trans started)
      have longer := firstPrefix.length_le
      rw [same] at longer
      omega

end PrefixCode
