import BeatNotation.Text.CodePoints

/-! Cutting a text at a separator, and trimming the space around a piece. A text
with `n` separators has `n + 1` pieces. -/

namespace BeatNotation.Text

/-- The pieces between occurrences of the separator, empty ones included. -/
def split (separator : Char) (text : List Char) : List (List Char) :=
  text.foldr (fun c pieces =>
    if c = separator then [] :: pieces
    else match pieces with
      | [] => [[c]]
      | piece :: others => (c :: piece) :: others) [[]]

/-- The lines of a text, without their newlines. -/
def lines (text : List Char) : List (List Char) := split '\n' text

@[simp] theorem split_nil (separator : Char) : split separator [] = [[]] := rfl

@[simp] theorem split_cons_separator (separator : Char) (text : List Char) :
    split separator (separator :: text) = [] :: split separator text := by
  simp [split]

theorem split_ne_nil (separator : Char) (text : List Char) : split separator text ≠ [] := by
  cases text with
  | nil => simp
  | cons c text =>
    simp only [split, List.foldr_cons]
    split
    · simp
    · split <;> simp

theorem split_cons_of_ne {separator c : Char} (h : c ≠ separator) {text piece : List Char}
    {others : List (List Char)} (hs : split separator text = piece :: others) :
    split separator (c :: text) = (c :: piece) :: others := by
  simp only [split, List.foldr_cons, if_neg h] at hs ⊢
  rw [hs]

theorem split_of_not_mem {separator : Char} {text : List Char} (h : separator ∉ text) :
    split separator text = [text] := by
  induction text with
  | nil => rfl
  | cons c text ih =>
    have hc : c ≠ separator := fun e => h (e ▸ List.mem_cons_self)
    have ht : separator ∉ text := fun m => h (List.mem_cons_of_mem _ m)
    exact split_cons_of_ne hc (ih ht)

theorem split_append_separator {separator : Char} {piece : List Char} (h : separator ∉ piece)
    (text : List Char) :
    split separator (piece ++ separator :: text) = piece :: split separator text := by
  induction piece with
  | nil => exact split_cons_separator separator text
  | cons c piece ih =>
    have hc : c ≠ separator := fun e => h (e ▸ List.mem_cons_self)
    have hp : separator ∉ piece := fun m => h (List.mem_cons_of_mem _ m)
    exact split_cons_of_ne hc (ih hp)

theorem not_mem_of_mem_split {separator : Char} {piece text : List Char}
    (h : piece ∈ split separator text) : separator ∉ piece := by
  induction text generalizing piece with
  | nil =>
    rw [split_nil, List.mem_singleton] at h
    simp [h]
  | cons c text ih =>
    by_cases hc : c = separator
    · rw [hc, split_cons_separator, List.mem_cons] at h
      rcases h with rfl | h
      · exact List.not_mem_nil
      · exact ih h
    · obtain ⟨first, others, hs⟩ := List.exists_cons_of_ne_nil (split_ne_nil separator text)
      rw [hs] at ih
      rw [split_cons_of_ne hc hs, List.mem_cons] at h
      rcases h with rfl | h
      · intro hm
        rcases List.mem_cons.1 hm with rfl | hm
        · exact hc rfl
        · exact ih List.mem_cons_self hm
      · exact ih (List.mem_cons_of_mem _ h)

/-- Pieces joined by the separator are cut apart again. -/
theorem split_intercalate {separator : Char} {pieces : List (List Char)} (hp : pieces ≠ [])
    (h : ∀ p ∈ pieces, separator ∉ p) :
    split separator ([separator].intercalate pieces) = pieces := by
  induction pieces with
  | nil => exact absurd rfl hp
  | cons p ps ih =>
    have hfirst : separator ∉ p := h p List.mem_cons_self
    cases ps with
    | nil => rw [List.intercalate_singleton, split_of_not_mem hfirst]
    | cons q ps =>
      have hlater := ih (by simp) fun r hr => h r (List.mem_cons_of_mem _ hr)
      rw [List.intercalate_cons_cons, List.append_assoc, List.singleton_append,
        split_append_separator hfirst, hlater]

/-- The text without the space at its two ends. -/
def trim (text : List Char) : List Char :=
  ((text.dropWhile spaces.contains).reverse.dropWhile spaces.contains).reverse

end BeatNotation.Text
