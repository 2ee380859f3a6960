/-! Finite sets of words. A vocabulary lists its words in strictly ascending order,
so two vocabularies with the same words are equal. -/

namespace BeatNotation

/-- A finite set of words in code point order. -/
structure Vocabulary where
  words : List String
  ascending : words.Pairwise (· < ·)
deriving DecidableEq

namespace Vocabulary

/-- A word put in its place among ascending words, once. -/
def place (word : String) : List String → List String
  | [] => [word]
  | w :: ws =>
    if word < w then word :: w :: ws
    else if word = w then w :: ws
    else w :: place word ws

theorem mem_place {word x : String} {ws : List String} : x ∈ place word ws ↔ x = word ∨ x ∈ ws := by
  induction ws with
  | nil => simp [place]
  | cons w ws ih => grind [place]

theorem place_ascending (word : String) {ws : List String} (h : ws.Pairwise (· < ·)) :
    (place word ws).Pairwise (· < ·) := by
  induction ws with
  | nil => simp [place]
  | cons w ws ih =>
    obtain ⟨hw, hs⟩ := List.pairwise_cons.1 h
    unfold place
    split
    · next hlt =>
      refine List.pairwise_cons.2 ⟨fun x hx => ?_, h⟩
      rcases List.mem_cons.1 hx with rfl | hx
      · exact hlt
      · exact String.lt_trans hlt (hw x hx)
    · next hlt =>
      split
      · exact h
      · next hne =>
        refine List.pairwise_cons.2 ⟨fun x hx => ?_, ih hs⟩
        rcases mem_place.1 hx with rfl | hx
        · rcases Std.lt_trichotomy x w with h | h | h
          · exact absurd h hlt
          · exact absurd h hne
          · exact h
        · exact hw x hx

/-- The set of the given words. -/
def ofList : List String → Vocabulary
  | [] => ⟨[], .nil⟩
  | word :: words => ⟨place word (ofList words).words, place_ascending word (ofList words).ascending⟩

instance : Membership String Vocabulary := ⟨fun v word => word ∈ v.words⟩

instance (word : String) (v : Vocabulary) : Decidable (word ∈ v) :=
  inferInstanceAs (Decidable (word ∈ v.words))

@[simp] theorem mem_words {word : String} {v : Vocabulary} : word ∈ v.words ↔ word ∈ v := Iff.rfl

@[simp] theorem mem_ofList {word : String} {words : List String} :
    word ∈ ofList words ↔ word ∈ words := by
  induction words with
  | nil => simp [← mem_words, ofList]
  | cons w ws ih => rw [← mem_words, ofList, mem_place, mem_words, ih, List.mem_cons]

private theorem eq_of_same_members {s t : List String} (hs : s.Pairwise (· < ·))
    (ht : t.Pairwise (· < ·)) (h : ∀ x, x ∈ s ↔ x ∈ t) : s = t := by
  induction s generalizing t with
  | nil => cases t with
    | nil => rfl
    | cons b t => simpa using h b
  | cons a s ih => cases t with
    | nil => simpa using h a
    | cons b t =>
      obtain ⟨ha, hs'⟩ := List.pairwise_cons.1 hs
      obtain ⟨hb, ht'⟩ := List.pairwise_cons.1 ht
      have hab : a = b := by
        rcases List.mem_cons.1 ((h a).1 (by simp)) with e | hat
        · exact e
        · rcases List.mem_cons.1 ((h b).2 (by simp)) with e | hbs
          · exact e.symm
          · exact absurd (String.lt_trans (hb a hat) (ha b hbs)) (String.lt_irrefl b)
      subst hab
      congr 1
      refine ih hs' ht' fun x => ⟨fun hx => ?_, fun hx => ?_⟩
      · rcases List.mem_cons.1 ((h x).1 (List.mem_cons_of_mem _ hx)) with rfl | hx'
        · exact absurd (ha x hx) (String.lt_irrefl x)
        · exact hx'
      · rcases List.mem_cons.1 ((h x).2 (List.mem_cons_of_mem _ hx)) with rfl | hx'
        · exact absurd (hb x hx) (String.lt_irrefl x)
        · exact hx'

/-- Vocabularies with the same words are equal. -/
theorem ext_mem {v w : Vocabulary} (h : ∀ x, x ∈ v ↔ x ∈ w) : v = w := by
  obtain ⟨s, hs⟩ := v
  obtain ⟨t, ht⟩ := w
  congr 1
  exact eq_of_same_members hs ht h

end Vocabulary

end BeatNotation
