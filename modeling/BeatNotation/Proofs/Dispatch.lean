import BeatNotation.Proofs.Pieces
import BeatNotation.Proofs.SigilTable

/-! Which rule reads a place. In accepted settings no sigil is reserved and none belongs
to two groups, so at most one rule claims a place, and the first to claim it is the only
one: the order in which the rules are tried does not matter. -/

namespace BeatNotation

open Alphabet

/-! ### Accepted sigils -/

/-- Of two members of a list, one comes before the other. -/
theorem mem_takeWhile_ne_or {α : Type} [DecidableEq α] {a b : α} {l : List α} (ha : a ∈ l)
    (hb : b ∈ l) (hab : a ≠ b) : a ∈ l.takeWhile (· ≠ b) ∨ b ∈ l.takeWhile (· ≠ a) := by
  induction l with
  | nil => simp at ha
  | cons d l ih =>
    by_cases hda : d = a
    · subst hda
      left
      simp [hab]
    · by_cases hdb : d = b
      · subst hdb
        right
        simp [Ne.symm hab]
      · have ha' : a ∈ l := (List.mem_cons.1 ha).resolve_left (Ne.symm hda)
        have hb' : b ∈ l := (List.mem_cons.1 hb).resolve_left (Ne.symm hdb)
        rcases ih ha' hb' with h | h
        · left
          rw [List.takeWhile_cons_of_pos (by simpa using hdb)]
          exact List.mem_cons_of_mem _ h
        · right
          rw [List.takeWhile_cons_of_pos (by simpa using hda)]
          exact List.mem_cons_of_mem _ h

namespace Settings

variable {s : Settings} {g h : SigilGroup} {c : Char}

theorem groupViolation?_eq_none (s : Settings) (g : SigilGroup) : s.groupViolation? g = none := by
  have ha := s.accepted
  rw [Configuration.violation?_eq, Option.or_eq_none_iff, List.findSome?_eq_none_iff] at ha
  exact ha.1 g (SigilGroup.mem_all g)

theorem sigilViolation?_eq_none (hc : c ∈ s.sigils g) : s.sigilViolation? g c = none := by
  have hg := s.groupViolation?_eq_none g
  rw [Configuration.groupViolation?] at hg
  split at hg
  · simp at hg
  · exact List.findSome?_eq_none_iff.1 hg c hc

theorem not_mem_reserved (hc : c ∈ s.sigils g) : c ∉ reserved := by
  intro hr
  have hv := sigilViolation?_eq_none hc
  simp [Configuration.sigilViolation?, hr] at hv

theorem not_mem_earlier (hc : c ∈ s.sigils g) (hh : h ∈ g.earlier) : c ∉ s.sigils h := by
  have hv := sigilViolation?_eq_none hc
  rw [Configuration.sigilViolation?, if_neg (not_mem_reserved hc), Option.map_eq_none_iff,
    List.find?_eq_none] at hv
  simpa using hv h hh

theorem group_unique (hg : c ∈ s.sigils g) (hh : c ∈ s.sigils h) : g = h := by
  by_cases hgh : g = h
  · exact hgh
  · rcases mem_takeWhile_ne_or (SigilGroup.mem_all g) (SigilGroup.mem_all h) hgh with he | he
    · exact absurd hg (not_mem_earlier hh he)
    · exact absurd hh (not_mem_earlier hg he)

end Settings

/-! ### The claim of a rule -/

namespace Rule

theorem mem_priority (r : Rule) : r ∈ priority := by
  cases r with
  | marker k => cases k <;> decide
  | _ => decide

/-- The group whose sigils open the rule's lexemes. -/
def group? : Rule → Option SigilGroup
  | name => some .name
  | marker k => some (.marker k)
  | _ => none

theorem group?_injective {r r' : Rule} {g : SigilGroup} (h : r.group? = some g)
    (h' : r'.group? = some g) : r = r' := by
  cases r <;> cases r' <;> simp_all [group?] <;> grind

/-- The reserved characters that some rule reads: all but the blanks. -/
def claimed : List Char := alphanumerics ++ Alphabet.punctuation ++ operators ++ [slash]

/-- Two alphabets without a common character, told by trying the first. -/
theorem not_mem_of_all {s t : List Char} (h : s.all (· ∉ t)) : ∀ c ∈ s, c ∉ t := by
  simpa using h

theorem not_isBlank_of_claimed {c : Char} (h : c ∈ claimed) : ¬ isBlank c := by
  have hc : c ∉ blanks := not_mem_of_all (by decide) c h
  simpa [isBlank] using hc

/-- The rule that a reserved character belongs to, given the character after it. -/
def owner (c : Char) (next : Option Char) : Rule :=
  if c ∈ letters then name
  else if c ∈ digits then number
  else if c ∈ Alphabet.punctuation then punctuation
  else if c ∈ operators then operator
  else if next = some slash then comment
  else number

/-- A rule claims a place by a sigil of its own or by a reserved character. -/
theorem accepts_cases {x : Configuration} {c : Char} {next : Option Char} {r : Rule}
    (h : r.accepts x c next) :
    (∃ g, r.group? = some g ∧ c ∈ x.sigils g) ∨ (c ∈ claimed ∧ r = owner c next) := by
  have not_letter : ∀ c ∈ digits ++ Alphabet.punctuation ++ operators, c ∉ letters :=
    not_mem_of_all (by decide)
  have not_digit : ∀ c ∈ Alphabet.punctuation ++ operators, c ∉ digits :=
    not_mem_of_all (by decide)
  have not_punctuation : ∀ c ∈ operators, c ∉ Alphabet.punctuation := not_mem_of_all (by decide)
  cases r with
  | comment =>
    simp only [accepts, Bool.and_eq_true, decide_eq_true_eq] at h
    obtain ⟨rfl, rfl⟩ := h
    right
    decide
  | name =>
    simp only [accepts, isLetter, Bool.or_eq_true, decide_eq_true_eq] at h
    rcases h with h | h
    · right
      exact ⟨by simp [claimed, alphanumerics, h], by simp [owner, h]⟩
    · exact .inl ⟨.name, rfl, h⟩
  | marker k =>
    simp only [accepts, decide_eq_true_eq] at h
    exact .inl ⟨.marker k, rfl, h⟩
  | punctuation =>
    simp only [accepts, decide_eq_true_eq] at h
    right
    have hl := not_letter c (by simp [h])
    have hd := not_digit c (by simp [h])
    exact ⟨by simp [claimed, h], by simp [owner, hl, hd, h]⟩
  | operator =>
    simp only [accepts, decide_eq_true_eq] at h
    right
    have hl := not_letter c (by simp [h])
    have hd := not_digit c (by simp [h])
    have hp := not_punctuation c h
    exact ⟨by simp [claimed, h], by simp [owner, hl, hd, hp, h]⟩
  | number =>
    simp only [accepts, isDigit, Bool.or_eq_true, Bool.and_eq_true, decide_eq_true_eq] at h
    right
    rcases h with h | ⟨rfl, h⟩
    · have hl := not_letter c (by simp [h])
      exact ⟨by simp [claimed, alphanumerics, h], by simp [owner, hl, h]⟩
    · have hn : next ≠ some slash := by
        rintro rfl
        exact absurd h (by decide)
      exact ⟨by decide, by simp [owner, hn]; decide⟩

/-- At most one rule claims a place. -/
theorem accepts_unique {s : Settings} {c : Char} {next : Option Char} {r r' : Rule}
    (h : r.accepts s.toConfiguration c next) (h' : r'.accepts s.toConfiguration c next) :
    r = r' := by
  rcases accepts_cases h with ⟨g, hg, hc⟩ | ⟨hc, hr⟩ <;>
    rcases accepts_cases h' with ⟨g', hg', hc'⟩ | ⟨hc', hr'⟩
  · obtain rfl := Settings.group_unique hc hc'
    exact group?_injective hg hg'
  · exact absurd (List.mem_append_left _ hc') (Settings.not_mem_reserved hc)
  · exact absurd (List.mem_append_left _ hc) (Settings.not_mem_reserved hc')
  · exact hr.trans hr'.symm

/-- No rule claims a blank. -/
theorem not_isBlank_of_accepts {s : Settings} {c : Char} {next : Option Char} {r : Rule}
    (h : r.accepts s.toConfiguration c next) : ¬ isBlank c := by
  rcases accepts_cases h with ⟨g, -, hc⟩ | ⟨hc, -⟩
  · intro hb
    exact Settings.not_mem_reserved hc (List.mem_append_right _ (by simpa [isBlank] using hb))
  · exact not_isBlank_of_claimed hc

end Rule

/-! ### The rule of a place -/

namespace Lexer

/-- When every rule is tried, the first that claims a place is any that does. -/
theorem rule?_eq_some_iff {x : Lexer} (hx : ∀ r, r ∈ x.rules) {c : Char} {next : Option Char}
    {r : Rule} : x.rule? c next = some r ↔ r.accepts x.settings.toConfiguration c next := by
  constructor
  · intro h
    exact List.find?_some h
  · intro h
    have hs : (x.rule? c next).isSome := List.find?_isSome.2 ⟨r, hx r, h⟩
    obtain ⟨r', hr'⟩ := Option.isSome_iff_exists.1 hs
    rw [hr', Rule.accepts_unique (List.find?_some hr') h]

end Lexer

end BeatNotation
