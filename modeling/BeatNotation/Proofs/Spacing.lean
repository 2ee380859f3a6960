import BeatNotation.Proofs.Decomposition

/-! Lexemes printed with blanks between them. They are read back as they were printed just
when no lexeme is taken into the one before it for want of a blank. One space between any
two is always enough. -/

namespace BeatNotation

open Alphabet

namespace Lexeme

variable {s : Settings} {l l' : Lexeme}

/-- Whether a lexeme takes in a next one that begins with the character. -/
def takesIn : Lexeme → Char → Bool
  | name _ _ => isAlphanumeric
  | marker k _ _ => (· ∈ k.body)
  | punctuation _ | operator _ => fun _ => false
  | integer _ | ratio _ _ => isDigit

/-- Only a slash goes on with an integer and begins no lexeme. -/
theorem goesOn_eq_takesIn {c : Char} (hc : c ≠ slash) : l.goesOn c = l.takesIn c := by
  cases l <;> simp [goesOn, takesIn, hc]

/-- The text of a lexeme tells which it is. -/
theorem eq_of_text_eq (h : l.Formed s.toConfiguration) (hs : l.Short)
    (h' : l'.Formed s.toConfiguration) (hs' : l'.Short) (ht : l.text = l'.text) : l = l' := by
  have hp := Lexer.piece_lexeme h hs (stops_nil _)
  rw [ht, Lexer.piece_lexeme h' hs' (stops_nil _)] at hp
  exact (Piece.lexeme.inj hp).symm

end Lexeme

/-! ### Gaps of blanks -/

theorem gap_of_blank {g : List Char} (hg : ∀ c ∈ g, isBlank c) (rest : List Char) : Gap g rest := by
  have hgap : Gap (g ++ []) rest := Gap.blanks hg .nil
  rwa [List.append_nil] at hgap

/-- A gap before what is neither blank nor a slash is as long as the blanks there. -/
theorem Gap.eq_of_blank {g g' t' : List Char} (hg' : Gap g' t') (hg : ∀ c ∈ g, isBlank c)
    (ht' : ∀ c ∈ t'.head?, ¬ isBlank c) {c : Char} {t : List Char} (hc : ¬ isBlank c)
    (hslash : c ≠ slash) (he : g ++ c :: t = g' ++ t') : g = g' := by
  induction hg' generalizing g with
  | nil =>
    cases g with
    | nil => rfl
    | cons b g =>
      rw [List.nil_append] at he
      subst he
      exact absurd (hg b List.mem_cons_self) (ht' b rfl)
  | blank hb hg' ih =>
    cases g with
    | nil =>
      obtain ⟨rfl, -⟩ := List.cons.inj he
      exact absurd hb hc
    | cons b g =>
      obtain ⟨rfl, hlater⟩ := List.cons.inj he
      rw [ih (fun a ha => hg a (List.mem_cons_of_mem _ ha)) ht' hlater]
  | comment =>
    cases g with
    | nil =>
      obtain ⟨rfl, -⟩ := List.cons.inj he
      exact absurd rfl hslash
    | cons b g =>
      obtain ⟨rfl, -⟩ := List.cons.inj he
      exact absurd (hg slash List.mem_cons_self) (by decide)

namespace Layout

variable {s : Settings} {d d' : Layout}

def lexemes : Layout → List Lexeme
  | last _ => []
  | next _ l d => l :: d.lexemes

/-- The gaps are blank, and the lexemes well-formed and short enough. -/
def Plain (x : Configuration) : Layout → Prop
  | last g => ∀ c ∈ g, isBlank c
  | next g l d => (∀ c ∈ g, isBlank c) ∧ l.Formed x ∧ l.Short ∧ d.Plain x

/-- Where nothing is between two lexemes, the first does not take in the second. -/
def Spaced : Layout → Prop
  | next _ l (next g m d) =>
    (g = [] → ∀ c ∈ m.text.head?, ¬ l.takesIn c) ∧ (next g m d).Spaced
  | _ => True

/-- What stops a lexeme at the head of blanks or of another lexeme. -/
theorem stops_iff {l m : Lexeme} {g : List Char} (hg : ∀ c ∈ g, isBlank c)
    (hm : m.Formed s.toConfiguration) (t : List Char) :
    Stops l.goesOn (g ++ (m.text ++ t)) ↔ (g = [] → ∀ c ∈ m.text.head?, ¬ l.takesIn c) := by
  obtain ⟨a, as, ha⟩ := List.exists_cons_of_ne_nil (Lexeme.text_ne_nil hm)
  cases g with
  | nil => simp [ha, Lexeme.goesOn_eq_takesIn (Lexeme.ne_slash_of_text hm ha)]
  | cons b g =>
    have hb : ¬ l.goesOn b := fun h => Lexeme.not_isBlank_of_goesOn h (hg b List.mem_cons_self)
    simpa using hb

/-- A plain layout is a valid one just when it is well spaced. -/
theorem valid_iff_spaced (hd : d.Plain s.toConfiguration) :
    d.Valid s.toConfiguration ↔ d.Spaced := by
  induction d with
  | last g => exact iff_of_true (gap_of_blank hd []) trivial
  | next g l d ih =>
    obtain ⟨hg, hf, hs, hd⟩ := hd
    have hgap := gap_of_blank hg (l.text ++ d.text)
    cases d with
    | last g' =>
      have hstop : Stops l.goesOn g' := by
        intro c hc h
        exact Lexeme.not_isBlank_of_goesOn h (hd c (List.mem_of_mem_head? hc))
      exact iff_of_true ⟨hgap, hf, hs, hstop, gap_of_blank hd []⟩ trivial
    | next g' m d =>
      have hstop : Stops l.goesOn (next g' m d).text ↔ _ := stops_iff hd.1 hd.2.1 d.text
      rw [Spaced, ← hstop, ← ih hd, Valid]
      exact ⟨fun h => h.2.2.2, fun h => ⟨hgap, hf, hs, h⟩⟩

/-- A valid layout of the same text with lexemes of the same texts is the plain one itself. -/
theorem eq_of_lexemes (hd : d.Plain s.toConfiguration) (hd' : d'.Valid s.toConfiguration)
    (ht : d.text = d'.text) (hl : d.lexemes.map Lexeme.text = d'.lexemes.map Lexeme.text) :
    d = d' := by
  induction d generalizing d' with
  | last g =>
    cases d' with
    | last g' => rw [show g = g' from ht]
    | next g' l' d' => cases hl
  | next g l d ih =>
    cases d' with
    | last g' => cases hl
    | next g' l' d' =>
      obtain ⟨hg, hf, hs, hd⟩ := hd
      obtain ⟨hg', hf', hs', -, hd'⟩ := hd'
      obtain ⟨htext, hlater⟩ := List.cons.inj hl
      obtain rfl := Lexeme.eq_of_text_eq hf hs hf' hs' htext
      obtain ⟨a, as, ha⟩ := List.exists_cons_of_ne_nil (Lexeme.text_ne_nil hf)
      have hmem : a ∈ l.text := ha ▸ List.mem_cons_self
      have hblank : ¬ isBlank a := Lexeme.not_isBlank_of_mem hf hmem
      have hgap : g = g' := by
        refine hg'.eq_of_blank hg ?_ hblank (Lexeme.ne_slash_of_text hf ha) (t := as ++ d.text) ?_
        · rw [ha]
          intro c hc
          obtain rfl := Option.some.inj hc
          exact hblank
        · rw [← List.cons_append, ← ha]
          exact ht
      subst hgap
      have hrest : d.text = d'.text := List.append_cancel_left (List.append_cancel_left ht)
      rw [ih hd hd' hrest hlater]

/-- The tokens of a layout have its lexemes' kinds, values and texts. -/
theorem map_tokens {α : Type} (f : Token → α) (g : Lexeme → α) (keywords : Vocabulary)
    (hf : ∀ l location, f (l.token keywords location) = g l) (file : String) (before : List Char)
    (d : Layout) : (d.tokens keywords file before).map f = d.lexemes.map g := by
  induction d generalizing before with
  | last _ => rfl
  | next _ l d ih => simp only [tokens, lexemes, List.map_cons, hf, ih]

theorem formed_of_valid {x : Configuration} (hv : d.Valid x) :
    ∀ l ∈ d.lexemes, l.Formed x ∧ l.Short := by
  induction d with
  | last g => exact fun _ h => absurd h List.not_mem_nil
  | next g l d ih =>
    obtain ⟨-, hf, hs, -, hd⟩ := hv
    intro m hm
    rcases List.mem_cons.1 hm with rfl | hm
    · exact ⟨hf, hs⟩
    · exact ih hd m hm

/-- Lexemes in a row, the first after a gap and a space before each of the others. -/
def row (g : List Char) : List Lexeme → Layout
  | [] => last []
  | l :: ls => next g l (row [' '] ls)

@[simp] theorem lexemes_row (g : List Char) (ls : List Lexeme) : (row g ls).lexemes = ls := by
  induction ls generalizing g with
  | nil => rfl
  | cons l ls ih => rw [row, lexemes, ih]

theorem text_row (g : List Char) (l : Lexeme) (ls : List Lexeme) :
    (row g (l :: ls)).text = g ++ [' '].intercalate ((l :: ls).map Lexeme.text) := by
  induction ls generalizing g l with
  | nil => simp [row, text]
  | cons m ls ih =>
    rw [row, text, ih]
    simp [List.intercalate_cons_cons]

theorem plain_row {x : Configuration} {g : List Char} (hg : ∀ c ∈ g, isBlank c) {ls : List Lexeme}
    (hls : ∀ l ∈ ls, l.Formed x ∧ l.Short) : (row g ls).Plain x := by
  induction ls generalizing g with
  | nil => exact fun _ h => absurd h List.not_mem_nil
  | cons l ls ih =>
    obtain ⟨hf, hs⟩ := hls l List.mem_cons_self
    exact ⟨hg, hf, hs, ih (by simp [isBlank, blanks]) fun m hm => hls m (List.mem_cons_of_mem _ hm)⟩

theorem text_row_nil (ls : List Lexeme) :
    (row [] ls).text = [' '].intercalate (ls.map Lexeme.text) := by
  cases ls with
  | nil => rfl
  | cons l ls => exact text_row [] l ls

theorem spaced_row (g : List Char) (ls : List Lexeme) : (row g ls).Spaced := by
  induction ls generalizing g with
  | nil => trivial
  | cons l ls ih =>
    cases ls with
    | nil => trivial
    | cons m ls => exact ⟨fun h => absurd h (by simp), ih [' ']⟩

end Layout

/-- Lexemes with blanks between them are read back just when they are well spaced. So the
texts of a text's tokens, with one space between any two, are read back as the same tokens,
places apart. -/
theorem tokenize_texts_iff_spaced (s : Settings) (file? : Option String) :
    (∀ d : Layout, d.Plain s.toConfiguration →
      ((∃ ts, (tokenize s file? d.text).1 = .ok ts ∧
          ts.map (·.text) = d.lexemes.map fun l => String.ofList l.text) ↔ d.Spaced)) ∧
    ∀ source ts, (tokenize s file? source).1 = .ok ts →
      ∃ us, (tokenize s file? ([' '].intercalate (ts.map (·.text.toList)))).1 = .ok us ∧
        us.map (fun t => (t.kind, t.value, t.text)) =
          ts.map (fun t => (t.kind, t.value, t.text)) := by
  constructor
  · intro d hd
    rw [← Layout.valid_iff_spaced hd]
    constructor
    · rintro ⟨ts, hok, htexts⟩
      obtain ⟨d', ⟨hd', ht⟩, rfl⟩ := Layout.exists_of_tokenize hok
      have hlexemes : d.lexemes.map Lexeme.text = d'.lexemes.map Lexeme.text := by
        rw [Layout.map_tokens _ (fun l => String.ofList l.text) _ fun _ _ => rfl] at htexts
        have hlists := congrArg (List.map String.toList) htexts.symm
        simpa [Function.comp_def] using hlists
      rwa [Layout.eq_of_lexemes hd hd' ht.symm hlexemes]
    · intro hv
      exact ⟨_, Layout.tokenize_text hv file?, Layout.map_tokens _ _ _ (fun _ _ => rfl) _ _ d⟩
  · intro source ts hok
    obtain ⟨d, ⟨hd, rfl⟩, rfl⟩ := Layout.exists_of_tokenize hok
    have hplain : (Layout.row [] d.lexemes).Plain s.toConfiguration :=
      Layout.plain_row (fun _ h => absurd h List.not_mem_nil) (Layout.formed_of_valid hd)
    have hvalid := (Layout.valid_iff_spaced hplain).2 (Layout.spaced_row [] d.lexemes)
    have htexts : ((d.tokens s.keywords (s.fileFor file?) []).map
        (·.text.toList)) = d.lexemes.map Lexeme.text :=
      Layout.map_tokens _ _ _ (fun l _ => String.toList_ofList) _ _ d
    rw [htexts, ← Layout.text_row_nil]
    refine ⟨_, Layout.tokenize_text hvalid file?, ?_⟩
    have hsame := Layout.map_tokens (fun t => (t.kind, t.value, t.text))
      (fun l => (l.kind s.keywords, l.value, String.ofList l.text)) s.keywords fun _ _ => rfl
    rw [hsame, hsame, Layout.lexemes_row]

/-- An integer and a ratio without a blank between them are read as one number; a bracket and
a number may touch, and are the same with a space between them. -/
theorem tokenize_texts_iff_spaced_numbers :
    (Layout.next [] (.integer ['4']) (.next [] (.ratio ['4'] ['4']) (.last []))).Plain
        Settings.standard.toConfiguration ∧
      (¬ ∃ ts, (tokenize .standard none ['4', '4', '/', '4']).1 = .ok ts ∧
        ts.map (·.text) = ["4", "4/4"]) ∧
      (tokenize .standard none ['[', '4']).1 =
        .ok [⟨.punctuation, .text "[", "[", ⟨"<input>", 1, 0⟩⟩,
          ⟨.number, .integer 4, "4", ⟨"<input>", 1, 1⟩⟩] ∧
      ∃ us, (tokenize .standard none ['[', ' ', '4']).1 = .ok us ∧
        us.map (fun t => (t.kind, t.value, t.text)) =
          [(.punctuation, .text "[", "["), (.number, .integer 4, "4")] := by
  have hplain : (Layout.next [] (.integer ['4']) (.next [] (.ratio ['4'] ['4']) (.last []))).Plain
      Settings.standard.toConfiguration := by
    simp [Layout.Plain, Lexeme.Formed, IsNumeral, Lexeme.Short, Lexeme.numerals, Numeral.limit,
      isDigit, digits]
  have hok : (tokenize .standard none ['[', '4']).1 =
      .ok [⟨.punctuation, .text "[", "[", ⟨"<input>", 1, 0⟩⟩,
        ⟨.number, .integer 4, "4", ⟨"<input>", 1, 1⟩⟩] :=
    tokenize_ok_iff.2 (by decide +kernel)
  have hspaced := (tokenize_texts_iff_spaced .standard none).1 _ hplain
  refine ⟨hplain, fun h => ?_, hok, (tokenize_texts_iff_spaced .standard none).2 _ _ hok⟩
  exact absurd rfl ((hspaced.1 h).1 rfl '4' rfl)

end BeatNotation
