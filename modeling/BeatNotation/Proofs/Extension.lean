import BeatNotation.Proofs.Sequence

/-! More sigils. Which sigils there are matters only where a lexeme begins: readers do not ask
for them, and accepted settings give no reserved character and no sigil of one group to another.
So a configuration with more sigils reads all that the one with fewer can read, and in the same
way. It reads on only where the other meets a character that opens nothing. -/

namespace BeatNotation

open Alphabet

/-! ### Configurations -/

namespace Configuration

/-- The second configuration has the file and the keywords of the first, and all its sigils. -/
structure Extends (x y : Configuration) : Prop where
  file : y.file = x.file
  keywords : y.keywords = x.keywords
  sigils : ∀ g, ∀ c ∈ x.sigils g, c ∈ y.sigils g

/-- The fault is a character that is a sigil of the second configuration only. -/
def Unlocks (x y : Configuration) (f : Fault) : Prop :=
  ∃ c, f = .unexpectedCharacter c ∧ (∃ g, c ∈ y.sigils g) ∧ ∀ g, c ∉ x.sigils g

end Configuration

namespace Rule

variable {x y : Configuration} {c : Char} {next : Option Char} {r : Rule}

theorem accepts_of_extends (h : x.Extends y) (hr : r.accepts x c next) : r.accepts y c next := by
  cases r with
  | name =>
    simp only [accepts, Bool.or_eq_true, decide_eq_true_eq] at hr ⊢
    exact hr.imp_right (h.sigils _ c)
  | marker k =>
    simp only [accepts, decide_eq_true_eq] at hr ⊢
    exact h.sigils _ c hr
  | _ => exact hr

/-- Configurations differ in what a rule accepts by their sigils alone. -/
theorem exists_sigil_of_accepts (hy : r.accepts y c next) (hx : ¬ r.accepts x c next) :
    ∃ g, c ∈ y.sigils g := by
  cases r with
  | name =>
    simp only [accepts, Bool.or_eq_true, decide_eq_true_eq, not_or] at hy hx
    exact ⟨.name, hy.resolve_left hx.1⟩
  | marker k =>
    simp only [accepts, decide_eq_true_eq] at hy
    exact ⟨.marker k, hy⟩
  | _ => exact absurd hy hx

theorem exists_accepts_of_sigil {g : SigilGroup} (hc : c ∈ x.sigils g) (next : Option Char) :
    ∃ r : Rule, r.accepts x c next := by
  cases g with
  | name => exact ⟨.name, by simp [accepts, hc]⟩
  | marker k => exact ⟨.marker k, by simp [accepts, hc]⟩

end Rule

/-! ### Lexers -/

/-- A character that no rule accepts is not expected. -/
theorem Lexer.piece_of_not_accepts {s : Settings} {c : Char} {rest : List Char}
    (hb : ¬ isBlank c) (h : ¬ ∃ r : Rule, r.accepts s.toConfiguration c rest.head?) :
    s.lexer.piece (c :: rest) = .fault (.unexpectedCharacter c) [] :=
  piece_of_heads (by simp) ⟨rfl, hb, rest, rfl, fun r hr => h ⟨r, hr⟩⟩

/-- With more sigils, the same pieces are cut off but where a new one was not expected. -/
theorem Settings.lexer_agreesBut {s t : Settings}
    (h : s.toConfiguration.Extends t.toConfiguration) :
    Lexer.AgreesBut (s.Unlocks t.toConfiguration) s.lexer t.lexer := by
  refine ⟨h.keywords, fun text => ?_⟩
  cases text with
  | nil => exact .inl rfl
  | cons c rest =>
    by_cases hb : isBlank c
    · exact .inl (by rw [Lexer.piece, Lexer.piece, if_pos hb, if_pos hb])
    by_cases hold : ∃ r : Rule, r.accepts s.toConfiguration c rest.head?
    -- A rule that claims the place still does, and in accepted settings no other can.
    · obtain ⟨r, hr⟩ := hold
      have hr' := Rule.accepts_of_extends h hr
      exact .inl (by rw [Lexer.piece_of_accepts hr, Lexer.piece_of_accepts hr'])
    have hp := Lexer.piece_of_not_accepts hb hold
    by_cases hnew : ∃ r : Rule, r.accepts t.toConfiguration c rest.head?
    -- Only by a new sigil is a place claimed that was not.
    · obtain ⟨r, hr⟩ := hnew
      have hsigil := Rule.exists_sigil_of_accepts hr fun hr => hold ⟨r, hr⟩
      exact .inr ⟨_, _, ⟨c, rfl, hsigil, fun g hg => hold (Rule.exists_accepts_of_sigil hg _)⟩, hp⟩
    · exact .inl ((Lexer.piece_of_not_accepts hb hnew).trans hp.symm)

/-! ### Scanners -/

variable {s t : Settings} {file? : Option String} {source : List Char}

/-- Settings with the same file put a cursor at the same start. -/
theorem Scanner.start_of_file (hfile : t.file = s.file) : Scanner.start t.lexer file? source =
    .mk t.lexer (Scanner.start s.lexer file? source).cursor none := by
  rw [start, start, Configuration.fileFor_of_file hfile]

/-- Lexers that agree but at such faults tokenize alike what does not fail at one. -/
theorem tokenize_of_agreesBut {bad : Fault → Prop} (h : Lexer.AgreesBut bad s.lexer t.lexer)
    (hfile : t.file = s.file)
    (hgood : ∀ f, (tokenize s file? source).1 = .error f → ¬ bad f.fault) :
    tokenize t file? source = tokenize s file? source := by
  have hdrain := h.drain (c := (Scanner.start s.lexer file? source).cursor) fun f hf =>
    hgood f (tokenize_error_iff.2 hf)
  rw [← Scanner.start_of_file hfile] at hdrain
  refine Prod.ext ?_ ?_
  · rw [tokenize_fst, tokenize_fst, hdrain]
    rfl
  · rw [tokenize_snd, tokenize_snd, hdrain]
    rfl

/-- A configuration with more sigils reads what the one with fewer does, in the same way, up to
the first character that is one of its new sigils and was not expected. So a text that is accepted,
or that fails at anything else, comes to the same for both. -/
theorem tokenize_more_sigils (s t : Settings) (h : s.toConfiguration.Extends t.toConfiguration)
    (file? : Option String) (source : List Char) :
    let old := Scanner.start s.lexer file? source
    let new := Scanner.start t.lexer file? source
    (∀ n, (∀ f, .failure f ∈ (old.nexts n).result → ¬ s.Unlocks t.toConfiguration f.fault) →
      (new.nexts n).result = (old.nexts n).result ∧
        (new.nexts n).remarks = (old.nexts n).remarks ∧
        (new.nexts n).state.cursor = (old.nexts n).state.cursor) ∧
    (∀ ts, (tokenize s file? source).1 = .ok ts →
      tokenize t file? source = tokenize s file? source) ∧
    ∀ f, (tokenize s file? source).1 = .error f → ¬ s.Unlocks t.toConfiguration f.fault →
      tokenize t file? source = tokenize s file? source := by
  intro old new
  have hagree := Settings.lexer_agreesBut h
  refine ⟨fun n hgood => ?_, fun ts hok => ?_, fun f hf hgood => ?_⟩
  · have hstart : new = .mk t.lexer old.cursor none := Scanner.start_of_file h.file
    have hold : old.nexts n = _ := Scanner.nexts_eq_reads s.lexer old.cursor n
    rw [hold] at hgood
    rw [hstart, Scanner.nexts_eq_reads, hold, hagree.reads hgood]
    exact ⟨rfl, rfl, rfl⟩
  · refine tokenize_of_agreesBut hagree h.file fun f hf => ?_
    rw [hok] at hf
    cases hf
  · refine tokenize_of_agreesBut hagree h.file fun g hg => ?_
    obtain rfl := Except.error.inj (hf.symm.trans hg)
    exact hgood

/-- A dash that becomes a sigil still belongs to the markers that it stands in. -/
theorem tokenize_more_sigils_dash :
    let dashes (g : SigilGroup) := if g = .marker .beat then ['|', '-'] else SigilGroup.standard g
    let t : Settings := ⟨{ sigils := dashes }, by decide +kernel⟩
    tokenize t none ['@', 'a', '-', 'b'] = tokenize .standard none ['@', 'a', '-', 'b'] := by
  intro dashes t
  have hmore : Settings.standard.Extends t.toConfiguration := by
    refine ⟨rfl, rfl, fun g c hc => ?_⟩
    by_cases hg : g = .marker .beat
    · subst hg
      exact List.mem_append_left ['-'] hc
    · simp only [t, dashes, if_neg hg]
      exact hc
  obtain ⟨-, hok, -⟩ := tokenize_more_sigils .standard t hmore none ['@', 'a', '-', 'b']
  exact hok [⟨.marker .property, .text "@a-b", "@a-b", ⟨"<input>", 1, 0⟩⟩]
    (tokenize_ok_iff.2 (by decide +kernel))

end BeatNotation
