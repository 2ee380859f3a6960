import BeatNotation.Proofs.Decimal
import BeatNotation.Proofs.Sequence
import BeatNotation.Proofs.Viability

/-! What number tokens say. The text of one is a numeral, or two with a slash between them, and
its value is what these write. The value is printed as the text without leading zeros, and is
read back from there. So numbers have equal values just when they are written alike, leading
zeros apart. -/

namespace BeatNotation

open Alphabet

/-- The text of a number without leading zeros in any of its digit runs. -/
def Numeral.unpadded (text : List Char) : List Char :=
  [slash].intercalate ((Text.split slash text).map trimmed)

theorem IsNumeral.slash_not_mem {ds : List Char} (h : IsNumeral ds) : slash ∉ ds :=
  fun hs => absurd (h.2 slash hs) (by decide)

namespace Lexeme

variable {x : Configuration} {l m : Lexeme}

theorem rule_of_kind {keywords : Vocabulary} (h : l.kind keywords = .number) :
    l.rule = .number := by
  cases l with
  | name c cs =>
    simp only [kind] at h
    split at h <;> cases h
  | integer ds => rfl
  | ratio ds es => rfl
  | _ => cases h

theorem kind_of_rule (hr : l.rule = .number) (keywords : Vocabulary) :
    l.kind keywords = .number := by
  cases l <;> cases hr <;> rfl

/-- A number is one in every configuration. -/
theorem formed_of_rule (h : l.Formed x) (hr : l.rule = .number) (y : Configuration) :
    l.Formed y := by
  cases l <;> cases hr <;> exact h

/-- The slash of a number parts its digit runs. -/
theorem split_text (h : l.Formed x) (hr : l.rule = .number) :
    Text.split slash l.text = l.numerals := by
  cases l with
  | integer ds => exact Text.split_of_not_mem h.slash_not_mem
  | ratio ds es =>
    rw [text, Text.split_append_separator h.1.slash_not_mem,
      Text.split_of_not_mem h.2.slash_not_mem]
    rfl
  | _ => cases hr

/-! ### Leading zeros -/

/-- A number's digit runs without leading zeros. -/
def trimmed : Lexeme → Lexeme
  | integer ds => integer (Numeral.trimmed ds)
  | ratio ds es => ratio (Numeral.trimmed ds) (Numeral.trimmed es)
  | l => l

theorem numerals_trimmed (l : Lexeme) : l.trimmed.numerals = l.numerals.map Numeral.trimmed := by
  cases l <;> rfl

theorem rule_trimmed (l : Lexeme) : l.trimmed.rule = l.rule := by
  cases l <;> rfl

theorem formed_trimmed (h : l.Formed x) : l.trimmed.Formed x := by
  cases l with
  | integer ds => exact Numeral.isNumeral_trimmed h
  | ratio ds es => exact ⟨Numeral.isNumeral_trimmed h.1, Numeral.isNumeral_trimmed h.2⟩
  | _ => exact h

theorem short_trimmed (h : l.Short) : l.trimmed.Short := by
  intro es hes
  rw [numerals_trimmed] at hes
  obtain ⟨ds, hds, rfl⟩ := List.mem_map.1 hes
  exact Nat.le_trans (Numeral.length_trimmed_le ds) (h ds hds)

theorem value_trimmed (h : l.Formed x) : l.trimmed.value = l.value := by
  cases l with
  | integer ds => simp only [trimmed, value, Numeral.value_trimmed h]
  | ratio ds es => simp only [trimmed, value, Numeral.value_trimmed h.1, Numeral.value_trimmed h.2]
  | _ => rfl

theorem text_trimmed (h : l.Formed x) (hr : l.rule = .number) :
    l.trimmed.text = Numeral.unpadded l.text := by
  rw [Numeral.unpadded, split_text h hr]
  cases l with
  | integer ds => simp [trimmed, text, numerals]
  | ratio ds es => simp [trimmed, text, numerals, List.intercalate_cons_cons]
  | _ => cases hr

theorem split_unpadded (h : l.Formed x) (hr : l.rule = .number) :
    Text.split slash (Numeral.unpadded l.text) = l.numerals.map Numeral.trimmed := by
  rw [← text_trimmed h hr, split_text (formed_trimmed h) (l.rule_trimmed.trans hr),
    numerals_trimmed]

/-- Numbers without leading zeros of the same text are the same. -/
theorem trimmed_eq_iff (h : l.Formed x) (hr : l.rule = .number) {y : Configuration}
    (hm : m.Formed y) (hmr : m.rule = .number) :
    l.trimmed = m.trimmed ↔ Numeral.unpadded l.text = Numeral.unpadded m.text := by
  constructor
  · intro htrimmed
    rw [← text_trimmed h hr, ← text_trimmed hm hmr, htrimmed]
  · intro htext
    have hnumerals := congrArg (Text.split slash) htext
    rw [split_unpadded h hr, split_unpadded hm hmr] at hnumerals
    cases l <;> cases m <;> simp_all [trimmed, numerals, rule]

/-! ### Values -/

theorem display_integer {ds : List Char} (h : IsNumeral ds) :
    toString (Numeral.value ds : Int) = String.ofList (Numeral.trimmed ds) := by
  rw [← Numeral.toDigits_value h]
  rfl

/-- The value of a number is printed as its text without leading zeros. -/
theorem display_value (h : l.Formed x) (hr : l.rule = .number) :
    l.value.display = String.ofList (Numeral.unpadded l.text) := by
  rw [← text_trimmed h hr]
  cases l with
  | integer ds => exact display_integer h
  | ratio ds es =>
    show toString (Numeral.value ds : Int) ++ "/" ++ toString (Numeral.value es : Int) = _
    rw [display_integer h.1, display_integer h.2, trimmed, text, ← List.singleton_append,
      String.ofList_append, String.ofList_append, ← String.append_assoc]
    rfl
  | _ => cases hr

/-- Numbers have the same value just when they are written alike, leading zeros apart. -/
theorem value_eq_iff (h : l.Formed x) (hr : l.rule = .number) {y : Configuration} (hm : m.Formed y)
    (hmr : m.rule = .number) :
    l.value = m.value ↔ Numeral.unpadded l.text = Numeral.unpadded m.text := by
  constructor
  · intro hv
    have hdisplay := congrArg Value.display hv
    rw [display_value h hr, display_value hm hmr] at hdisplay
    exact String.ofList_injective hdisplay
  · intro ht
    rw [← value_trimmed h, ← value_trimmed hm, (trimmed_eq_iff h hr hm hmr).2 ht]

/-- The shape of a number and what its digits write. -/
theorem number_cases (h : l.Formed x) (hr : l.rule = .number) :
    (∃ ds, IsNumeral ds ∧ l.text = ds ∧
      l.value = .integer (Nat.ofDigits 10 (ds.reverse.map Numeral.digit) : Nat)) ∨
    ∃ ds es, IsNumeral ds ∧ IsNumeral es ∧ l.text = ds ++ slash :: es ∧
      l.value = .ratio (Nat.ofDigits 10 (ds.reverse.map Numeral.digit) : Nat)
        (Nat.ofDigits 10 (es.reverse.map Numeral.digit) : Nat) := by
  cases l with
  | integer ds => exact .inl ⟨ds, h, rfl, by rw [← Numeral.value_eq_ofDigits, value]⟩
  | ratio ds es =>
    refine .inr ⟨ds, es, h.1, h.2, rfl, ?_⟩
    rw [← Numeral.value_eq_ofDigits, ← Numeral.value_eq_ofDigits, value]
  | _ => cases hr

end Lexeme

/-- The text of a number without leading zeros is the token of its value. -/
theorem tokenize_display {x : Configuration} {l : Lexeme} (h : l.Formed x) (hs : l.Short)
    (hr : l.rule = .number) (s : Settings) (file? : Option String) :
    (tokenize s file? l.value.display.toList).1 = .ok [⟨.number, l.value, l.value.display,
      ⟨s.fileFor file?, 1, 0⟩⟩] := by
  have hr' : l.trimmed.rule = .number := l.rule_trimmed.trans hr
  have hf : l.trimmed.Formed s.toConfiguration :=
    Lexeme.formed_of_rule (Lexeme.formed_trimmed h) hr' _
  have hlead : (Layout.last []).Leads s.toConfiguration l.trimmed.text := .nil
  have hok := Layout.tokenize_lexeme hlead (fun _ => id) hf (Lexeme.short_trimmed hs) file?
  rw [Lexeme.display_value h hr, ← Lexeme.text_trimmed h hr, String.toList_ofList]
  refine hok.trans ?_
  rw [Lexeme.token, Lexeme.value_trimmed h, Lexeme.kind_of_rule hr']
  rfl

namespace Session

variable {s : Settings} {file? : Option String} {source : List Char} {steps : List Step}

/-- A number token of a session is a number at some place. -/
theorem exists_number_of_delivered {t : Token}
    (h : t ∈ delivered steps ((Session.mk (.start s.lexer file? source) true).run steps))
    (hk : t.kind = .number) : ∃ (l : Lexeme) (location : Location), l.Formed s.toConfiguration ∧
      l.Short ∧ l.rule = .number ∧ t = l.token s.keywords location := by
  obtain ⟨n, hn⟩ := exists_read_of_delivered h
  obtain ⟨c, l, hp, rfl⟩ := Lexer.exists_of_read_token hn
  have hh := Lexer.heads_piece s c.ahead
  rw [hp] at hh
  exact ⟨l, c.location, hh.1, hh.2.1, Lexeme.rule_of_kind hk, rfl⟩

/-- The text of every number token is one numeral or two with a slash between them, and its value
what they write. The value is printed as the text without leading zeros, and under any settings
this is read as one number token of that value. Number tokens, of one session or of two, have equal
values just when they are of the same shape and of the same text but for leading zeros. -/
theorem run_delivers_numbers (s s' : Settings) (file? file?' : Option String)
    (source source' : List Char) (steps steps' : List Step) :
    let session : Session := { scanner := .start s.lexer file? source }
    let session' : Session := { scanner := .start s'.lexer file?' source' }
    ∀ t ∈ delivered steps (session.run steps), t.kind = .number →
      ((∃ ds, IsNumeral ds ∧ t.text.toList = ds ∧
          t.value = .integer (Nat.ofDigits 10 (ds.reverse.map Numeral.digit) : Nat)) ∨
        ∃ ds es, IsNumeral ds ∧ IsNumeral es ∧ t.text.toList = ds ++ slash :: es ∧
          t.value = .ratio (Nat.ofDigits 10 (ds.reverse.map Numeral.digit) : Nat)
            (Nat.ofDigits 10 (es.reverse.map Numeral.digit) : Nat)) ∧
      (tokenize s' file?' t.value.display.toList).1 = .ok [⟨.number, t.value, t.value.display,
        ⟨s'.fileFor file?', 1, 0⟩⟩] ∧
      t.value.display.toList = Numeral.unpadded t.text.toList ∧
      (∀ ds ∈ Text.split slash t.value.display.toList, ds.head? = some '0' → ds = ['0']) ∧
      ∀ u ∈ delivered steps' (session'.run steps'), u.kind = .number →
        (t.value = u.value ↔ t.value.isRatio = u.value.isRatio ∧
          Numeral.unpadded t.text.toList = Numeral.unpadded u.text.toList) := by
  intro session session' t ht hk
  obtain ⟨l, location, hf, hs, hr, rfl⟩ := exists_number_of_delivered ht hk
  have htext : (l.token s.keywords location).text.toList = l.text := String.toList_ofList
  have hdisplay : l.value.display.toList = Numeral.unpadded l.text := by
    rw [Lexeme.display_value hf hr, String.toList_ofList]
  rw [htext]
  refine ⟨Lexeme.number_cases hf hr, tokenize_display hf hs hr s' file?', hdisplay,
    fun ds hds hzero => ?_, fun u hu huk => ?_⟩
  · change ds ∈ Text.split slash l.value.display.toList at hds
    rw [hdisplay, Lexeme.split_unpadded hf hr] at hds
    obtain ⟨es, -, rfl⟩ := List.mem_map.1 hds
    exact Numeral.eq_zero_of_trimmed hzero
  · obtain ⟨m, place, hmf, -, hmr, rfl⟩ := exists_number_of_delivered hu huk
    have hmtext : (m.token s'.keywords place).text.toList = m.text := String.toList_ofList
    rw [hmtext, ← Lexeme.value_eq_iff hf hr hmf hmr]
    exact ⟨fun hv => ⟨congrArg Value.isRatio hv, hv⟩, And.right⟩

/-- A ratio with leading zeros and the same ratio without them. -/
theorem run_delivers_numbers_zeros :
    let source := ['0', '0', '7', '/', '0', '1', '0']
    let source' := ['4', ' ', '7', '/', '1', '0']
    let session : Session := { scanner := .start Settings.standard.lexer none source }
    let session' : Session := { scanner := .start Settings.standard.lexer none source' }
    let padded : Token := ⟨.number, .ratio 7 10, "007/010", ⟨"<input>", 1, 0⟩⟩
    let four : Token := ⟨.number, .integer 4, "4", ⟨"<input>", 1, 0⟩⟩
    let plain : Token := ⟨.number, .ratio 7 10, "7/10", ⟨"<input>", 1, 2⟩⟩
    delivered [.drain] (session.run [.drain]) = [padded] ∧
      delivered [.drain] (session'.run [.drain]) = [four, plain] ∧
      (tokenize .standard none "7/10".toList).1 =
        .ok [⟨.number, .ratio 7 10, "7/10", ⟨"<input>", 1, 0⟩⟩] ∧
      "7/10".toList = Numeral.unpadded "007/010".toList ∧
      Numeral.unpadded "007/010".toList = Numeral.unpadded "7/10".toList := by
  intro source source' session session' padded four plain
  have hpadded : delivered [.drain] (session.run [.drain]) = [padded] := by decide +kernel
  have hplain : delivered [.drain] (session'.run [.drain]) = [four, plain] := by decide +kernel
  have hdisplay : padded.value.display = "7/10" := by decide +kernel
  obtain ⟨-, htokenize, htext, -, hsame⟩ := run_delivers_numbers .standard .standard none none
    source source' [.drain] [.drain] padded (hpadded ▸ List.mem_singleton_self _) rfl
  have hratio := hsame plain (hplain ▸ List.mem_cons_of_mem _ (List.mem_singleton_self _)) rfl
  rw [hdisplay] at htokenize htext
  exact ⟨hpadded, hplain, htokenize, htext, (hratio.1 rfl).2⟩

end Session

end BeatNotation
