import Mathlib.Logic.Equiv.Basic
import BeatNotation.Proofs.Acceptance
import BeatNotation.Proofs.Sequence

/-! Other characters for the sigils. The rules know the reserved characters and those of the
bodies; of any other they ask only whether it is a sigil of some group. So a permutation that
leaves the known characters alone, made in the sigils and in the text, is made in all that is
read, and nothing else changes. -/

namespace BeatNotation

open Alphabet

namespace Alphabet

/-- The characters that the rules know: the reserved ones, and four that stand in bodies. -/
def known : List Char := reserved ++ ['-', '_', '.', '#']

end Alphabet

/-- A permutation of the characters that leaves the known ones alone. -/
structure Renaming where
  perm : Equiv.Perm Char
  fixes : ∀ c ∈ known, perm c = c

instance : CoeFun Renaming fun _ => Char → Char := ⟨fun π => π.perm⟩

namespace Renaming

/-- Two characters that are not known, exchanged. -/
def swap (a b : Char) (ha : a ∉ known) (hb : b ∉ known) : Renaming where
  perm := Equiv.swap a b
  fixes _ hc := Equiv.swap_apply_of_ne_of_ne (ne_of_mem_of_not_mem hc ha)
    (ne_of_mem_of_not_mem hc hb)

variable (π : Renaming) {s t : List Char} {a c : Char}

theorem apply_eq_apply_iff : π a = π c ↔ a = c := π.perm.injective.eq_iff

theorem apply_eq_iff (ha : a ∈ known) : π c = a ↔ c = a := by
  have h : π c = π a ↔ c = a := π.apply_eq_apply_iff
  rwa [π.fixes a ha] at h

theorem mem_map_iff : π c ∈ t.map π ↔ c ∈ t := by
  simp [π.apply_eq_apply_iff]

theorem map_eq_self (h : ∀ c ∈ t, c ∈ known) : t.map π = t := by
  rw [List.map_congr_left fun c hc => π.fixes c (h c hc), List.map_id']

theorem map_eq_self_of_isAlphanumeric (h : ∀ c ∈ t, isAlphanumeric c) : t.map π = t := by
  apply π.map_eq_self
  intro c hc
  have halpha : c ∈ alphanumerics := of_decide_eq_true (h c hc)
  simp [known, reserved, halpha]

/-- A set of known characters has the same members under other names. -/
theorem mem_iff (h : ∀ c ∈ s, c ∈ known) : π c ∈ s ↔ c ∈ s := by
  have hmem : π c ∈ s.map π ↔ c ∈ s := π.mem_map_iff
  rwa [π.map_eq_self h] at hmem

theorem decide_mem (h : ∀ c ∈ s, c ∈ known) : decide (π c ∈ s) = decide (c ∈ s) :=
  decide_eq_decide.2 (π.mem_iff h)

theorem isLetter_apply (c : Char) : isLetter (π c) = isLetter c :=
  π.decide_mem fun a ha => by simp [known, reserved, alphanumerics, ha]

theorem isDigit_apply (c : Char) : isDigit (π c) = isDigit c :=
  π.decide_mem fun a ha => by simp [known, reserved, alphanumerics, ha]

theorem isAlphanumeric_apply (c : Char) : isAlphanumeric (π c) = isAlphanumeric c :=
  π.decide_mem fun a ha => by simp [known, reserved, ha]

theorem isBlank_apply (c : Char) : isBlank (π c) = isBlank c :=
  π.decide_mem fun a ha => by simp [known, reserved, ha]

theorem mem_body_apply (k : MarkerKind) (c : Char) :
    decide (π c ∈ k.body) = decide (c ∈ k.body) := by
  have hletters : 'x' ∈ alphanumerics ∧ 'X' ∈ alphanumerics := by decide
  apply π.decide_mem
  intro a ha
  cases k <;> simp only [MarkerKind.body, known, reserved] at ha ⊢ <;> grind

theorem takeWhile_map {p : Char → Bool} (hp : ∀ c, p (π c) = p c) (t : List Char) :
    (t.map π).takeWhile p = (t.takeWhile p).map π := by
  have hcomp : p ∘ π = p := funext hp
  rw [List.takeWhile_map, hcomp]

theorem dropWhile_map {p : Char → Bool} (hp : ∀ c, p (π c) = p c) (t : List Char) :
    (t.map π).dropWhile p = (t.dropWhile p).map π := by
  have hcomp : p ∘ π = p := funext hp
  rw [List.dropWhile_map, hcomp]

/-- Lines end at the same places. -/
theorem takeWhile_ne_newline (t : List Char) :
    (t.map π).takeWhile (· ≠ '\n') = (t.takeWhile (· ≠ '\n')).map π := by
  apply π.takeWhile_map
  intro c
  rw [decide_eq_decide, not_iff_not]
  exact π.apply_eq_iff (by decide)

/-- The text with every character renamed. -/
def text (s : String) : String := String.ofList (s.toList.map π)

theorem text_ofList (t : List Char) : π.text (String.ofList t) = String.ofList (t.map π) := by
  rw [text, String.toList_ofList]

end Renaming

variable (π : Renaming)

/-! ### Configurations -/

/-- The configuration with its sigils renamed. -/
def Configuration.renamed (x : Configuration) : Configuration :=
  { x with sigils := fun g => (x.sigils g).map π }

def Violation.renamed : Violation → Violation
  | reservedSigil g c => reservedSigil g (π c)
  | sharedSigil c owner g => sharedSigil (π c) owner g
  | v => v

namespace Configuration

variable (x : Configuration)

theorem sigilViolation?_renamed (g : SigilGroup) (c : Char) :
    (x.renamed π).sigilViolation? g (π c) = (x.sigilViolation? g c).map (·.renamed π) := by
  have hreserved : π c ∈ reserved ↔ c ∈ reserved :=
    π.mem_iff fun c hc => List.mem_append_left _ hc
  by_cases hc : c ∈ reserved
  · rw [sigilViolation?, if_pos (hreserved.2 hc), sigilViolation?, if_pos hc]
    rfl
  · rw [sigilViolation?, if_neg (mt hreserved.1 hc), sigilViolation?, if_neg hc]
    simp only [renamed, π.mem_map_iff, Option.map_map]
    rfl

theorem groupViolation?_renamed (g : SigilGroup) :
    (x.renamed π).groupViolation? g = (x.groupViolation? g).map (·.renamed π) := by
  have hsigils : (x.renamed π).sigils g = (x.sigils g).map π := rfl
  rw [groupViolation?, groupViolation?, hsigils, List.isEmpty_map]
  split
  · rfl
  · rw [List.findSome?_map, List.map_findSome?]
    congr 1
    funext c
    exact sigilViolation?_renamed π x g c

/-- A renamed configuration is refused for the renamed reason, if for any. -/
theorem violation?_renamed : (x.renamed π).violation? = x.violation?.map (·.renamed π) := by
  have hgroups : (x.renamed π).groupViolation? = Option.map (·.renamed π) ∘ x.groupViolation? :=
    funext fun g => groupViolation?_renamed π x g
  have hkeywords : (x.renamed π).keywordViolation? =
      x.keywordViolation?.map (·.renamed π) := by
    show x.keywordViolation? = _
    unfold keywordViolation?
    rw [Option.map_map]
    rfl
  rw [violation?_eq, hgroups, hkeywords, ← List.map_findSome?, ← Option.map_or, violation?_eq]

end Configuration

/-- Accepted settings stay accepted. -/
def Settings.renamed (s : Settings) : Settings :=
  ⟨s.toConfiguration.renamed π, by rw [Configuration.violation?_renamed, s.accepted]; rfl⟩

/-! ### Rules -/

def Lexeme.renamed : Lexeme → Lexeme
  | name c cs => name (π c) (cs.map π)
  | marker k c cs => marker k (π c) (cs.map π)
  | punctuation c => punctuation (π c)
  | operator c => operator (π c)
  | integer ds => integer (ds.map π)
  | ratio ds es => ratio (ds.map π) (es.map π)

def Fault.renamed : Fault → Fault
  | unexpectedCharacter c => unexpectedCharacter (π c)
  | f => f

def Reading.renamed : Reading → Reading
  | lexeme l => lexeme (l.renamed π)
  | skipped t => skipped (t.map π)
  | fault f spent => fault (f.renamed π) (spent.map π)

def Piece.renamed : Piece → Piece
  | blank t => blank (t.map π)
  | comment t => comment (t.map π)
  | lexeme l => lexeme (l.renamed π)
  | fault f spent => fault (f.renamed π) (spent.map π)
  | finish => finish

theorem Lexeme.text_renamed (l : Lexeme) : (l.renamed π).text = l.text.map π := by
  have hslash : π slash = slash := π.fixes slash (by decide)
  cases l <;> simp [renamed, text, hslash]

theorem Lexeme.excess?_renamed (l : Lexeme) : (l.renamed π).excess? = l.excess? := by
  cases l <;> simp [renamed, excess?, Numeral.excess?]

namespace Rule

variable (x : Configuration) (c : Char) (rest : List Char)

theorem accepts_renamed (next : Option Char) (r : Rule) :
    r.accepts (x.renamed π) (π c) (next.map π) = r.accepts x c next := by
  have hslash : π c = slash ↔ c = slash := π.apply_eq_iff (by decide)
  cases r with
  | comment =>
    cases next with
    | none => simp [accepts]
    | some a =>
      have hnext : π a = slash ↔ a = slash := π.apply_eq_iff (by decide)
      simp [accepts, hslash, hnext]
  | name => simp only [accepts, Configuration.renamed, π.isLetter_apply, π.mem_map_iff]
  | marker k => simp only [accepts, Configuration.renamed, π.mem_map_iff]
  | punctuation => exact π.decide_mem fun a ha => by simp [known, reserved, ha]
  | operator => exact π.decide_mem fun a ha => by simp [known, reserved, ha]
  | number =>
    cases next with
    | none => simp [accepts, π.isDigit_apply]
    | some a => simp [accepts, π.isDigit_apply, hslash]

theorem convert_renamed (l : Lexeme) : convert (l.renamed π) = (convert l).renamed π := by
  rw [convert, convert, l.excess?_renamed]
  split
  · rfl
  · rw [l.text_renamed]
    rfl

theorem readNumber_renamed (t : List Char) :
    readNumber (t.map π) = (readNumber t).renamed π := by
  unfold readNumber
  rw [π.takeWhile_map π.isDigit_apply, π.dropWhile_map π.isDigit_apply]
  cases t.takeWhile isDigit with
  | nil => rfl
  | cons d ds =>
    cases t.dropWhile isDigit with
    | nil => exact convert_renamed π (.integer (d :: ds))
    | cons a rest =>
      by_cases ha : a = '/'
      · subst ha
        have hslash : π '/' = '/' := π.fixes '/' (by decide)
        simp only [List.map_cons, hslash, π.takeWhile_map π.isDigit_apply]
        cases rest.takeWhile isDigit with
        | nil =>
          have hspent : d :: ds ++ [slash] = d :: ds ++ ['/'] := rfl
          simp only [List.map_nil, hspent, Reading.renamed, Fault.renamed, List.map_append,
            List.map_cons, hslash]
          rfl
        | cons e es => exact convert_renamed π (.ratio (d :: ds) (e :: es))
      -- No other character is taken for a slash, and none turns into one.
      · have hrenamed : π a ≠ '/' := mt (π.apply_eq_iff (by decide)).1 ha
        simp only [List.map_cons]
        split
        · next h => cases h
        · next h _ => exact absurd (List.cons.inj h).1 hrenamed
        · split
          · next h => cases h
          · next h _ => exact absurd (List.cons.inj h).1 ha
          · exact convert_renamed π (.integer (d :: ds))

/-- A reader takes the renamed lexeme off the renamed text. -/
theorem read_renamed (r : Rule) : r.read (π c) (rest.map π) = (r.read c rest).renamed π := by
  cases r with
  | comment =>
    show Reading.skipped (((c :: rest).map π).takeWhile (· ≠ '\n')) = _
    rw [π.takeWhile_ne_newline]
    rfl
  | name =>
    simp only [read, π.takeWhile_map π.isAlphanumeric_apply]
    rfl
  | marker k =>
    have hbody := π.takeWhile_map (p := fun a => decide (a ∈ k.body)) (π.mem_body_apply k) rest
    simp only [read, hbody]
    rfl
  | punctuation => rfl
  | operator => rfl
  | number => exact readNumber_renamed π (c :: rest)

end Rule

theorem Piece.ofReading_renamed (r : Rule) (reading : Reading) :
    ofReading r (reading.renamed π) = (ofReading r reading).renamed π := by
  cases reading with
  | lexeme l =>
    simp only [Reading.renamed, ofReading, l.text_renamed, List.isEmpty_map]
    split <;> rfl
  | skipped t =>
    simp only [Reading.renamed, ofReading, List.isEmpty_map]
    split <;> rfl
  | fault f spent => rfl

/-- Renamed settings cut the renamed piece off the renamed text. -/
theorem Lexer.piece_renamed (s : Settings) (t : List Char) :
    (s.renamed π).lexer.piece (t.map π) = (s.lexer.piece t).renamed π := by
  cases t with
  | nil => rfl
  | cons c rest =>
    rw [List.map_cons, piece, piece, π.isBlank_apply]
    split
    · rw [π.takeWhile_map π.isBlank_apply]
      rfl
    · have hrule : (s.renamed π).lexer.rule? (π c) (rest.map π).head? =
          s.lexer.rule? c rest.head? := by
        rw [List.head?_map]
        unfold rule?
        congr 1
        funext r
        exact Rule.accepts_renamed π s.toConfiguration c rest.head? r
      rw [hrule]
      split
      · rfl
      · next r _ =>
        show Piece.ofReading r (r.read (π c) (rest.map π)) = _
        rw [Rule.read_renamed, Piece.ofReading_renamed]
        rfl

/-! ### What is read -/

def Value.renamed : Value → Value
  | text s => text (π.text s)
  | v => v

/-- The token with its text renamed; a number stays the same. -/
def Token.renamed (t : Token) : Token :=
  { t with value := t.value.renamed π, text := π.text t.text }

def Failure.renamed (f : Failure) : Failure :=
  { f with fault := f.fault.renamed π, sourceLine := f.sourceLine.map π }

def Remark.renamed : Remark → Remark
  | skippedComment start t => skippedComment start (t.map π)
  | r => r

/-- The cursor at the same place of the renamed text. -/
def Cursor.renamed (c : Cursor) : Cursor := { c with source := c.source.map π }

/-- The same words, but for the line and the character they are about. -/
def Diagnostic.renamed (d : Diagnostic) : Diagnostic :=
  { d with
    message := (d.char?.map fun c => s!"invalid character: {π.text c}").getD d.message
    sourceLine? := d.sourceLine?.map π.text
    char? := d.char?.map π.text }

theorem Failure.diagnostic?_renamed (f : Failure) :
    (f.renamed π).diagnostic? = f.diagnostic?.map (·.renamed π) := by
  obtain ⟨f, location, line⟩ := f
  have hline : String.ofList (line.map π) = π.text (String.ofList line) := (π.text_ofList line).symm
  have hchar : ∀ c : Char, (π c).toString = π.text c.toString := fun c => (π.text_ofList [c]).symm
  cases f <;> simp only [diagnostic?, renamed, hline]
  case unexpectedCharacter c =>
    have hmessage : Fault.message (.unexpectedCharacter (π c)) =
        s!"invalid character: {π.text c.toString}" := by rw [← hchar]; rfl
    simp only [Fault.renamed, message, hmessage, Fault.char?, hchar]
    rfl
  all_goals rfl

namespace Cursor

theorem ahead_renamed (c : Cursor) : (c.renamed π).ahead = c.ahead.map π := List.map_drop.symm

theorem pass_renamed (c : Cursor) (n : Nat) : (c.renamed π).pass n = (c.pass n).renamed π := by
  have hnewline : ∀ a, π a = '\n' ↔ a = '\n' := fun a => π.apply_eq_iff (by decide)
  apply pass_map (f := (·.renamed π))
  intro c
  have hahead := ahead_renamed π c
  cases h : c.ahead with
  | nil =>
    rw [h] at hahead
    rw [consume_of_nil h, consume_of_nil hahead]
  | cons a rest =>
    rw [h] at hahead
    rw [consume_of_cons h, consume_of_cons hahead]
    simp only [renamed, Position.after, hnewline]

theorem currentLine_renamed (c : Cursor) : (c.renamed π).currentLine = c.currentLine.map π := by
  rw [currentLine, renamed, ← List.map_drop, π.takeWhile_ne_newline, currentLine]

theorem fail_renamed (c : Cursor) (f : Fault) :
    (c.renamed π).fail (f.renamed π) = (c.fail f).renamed π := by
  rw [fail, currentLine_renamed]
  rfl

end Cursor

variable {s : Settings}

/-- A keyword is made of known characters, and no other text becomes one. -/
theorem Settings.mem_keywords_renamed (t : List Char) :
    String.ofList (t.map π) ∈ s.keywords ↔ String.ofList t ∈ s.keywords := by
  have hword : ∀ u, String.ofList u ∈ s.keywords → ∀ c ∈ u, isAlphanumeric c := by
    intro u hu
    obtain ⟨c, cs, hcs, -, hall⟩ := s.readable_of_mem_keywords hu
    rw [String.toList_ofList] at hcs
    rwa [hcs]
  constructor
  · intro h
    have ht : ∀ c ∈ t, isAlphanumeric c := fun c hc =>
      π.isAlphanumeric_apply c ▸ hword _ h (π c) (List.mem_map_of_mem hc)
    rwa [π.map_eq_self_of_isAlphanumeric ht] at h
  · intro h
    rwa [π.map_eq_self_of_isAlphanumeric (hword t h)]

namespace Lexeme

variable {l : Lexeme}

theorem kind_renamed (l : Lexeme) : (l.renamed π).kind s.keywords = l.kind s.keywords := by
  cases l with
  | name c cs =>
    have hmem := s.mem_keywords_renamed π (c :: cs)
    simp only [renamed, kind]
    rw [← List.map_cons, if_congr hmem rfl rfl]
  | _ => rfl

theorem value_renamed (h : l.Formed s.toConfiguration) :
    (l.renamed π).value = l.value.renamed π := by
  have hdigits : ∀ ds : List Char, (∀ c ∈ ds, isDigit c) → ds.map π = ds := fun ds hds =>
    π.map_eq_self_of_isAlphanumeric fun c hc => (isAlphanumeric_iff c).2 (.inr (hds c hc))
  -- Without its being well formed, a renamed numeral need not write the same number.
  cases l with
  | integer ds => simp only [renamed, value, hdigits ds h.2, Value.renamed]
  | ratio ds es => simp only [renamed, value, hdigits ds h.1.2, hdigits es h.2.2, Value.renamed]
  | _ =>
    simp only [value, Value.renamed, π.text_ofList, ← text_renamed]
    rfl

theorem token_renamed (h : l.Formed s.toConfiguration) (location : Location) :
    (l.renamed π).token s.keywords location = (l.token s.keywords location).renamed π := by
  simp only [token, Token.renamed, kind_renamed, value_renamed π h, text_renamed, π.text_ofList]

end Lexeme

/-- A read of the renamed text under renamed settings comes to the renamed outcome. -/
theorem Lexer.read_renamed {c d : Cursor} (hd : d = c.renamed π) :
    Reply.Alike (fun c d => d = c.renamed π)
      ((s.lexer.read c).map (.map (·.renamed π) (·.renamed π)) (·.renamed π))
      ((s.renamed π).lexer.read d) := by
  subst hd
  have hpiece {c : Cursor} {p : Piece} (hp : s.lexer.piece c.ahead = p) :
      (s.renamed π).lexer.piece (c.renamed π).ahead = p.renamed π := by
    rw [← hp, Cursor.ahead_renamed]
    exact piece_renamed π s c.ahead
  induction c using Lexer.readInduction s.lexer with
  | blank c b hp ih =>
    rw [read_of_blank hp, read_of_blank (hpiece hp), List.length_map, Cursor.pass_renamed]
    exact ih
  | comment c b hp ih =>
    obtain ⟨hresult, hremarks, hstate⟩ := ih
    rw [read_of_comment hp, read_of_comment (hpiece hp), List.length_map, Cursor.pass_renamed]
    exact ⟨hresult, congrArg (_ :: ·) hremarks, hstate⟩
  | lexeme c l hp =>
    have hl : l.Formed s.toConfiguration := by
      have h := heads_piece s c.ahead
      rw [hp] at h
      exact h.1
    rw [read_of_lexeme hp, read_of_lexeme (hpiece hp), Lexeme.text_renamed, List.length_map,
      Cursor.pass_renamed]
    exact ⟨congrArg Outcome.token (Lexeme.token_renamed π hl c.location).symm, rfl, rfl⟩
  | fault c f spent hp =>
    rw [read_of_fault hp, read_of_fault (hpiece hp), List.length_map, Cursor.pass_renamed,
      Cursor.fail_renamed]
    exact ⟨rfl, rfl, rfl⟩
  | finish c hp =>
    rw [read_of_finish hp, read_of_finish (hpiece hp)]
    exact ⟨rfl, rfl, rfl⟩

/-- Sigils are interchangeable: the renamed configuration is accepted just when the configuration
is, and what it reads in the renamed text is what the other reads, renamed, and at the same places.
Failures are told of in the same words, but for the line and the character. -/
theorem tokenize_renamed (π : Renaming) :
    (∀ x : Configuration,
      (∃ t, Settings.accept (x.renamed π) = .ok t) ↔ ∃ s, Settings.accept x = .ok s) ∧
    (∀ (s : Settings) (file? : Option String) (source : List Char),
      let plain := Scanner.start s.lexer file? source
      let other := Scanner.start (s.renamed π).lexer file? (source.map π)
      (∀ n, (other.nexts n).result =
          (plain.nexts n).result.map (.map (·.renamed π) (·.renamed π)) ∧
        (other.nexts n).remarks = (plain.nexts n).remarks.map (·.renamed π) ∧
        (other.nexts n).state.cursor = (plain.nexts n).state.cursor.renamed π) ∧
      tokenize (s.renamed π) file? (source.map π) =
        (((tokenize s file? source).1.map (List.map (·.renamed π))).mapError (·.renamed π),
          (tokenize s file? source).2.map (·.renamed π))) ∧
    ∀ f : Failure, (f.renamed π).diagnostic? = f.diagnostic?.map (·.renamed π) := by
  refine ⟨fun x => ?_, fun s file? source => ?_, Failure.diagnostic?_renamed π⟩
  · rw [Settings.exists_accept_iff, Settings.exists_accept_iff, Configuration.violation?_renamed,
      Option.map_eq_none_iff]
  · intro plain other
    have hstart : other.cursor = plain.cursor.renamed π := rfl
    refine ⟨fun n => ?_, tokenize_alike (fun _ _ => Lexer.read_renamed π) hstart⟩
    obtain ⟨hresult, hremarks, hstate⟩ := Lexer.reads_alike (fun _ => True)
      (fun c d h _ => Lexer.read_renamed π h) hstart (n := n) fun _ _ => trivial
    have hplain := Scanner.nexts_eq_reads s.lexer plain.cursor n
    have hother := Scanner.nexts_eq_reads (s.renamed π).lexer other.cursor n
    change plain.nexts n = _ at hplain
    change other.nexts n = _ at hother
    rw [hplain, hother]
    exact ⟨hresult.symm, hremarks.symm, hstate⟩

/-- An exclamation mark in the place of the at sign, which then opens nothing. -/
theorem tokenize_renamed_swap :
    let π := Renaming.swap '@' '!' (by decide) (by decide)
    (∃ t, Settings.accept (Configuration.renamed π {}) = .ok t) ∧
      ((Scanner.start (Settings.standard.renamed π).lexer none ['!', 'a', ' ', '@']).nexts 2).result =
        [.token ⟨.marker .property, .text "!a", "!a", ⟨standardFile, 1, 0⟩⟩,
          .failure ⟨.unexpectedCharacter '@', ⟨standardFile, 1, 3⟩, ['!', 'a', ' ', '@']⟩] := by
  intro π
  obtain ⟨haccept, hread, -⟩ := tokenize_renamed π
  refine ⟨(haccept {}).2 ⟨.standard, Settings.accept_eq_ok_iff.2 rfl⟩, ?_⟩
  have hresult := ((hread .standard none ['@', 'a', ' ', '!']).1 2).1
  exact hresult.trans (by decide +kernel)

end BeatNotation
