import BeatNotation.Proofs.Acceptance
import BeatNotation.Proofs.Sequence
import BeatNotation.Proofs.Spacing
import BeatNotation.Proofs.Viability

/-! What keywords do. No rule asks for them and no piece holds one, so a text is cut alike
whatever words they are: only a name is told by them to be a keyword or an identifier. An
accepted keyword can always be read, and no other kind of lexeme has its text. -/

namespace BeatNotation

open Alphabet

/-! ### Other keywords, another file -/

/-- The kind of a text under other keywords. -/
def Kind.under (keywords : Vocabulary) (text : String) : Kind → Kind
  | keyword | identifier => if text ∈ keywords then keyword else identifier
  | k => k

def Location.inFile (file : String) (l : Location) : Location := { l with file := file }

/-- The token under other keywords and in another file. -/
def Token.under (keywords : Vocabulary) (file : String) (t : Token) : Token :=
  { t with kind := t.kind.under keywords t.text, location := t.location.inFile file }

def Failure.inFile (file : String) (f : Failure) : Failure :=
  { f with location := f.location.inFile file }

def Cursor.inFile (file : String) (c : Cursor) : Cursor := { c with file := file }

theorem Cursor.pass_inFile (file : String) (c : Cursor) (n : Nat) :
    (c.inFile file).pass n = (c.pass n).inFile file := by
  apply pass_map (f := (·.inFile file))
  intro c
  have hpeek : (c.inFile file).peek 0 = c.peek 0 := rfl
  rw [consume, consume, hpeek]
  cases c.peek 0 <;> rfl

theorem Lexeme.kind_name (keywords : Vocabulary) (c : Char) (cs : List Char) :
    (name c cs).kind keywords =
      if String.ofList (c :: cs) ∈ keywords then .keyword else .identifier := rfl

theorem Lexeme.kind_under (keywords others : Vocabulary) (l : Lexeme) :
    (l.kind keywords).under others (String.ofList l.text) = l.kind others := by
  cases l with
  | name c cs =>
    rw [kind_name, kind_name]
    split <;> rfl
  | _ => rfl

theorem Lexeme.token_under (keywords others : Vocabulary) (file : String) (location : Location)
    (l : Lexeme) : (l.token keywords location).under others file =
      l.token others (location.inFile file) := by
  simp only [token, Token.under, kind_under]

namespace Lexer

variable {s t : Settings} {c d : Cursor} {file : String}

/-- Settings with the same sigils cut the same pieces. -/
theorem piece_eq_of_sigils (h : t.sigils = s.sigils) : t.lexer.piece = s.lexer.piece := by
  have haccepts : ∀ c next r, Rule.accepts t.toConfiguration c next r =
      Rule.accepts s.toConfiguration c next r := by
    intro c next r
    cases r <;> simp only [Rule.accepts, h]
  funext text
  cases text with
  | nil => rfl
  | cons c rest =>
    unfold piece rule?
    simp only [haccepts]
    rfl

/-- What is read under other keywords and in another file is the same but for them. -/
theorem read_under (h : t.sigils = s.sigils) (hd : d = c.inFile file) :
    Reply.Alike (fun c d => d = c.inFile file)
      ((s.lexer.read c).map (.map (·.under t.keywords file) (·.inFile file)) id)
      (t.lexer.read d) := by
  subst hd
  have hpiece (c : Cursor) : t.lexer.piece (c.inFile file).ahead = s.lexer.piece c.ahead :=
    congrFun (piece_eq_of_sigils h) c.ahead
  induction c using Lexer.readInduction s.lexer with
  | blank c b hp ih =>
    rw [read_of_blank hp, read_of_blank ((hpiece c).trans hp), Cursor.pass_inFile]
    exact ih
  | comment c b hp ih =>
    obtain ⟨hresult, hremarks, hstate⟩ := ih
    rw [read_of_comment hp, read_of_comment ((hpiece c).trans hp), Cursor.pass_inFile]
    exact ⟨hresult, congrArg (_ :: ·) hremarks, hstate⟩
  | lexeme c l hp =>
    rw [read_of_lexeme hp, read_of_lexeme ((hpiece c).trans hp), Cursor.pass_inFile]
    exact ⟨congrArg Outcome.token (l.token_under _ _ _ _), rfl, rfl⟩
  | fault c f spent hp =>
    rw [read_of_fault hp, read_of_fault ((hpiece c).trans hp), Cursor.pass_inFile]
    exact ⟨rfl, rfl, rfl⟩
  | finish c hp =>
    rw [read_of_finish hp, read_of_finish ((hpiece c).trans hp)]
    exact ⟨rfl, rfl, rfl⟩

end Lexer

/-! ### The texts of keywords -/

namespace Lexeme

variable {s : Settings} {l : Lexeme}

/-- Only a name that begins with a letter has the text of a keyword. -/
theorem eq_name_of_mem_keywords (h : l.Formed s.toConfiguration)
    (hl : String.ofList l.text ∈ s.keywords) : ∃ c cs, l = .name c cs ∧ isLetter c := by
  obtain ⟨c, cs, ht, hc, -⟩ := s.readable_of_mem_keywords hl
  rw [String.toList_ofList] at ht
  have hname : Rule.name.accepts s.toConfiguration c none := by simp [Rule.accepts, hc]
  have hrule : l.rule = .name := Rule.accepts_unique (accepts_of_formed h ht none) hname
  cases l with
  | name a as =>
    obtain ⟨rfl, -⟩ := List.cons.inj ht
    exact ⟨a, as, rfl, hc⟩
  | _ => cases hrule

theorem kind_eq_keyword_iff (h : l.Formed s.toConfiguration) :
    l.kind s.keywords = .keyword ↔ String.ofList l.text ∈ s.keywords := by
  constructor
  · intro hk
    cases l with
    | name c cs =>
      rw [kind_name] at hk
      split at hk
      · assumption
      · cases hk
    | _ => cases hk
  · intro hl
    obtain ⟨c, cs, rfl, -⟩ := eq_name_of_mem_keywords h hl
    exact if_pos hl

end Lexeme

/-- A keyword on its own is read whole, at the start of the text. -/
theorem tokenize_keyword {s : Settings} {word : String} (h : word ∈ s.keywords)
    (file? : Option String) : (tokenize s file? word.toList).1 =
      .ok [⟨.keyword, .text word, word, ⟨s.fileFor file?, 1, 0⟩⟩] := by
  obtain ⟨c, cs, ht, hc, hcs⟩ := s.readable_of_mem_keywords h
  have hword : String.ofList (c :: cs) = word := by rw [← ht, String.ofList_toList]
  have hf : (Lexeme.name c cs).Formed s.toConfiguration :=
    ⟨.inl hc, fun a ha => hcs a (List.mem_cons_of_mem _ ha)⟩
  have hshort : (Lexeme.name c cs).Short := by simp [Lexeme.Short, Lexeme.numerals]
  have hlead : (Layout.last []).Leads s.toConfiguration (c :: cs) := .nil
  have hok := Layout.tokenize_lexeme hlead (fun _ => id) hf hshort file?
  have hkind : (Lexeme.name c cs).kind s.keywords = .keyword := if_pos (hword ▸ h)
  rw [ht]
  refine hok.trans ?_
  simp only [Layout.tokens, Layout.text, List.nil_append, Lexeme.token, hkind, Lexeme.value,
    Lexeme.text, hword]
  rfl

/-- Only the keywords change. -/
theorem Settings.withKeywords_eq_ok_iff {s t : Settings} {words : List String} :
    s.withKeywords (.words words) = .ok t ↔
      t.toConfiguration = { s.toConfiguration with keywords := .ofList words } := by
  show accept _ = .ok t ↔ _
  exact accept_eq_ok_iff

/-- The tokens of a text are made of well-formed lexemes. -/
theorem exists_lexeme_of_tokenize {s : Settings} {file? : Option String} {source : List Char}
    {ts : List Token} (h : (tokenize s file? source).1 = .ok ts) {token : Token} (ht : token ∈ ts) :
    ∃ l : Lexeme, l.Formed s.toConfiguration ∧ token.kind = l.kind s.keywords ∧
      token.text = String.ofList l.text := by
  obtain ⟨d, ⟨hv, -⟩, rfl⟩ := Layout.exists_of_tokenize h
  have hmap := d.map_tokens (fun t => (t.kind, t.text))
    (fun l => (l.kind s.keywords, String.ofList l.text)) s.keywords (fun _ _ => rfl)
    (s.fileFor file?) []
  have hmem := List.mem_map_of_mem (f := fun t : Token => (t.kind, t.text)) ht
  rw [hmap] at hmem
  obtain ⟨l, hl, heq⟩ := List.mem_map.1 hmem
  obtain ⟨hkind, htext⟩ := Prod.mk.inj heq
  exact ⟨l, (Layout.formed_of_valid hv l hl).1, hkind.symm, htext.symm⟩

/-- With other keywords and in another file, a text is cut at the same places, and what is read is
the same: the same failure, or tokens that differ in whether a name is a keyword. It is one just
when it is among the words, and then it has no sigil. Every keyword can be read on its own. -/
theorem tokenize_with_keywords (s t u : Settings) (ks ls : List String)
    (ht : s.withKeywords (.words ks) = .ok t) (hu : s.withKeywords (.words ls) = .ok u)
    (file? file?' : Option String) (source : List Char) :
    let file := s.fileFor file?
    let file' := s.fileFor file?'
    (t.file = s.file ∧ t.sigils = s.sigils ∧ ∀ word, word ∈ t.keywords ↔ word ∈ ks) ∧
    (tokenize u file?' source).1 =
      ((tokenize t file? source).1.map (List.map (·.under u.keywords file'))).mapError
        (·.inFile file') ∧
    (∀ ts, (tokenize t file? source).1 = .ok ts → ∀ token ∈ ts,
      (token.kind = .keyword ↔ token.text ∈ ks) ∧
      (token.kind = .keyword → ∀ g, ∀ c ∈ token.text.toList.head?, c ∉ s.sigils g)) ∧
    ∀ word ∈ ks, (tokenize t file? word.toList).1 =
      .ok [⟨.keyword, .text word, word, ⟨file, 1, 0⟩⟩] := by
  intro file file'
  rw [Settings.withKeywords_eq_ok_iff] at ht hu
  have htfile : t.file = s.file := by rw [ht]
  have hufile : u.file = s.file := by rw [hu]
  have htsigils : t.sigils = s.sigils := by rw [ht]
  have husigils : u.sigils = t.sigils := by rw [hu, htsigils]
  have hwords : ∀ word, word ∈ t.keywords ↔ word ∈ ks := fun word => by
    rw [ht, Vocabulary.mem_ofList]
  refine ⟨⟨htfile, htsigils, hwords⟩, ?_, fun ts hts token htoken => ?_, fun word hword => ?_⟩
  · have hstart : (Scanner.start u.lexer file?' source).cursor =
        (Scanner.start t.lexer file? source).cursor.inFile file' := by
      have hname : u.fileFor file?' = file' := congrFun (Configuration.fileFor_of_file hufile) file?'
      simp only [Scanner.start, hname]
      rfl
    exact congrArg Prod.fst (tokenize_alike (fun _ _ => Lexer.read_under husigils) hstart)
  · obtain ⟨l, hf, hkind, htext⟩ := exists_lexeme_of_tokenize hts htoken
    refine ⟨by rw [hkind, htext, Lexeme.kind_eq_keyword_iff hf, hwords], fun hk g c hc hg => ?_⟩
    rw [hkind, Lexeme.kind_eq_keyword_iff hf] at hk
    obtain ⟨a, as, rfl, ha⟩ := Lexeme.eq_name_of_mem_keywords hf hk
    rw [htext, String.toList_ofList] at hc
    obtain rfl : a = c := Option.some.inj hc
    rw [← htsigils] at hg
    exact Settings.not_mem_reserved hg (by simp_all [reserved, alphanumerics, isLetter])
  · rw [tokenize_keyword ((hwords word).2 hword), Configuration.fileFor_of_file htfile]

/-- A word that is a keyword for one and an identifier for the other. -/
theorem tokenize_with_keywords_verse :
    let t : Settings := ⟨{ keywords := .ofList ["Verse"] }, by decide +kernel⟩
    let u : Settings := ⟨{ keywords := .ofList [] }, by decide +kernel⟩
    Settings.standard.withKeywords (.words ["Verse"]) = .ok t ∧
      Settings.standard.withKeywords (.words []) = .ok u ∧
      (tokenize t none "Verse".toList).1 =
        .ok [⟨.keyword, .text "Verse", "Verse", ⟨"<input>", 1, 0⟩⟩] ∧
      (tokenize u (some "a") "Verse".toList).1 =
        .ok [⟨.identifier, .text "Verse", "Verse", ⟨"a", 1, 0⟩⟩] := by
  intro t u
  have ht : Settings.standard.withKeywords (.words ["Verse"]) = .ok t :=
    Settings.withKeywords_eq_ok_iff.2 rfl
  have hu : Settings.standard.withKeywords (.words []) = .ok u :=
    Settings.withKeywords_eq_ok_iff.2 rfl
  obtain ⟨-, hsame, -, halone⟩ :=
    tokenize_with_keywords .standard t u ["Verse"] [] ht hu none (some "a") "Verse".toList
  have hverse := halone "Verse" (List.mem_singleton_self _)
  refine ⟨ht, hu, hverse, ?_⟩
  rw [hsame, hverse]
  rfl

end BeatNotation
