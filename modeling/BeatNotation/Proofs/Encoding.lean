import Mathlib.Data.List.Forall2
import BeatNotation.Proofs.Acceptance
import BeatNotation.Proofs.Grammar
import BeatNotation.Settings.Environment

/-! Settings encoded in an environment. A list of words may have space around each, blank items
and repeats, and is read as the same words. So an environment that holds the parts of some
settings, those left standard apart, is read as these settings, whatever else it holds. Any
environment is answered as the request is that its variables make. -/

namespace BeatNotation

namespace Text

theorem intercalate_split (separator : Char) (text : List Char) :
    [separator].intercalate (split separator text) = text := by
  induction text with
  | nil => rfl
  | cons c text ih =>
    obtain ⟨piece, others, hs⟩ := List.exists_cons_of_ne_nil (split_ne_nil separator text)
    by_cases hc : c = separator
    · rw [hc, split_cons_separator, hs, List.intercalate_cons_cons, ← hs, ih]
      rfl
    · rw [split_cons_of_ne hc hs]
      rw [hs] at ih
      cases others with
      | nil => simpa using ih
      | cons other others =>
        rw [List.intercalate_cons_cons] at ih ⊢
        rw [List.cons_append, List.cons_append, ih]

/-! ### Trimming -/

theorem dropWhile_all {p : Char → Bool} {run : List Char} (h : ∀ c ∈ run, p c) :
    run.dropWhile p = [] := by
  have hrun := dropWhile_run h (stops_nil p)
  rwa [List.append_nil] at hrun

theorem trim_blank {t : List Char} (h : ∀ c ∈ t, spaces.contains c) : trim t = [] := by
  rw [trim, dropWhile_all h]
  rfl

/-- Space is trimmed off a word up to its first and its last character. -/
theorem trim_word {before word after : List Char} (hb : ∀ c ∈ before, spaces.contains c)
    (ha : ∀ c ∈ after, spaces.contains c) (hw : word ≠ []) (hfirst : Stops spaces.contains word)
    (hlast : Stops spaces.contains word.reverse) : trim (before ++ (word ++ after)) = word := by
  have hstop : Stops spaces.contains (word ++ after) := by
    obtain ⟨c, cs, rfl⟩ := List.exists_cons_of_ne_nil hw
    exact hfirst
  have ha' : ∀ c ∈ after.reverse, spaces.contains c := fun c hc => ha c (List.mem_reverse.1 hc)
  rw [trim, dropWhile_run hb hstop, List.reverse_append, dropWhile_run ha' hlast,
    List.reverse_reverse]

/-- An item of a list: space alone, or a word with space around it. -/
inductive Item : List Char → Option String → Prop
  | blank {t} : (∀ c ∈ t, spaces.contains c) → Item t none
  | word {before word after} : (∀ c ∈ before, spaces.contains c) →
      (∀ c ∈ after, spaces.contains c) → word ≠ [] → Stops spaces.contains word →
      Stops spaces.contains word.reverse →
      Item (before ++ (word ++ after)) (some (String.ofList word))

/-- Every text is such an item, and of one word at the most: what is left when it is trimmed. -/
theorem item_iff {t : List Char} {word? : Option String} :
    Item t word? ↔ word? = if trim t = [] then none else some (String.ofList (trim t)) := by
  constructor
  · rintro (h | ⟨hb, ha, hw, hfirst, hlast⟩)
    · rw [if_pos (trim_blank h)]
    · rw [trim_word hb ha hw hfirst hlast, if_neg hw]
  · rintro rfl
    obtain ⟨before, rest, rfl, hb, hfirst⟩ := exists_run spaces.contains t
    obtain ⟨after, word, hrest, ha, hlast⟩ := exists_run spaces.contains rest.reverse
    obtain rfl : rest = word.reverse ++ after.reverse := by
      rw [← List.reverse_append, ← hrest, List.reverse_reverse]
    have ha' : ∀ c ∈ after.reverse, spaces.contains c := fun c hc => ha c (List.mem_reverse.1 hc)
    by_cases hw : word = []
    · subst hw
      have hblank : ∀ c ∈ before ++ after.reverse, spaces.contains c := by
        intro c hc
        exact (List.mem_append.1 hc).elim (hb c) (ha' c)
      rw [List.reverse_nil, List.nil_append, if_pos (trim_blank hblank)]
      exact .blank hblank
    · have hw' : word.reverse ≠ [] := by simpa using hw
      have hfirst' : Stops spaces.contains word.reverse := by
        obtain ⟨c, cs, hc⟩ := List.exists_cons_of_ne_nil hw'
        rw [hc] at hfirst ⊢
        exact hfirst
      have hlast' : Stops spaces.contains word.reverse.reverse := by rwa [List.reverse_reverse]
      rw [trim_word hb ha' hw' hfirst' hlast', if_neg hw']
      exact .word hb ha' hw' hfirst' hlast'

/-- The text is a list of the words, in this order: items with a comma between any two. -/
def Lists (text : String) (words : List String) : Prop :=
  ∃ items found, items ≠ [] ∧ (∀ i ∈ items, ',' ∉ i) ∧ text.toList = [','].intercalate items ∧
    List.Forall₂ Item items found ∧ words = found.filterMap id

end Text

theorem Field.mem_all (f : Field) : f ∈ Field.all := by
  cases f with
  | keywords => simp [Field.all]
  | sigils g => simp [Field.all, SigilGroup.mem_all]

/-! ### Lists of words -/

namespace Environment

/-- What a list of items is read as. -/
theorem filterMap_of_items {items : List (List Char)} {found : List (Option String)}
    (h : List.Forall₂ Text.Item items found) :
    ((items.map Text.trim).filter (· ≠ [])).map String.ofList = found.filterMap id := by
  induction h with
  | nil => rfl
  | @cons item word? items found hitem _ ih =>
    rw [Text.item_iff.1 hitem]
    by_cases ht : Text.trim item = []
    · simpa [ht] using ih
    · simpa [ht] using ih

theorem lists_iff {text : String} {words : List String} :
    Text.Lists text words ↔ wordsOf text = words := by
  constructor
  · rintro ⟨items, found, hne, hcomma, htext, hitems, rfl⟩
    rw [wordsOf, htext, Text.split_intercalate hne hcomma, filterMap_of_items hitems]
  · rintro rfl
    let items := Text.split ',' text.toList
    let word? := fun i => if Text.trim i = [] then none else some (String.ofList (Text.trim i))
    have hitems : List.Forall₂ Text.Item items (items.map word?) := by
      rw [List.forall₂_map_right_iff, List.forall₂_same]
      exact fun i _ => Text.item_iff.2 rfl
    exact ⟨items, items.map word?, Text.split_ne_nil ',' _,
      fun i => Text.not_mem_of_mem_split, (Text.intercalate_split ',' _).symm, hitems,
      filterMap_of_items hitems⟩

/-! ### What an environment holds -/

/-- The variable is absent or empty. -/
def Unset (e : Environment) (name : String) : Prop := e name = none ∨ e name = some ""

instance (e : Environment) (name : String) : Decidable (e.Unset name) :=
  inferInstanceAs (Decidable (_ ∨ _))

variable {e : Environment} {f : Field} {s : Settings}

theorem value?_eq_none_iff : e.value? f = none ↔ e.Unset f.variableName := by
  cases h : e f.variableName <;> simp [value?, Unset, h]

theorem value?_eq_some_iff {text : String} :
    e.value? f = some text ↔ e f.variableName = some text ∧ text ≠ "" := by
  cases h : e f.variableName with
  | none => simp [value?, h]
  | some t =>
    simp only [value?, h, Option.filter_some, Option.some.injEq]
    split <;> grind

/-- The variables hold the settings: each the sigils of its group, or nothing if these are the
standard ones, and so for the words, in a list of any order with any repeats. -/
structure Encodes (e : Environment) (s : Settings) : Prop where
  file : s.file = standardFile
  keywords : (∃ text words, e Field.keywords.variableName = some text ∧ text ≠ "" ∧
      Text.Lists text words ∧ ∀ word, word ∈ words ↔ word ∈ s.keywords) ∨
    e.Unset Field.keywords.variableName ∧ s.keywords = standardKeywords
  sigils : ∀ g, e (Field.sigils g).variableName = some (String.ofList (s.sigils g)) ∨
    e.Unset (Field.sigils g).variableName ∧ s.sigils g = g.standard

/-- The request asks for what the variables that are set say, and for nothing else. -/
structure Asks (e : Environment) (r : Request) : Prop where
  file : r.file? = none
  keywords : (∃ text words others, e Field.keywords.variableName = some text ∧ text ≠ "" ∧
      Text.Lists text words ∧ (∀ word, word ∈ words ↔ word ∈ others) ∧
      r.keywords? = some (.words others)) ∨
    e.Unset Field.keywords.variableName ∧ r.keywords? = none
  sigils : ∀ g, (∃ text, e (Field.sigils g).variableName = some text ∧ text ≠ "" ∧
      r.sigils? g = some text.toList) ∨
    e.Unset (Field.sigils g).variableName ∧ r.sigils? g = none

/-! ### Requests -/

theorem keywords_of_lists {text : String} {words : List String}
    (he : e Field.keywords.variableName = some text) (hne : text ≠ "")
    (hlist : Text.Lists text words) : e.request.keywords? = some (.words words) := by
  simp [request, value?_eq_some_iff.2 ⟨he, hne⟩, lists_iff.1 hlist]

theorem keywords_of_unset (h : e.Unset Field.keywords.variableName) :
    e.request.keywords? = none := by
  simp [request, value?_eq_none_iff.2 h]

theorem sigils_of_set {g : SigilGroup} {text : String}
    (he : e (Field.sigils g).variableName = some text) (hne : text ≠ "") :
    e.request.sigils? g = some text.toList := by
  simp [request, value?_eq_some_iff.2 ⟨he, hne⟩]

theorem sigils_of_unset {g : SigilGroup} (h : e.Unset (Field.sigils g).variableName) :
    e.request.sigils? g = none := by
  simp [request, value?_eq_none_iff.2 h]

theorem asks_request (e : Environment) : e.Asks e.request where
  file := rfl
  keywords := by
    cases h : e.value? .keywords with
    | none =>
      have hunset := value?_eq_none_iff.1 h
      exact .inr ⟨hunset, keywords_of_unset hunset⟩
    | some text =>
      obtain ⟨he, hne⟩ := value?_eq_some_iff.1 h
      have hlist := lists_iff.2 (Eq.refl (wordsOf text))
      exact .inl ⟨text, _, _, he, hne, hlist, fun _ => Iff.rfl, keywords_of_lists he hne hlist⟩
  sigils g := by
    cases h : e.value? (.sigils g) with
    | none =>
      have hunset := value?_eq_none_iff.1 h
      exact .inr ⟨hunset, sigils_of_unset hunset⟩
    | some text =>
      obtain ⟨he, hne⟩ := value?_eq_some_iff.1 h
      exact .inl ⟨text, he, hne, sigils_of_set he hne⟩

/-- Requests for what the environment holds differ in the order and the repeats of words at most. -/
theorem settings_of_asks {r : Request} (h : e.Asks r) : e.settings.1 = r.settings := by
  show e.request.settings = r.settings
  obtain ⟨file?, keywords?, sigils?⟩ := r
  obtain rfl : file? = none := h.file
  have hsigils : e.request.sigils? = sigils? := by
    funext g
    rcases h.sigils g with ⟨text, he, hne, hr⟩ | ⟨hunset, hr⟩
    · exact (sigils_of_set he hne).trans hr.symm
    · exact (sigils_of_unset hunset).trans hr.symm
  have hrequest : e.request = ⟨none, e.request.keywords?, sigils?⟩ := by
    rw [← hsigils]
    rfl
  rw [hrequest]
  rcases h.keywords with ⟨text, words, others, he, hne, hlist, hsame, hr⟩ | ⟨hunset, hr⟩
  · obtain rfl : keywords? = some (.words others) := hr
    rw [keywords_of_lists he hne hlist, Request.settings_words, Request.settings_words,
      Request.configuration_congr hsame]
  · obtain rfl : keywords? = none := hr
    rw [keywords_of_unset hunset]

/-- Settings that the environment holds are asked for by their own parts. -/
theorem settings_of_encodes (h : e.Encodes s) : e.settings.1 = .ok s := by
  have hsigils : ∀ g, (e.request.sigils? g).getD g.standard = s.sigils g := by
    intro g
    rcases h.sigils g with he | ⟨hunset, hs⟩
    · have hne : String.ofList (s.sigils g) ≠ "" := by
        intro hempty
        have hnil : s.sigils g = [] := by simpa using congrArg String.toList hempty
        exact (Configuration.violation?_eq_none_iff.1 s.accepted).sigils_ne_nil g hnil
      rw [sigils_of_set he hne, Option.getD_some, String.toList_ofList]
    · rw [sigils_of_unset hunset, Option.getD_none, hs]
  have hrequest : e.request = ⟨none, e.request.keywords?, e.request.sigils?⟩ := rfl
  have hsettings : e.request.settings = Settings.accept
      ⟨standardFile, s.keywords, fun g => (e.request.sigils? g).getD g.standard⟩ := by
    rw [hrequest]
    rcases h.keywords with ⟨text, words, he, hne, hlist, hsame⟩ | ⟨hunset, hs⟩
    · have hwords : Vocabulary.ofList words = s.keywords :=
        Vocabulary.ext_mem fun word => Vocabulary.mem_ofList.trans (hsame word)
      rw [keywords_of_lists he hne hlist, ← hwords]
      rfl
    · rw [keywords_of_unset hunset, hs]
      rfl
  show e.request.settings = .ok s
  rw [hsettings, Settings.accept_eq_ok_iff, funext hsigils, ← h.file]

/-! ### Remarks -/

theorem mem_given_iff : f ∈ e.given ↔ ¬ e.Unset f.variableName := by
  rw [given, List.mem_filter, ← value?_eq_none_iff, Option.isSome_iff_ne_none]
  simp [Field.mem_all]

theorem mem_givenLabels_iff {label : String} :
    label ∈ e.givenLabels ↔ ∃ f : Field, ¬ e.Unset f.variableName ∧ f.label = label := by
  show label ∈ Vocabulary.ofList _ ↔ _
  simp [mem_given_iff]

/-- There is one remark, on the fields whose variables are set, unless there is none such. -/
theorem remarks_cases (e : Environment) :
    (∀ f : Field, e.Unset f.variableName) ∧ e.settings.2 = [] ∨
      ∃ labels, e.settings.2 = [.environmentRead labels] ∧ labels ≠ [] ∧
        labels.Pairwise (· < ·) ∧
        ∀ label, label ∈ labels ↔ ∃ f : Field, ¬ e.Unset f.variableName ∧ f.label = label := by
  have hremarks : e.settings.2 = if e.given.isEmpty then [] else [.environmentRead e.givenLabels] :=
    rfl
  by_cases h : e.given = []
  · left
    refine ⟨fun f => ?_, by rw [hremarks, h]; rfl⟩
    by_contra hset
    have hmem := mem_given_iff.2 hset
    simp [h] at hmem
  · right
    refine ⟨e.givenLabels, ?_, fun hnil => ?_, (Vocabulary.ofList _).ascending,
      fun label => mem_givenLabels_iff⟩
    · rw [hremarks, if_neg (by simpa using h)]
    · obtain ⟨f, hf⟩ := List.exists_mem_of_ne_nil _ h
      have hmem := mem_givenLabels_iff.2 ⟨f, mem_given_iff.1 hf, rfl⟩
      simp [hnil] at hmem

/-- Of an environment only the eight variables of the fields count.
If it holds settings, it is read as these; in any case it is answered as a request is that asks
for what it holds, and the fields that it gives are remarked on in order, be they accepted or not. -/
theorem settings_decode (e : Environment) :
    Field.all.map (fun f => (f.variableName, f.label)) =
      [("LOOPNOTES_KEYWORDS", "keywords"), ("LOOPNOTES_IDENTIFIER_SIGILS", "identifier_sigils"),
        ("LOOPNOTES_META_SIGILS", "meta_sigils"), ("LOOPNOTES_SECTION_SIGILS", "section_sigils"),
        ("LOOPNOTES_BEAT_SIGILS", "beat_sigils"), ("LOOPNOTES_CHORD_SIGILS", "chord_sigils"),
        ("LOOPNOTES_SCALE_SIGILS", "scale_sigils"), ("LOOPNOTES_COLOR_SIGILS", "color_sigils")] ∧
    (∀ s, e.Encodes s → e.settings.1 = .ok s) ∧
    (∀ e' : Environment, (∀ f : Field, e' f.variableName = e f.variableName) →
      e'.settings = e.settings) ∧
    ((∃ r, e.Asks r) ∧ ∀ r, e.Asks r → e.settings.1 = r.settings) ∧
    ((∀ f : Field, e.Unset f.variableName) ∧ e.settings.2 = [] ∨
      ∃ labels, e.settings.2 = [.environmentRead labels] ∧ labels ≠ [] ∧
        labels.Pairwise (· < ·) ∧
        ∀ label, label ∈ labels ↔ ∃ f : Field, ¬ e.Unset f.variableName ∧ f.label = label) := by
  refine ⟨by decide +kernel, fun s => settings_of_encodes, fun e' h => ?_,
    ⟨⟨_, e.asks_request⟩, fun r => settings_of_asks⟩, e.remarks_cases⟩
  have hvalues : e'.value? = e.value? := by
    funext f
    rw [value?, value?, h]
  unfold settings request givenLabels given
  rw [hvalues]

/-- Words out of order and repeated, with space, blank items and a variable of no field about. -/
theorem settings_decode_repeats :
    let e : Environment := fun name =>
      if name = "LOOPNOTES_KEYWORDS" then some "Verse, ,\tLoop,Verse\u2003,"
      else if name = "LOOPNOTES_META_SIGILS" then some "!@!"
      else if name = "LOOPNOTES_COLOR_SIGILS" then some ""
      else none
    let e' : Environment := fun name => if name = "LOOPNOTES_SIGILS" then some "1" else e name
    let r : Request :=
      { keywords? := some (.words ["Loop", "Verse", "Loop"])
        sigils? := fun g => if g = .marker .property then some ['!', '@', '!'] else none }
    let s : Settings :=
      ⟨{ keywords := .ofList ["Loop", "Verse"]
         sigils := fun g => if g = .marker .property then ['!', '@', '!'] else g.standard },
        by decide +kernel⟩
    e.Encodes s ∧ e.Asks r ∧ e'.settings = e.settings ∧ r.settings = .ok s ∧
      e.settings = (.ok s, [.environmentRead ["keywords", "meta_sigils"]]) := by
  intro e e' r s
  obtain ⟨-, hsettings, hothers, ⟨-, hasks⟩, -⟩ := settings_decode e
  have hset : e Field.keywords.variableName = some "Verse, ,\tLoop,Verse\u2003," := by
    decide +kernel
  have hlist : Text.Lists "Verse, ,\tLoop,Verse\u2003," ["Verse", "Loop", "Verse"] :=
    lists_iff.2 (by decide +kernel)
  have hwords : ∀ word, word ∈ ["Verse", "Loop", "Verse"] ↔ word ∈ s.keywords := by
    intro word
    show _ ↔ word ∈ Vocabulary.ofList ["Loop", "Verse"]
    grind [Vocabulary.mem_ofList]
  have hencoded : ∀ g ∈ SigilGroup.all,
      e (Field.sigils g).variableName = some (String.ofList (s.sigils g)) ∨
        e.Unset (Field.sigils g).variableName ∧ s.sigils g = g.standard := by
    decide +kernel
  have hasked : ∀ g ∈ SigilGroup.all, g = .marker .property ∨
      e.Unset (Field.sigils g).variableName ∧ r.sigils? g = none := by
    decide +kernel
  have hother : ∀ f ∈ Field.all, e' f.variableName = e f.variableName := by decide +kernel
  have hencodes : e.Encodes s := ⟨rfl, .inl ⟨_, _, hset, by decide, hlist, hwords⟩,
    fun g => hencoded g (SigilGroup.mem_all g)⟩
  have hask : e.Asks r := by
    refine ⟨rfl, .inl ⟨_, _, _, hset, by decide, hlist, by grind, rfl⟩, fun g => ?_⟩
    refine (hasked g (SigilGroup.mem_all g)).imp (fun hg => ?_) id
    subst hg
    exact ⟨"!@!", by decide +kernel, by decide, by decide⟩
  have hresult := hsettings s hencodes
  exact ⟨hencodes, hask, hothers e' fun f => hother f (Field.mem_all f),
    (hasks r hask).symm.trans hresult, Prod.ext hresult (by decide +kernel)⟩

end Environment

end BeatNotation
