import BeatNotation.Proofs.Dispatch
import BeatNotation.Settings.Request

/-! Which configurations are accepted, and what is said of the others. The sigils are scanned
group by group and, within a group, from its front. A violation is found at one place of this
scan, and the one reported is the violation at the least place. Bad keywords come after. -/

namespace BeatNotation

open Alphabet

/-! ### Places in the scan of the sigils -/

/-- A place in the scan: a group, and how many of its sigils come before. -/
structure SigilPlace where
  group : SigilGroup
  index : Nat

/-- The place is in an earlier group, or further to the front of the same one. -/
def SigilPlace.Before (p q : SigilPlace) : Prop :=
  p.group ∈ q.group.earlier ∨ p.group = q.group ∧ p.index < q.index

theorem SigilPlace.before_or_before {p q : SigilPlace} (h : p ≠ q) : p.Before q ∨ q.Before p := by
  obtain ⟨g, i⟩ := p
  obtain ⟨k, j⟩ := q
  by_cases hgk : g = k
  · subst hgk
    have hij : i ≠ j := fun e => h (by rw [e])
    rcases Nat.lt_or_gt_of_ne hij with hlt | hlt
    · exact .inl (.inr ⟨rfl, hlt⟩)
    · exact .inr (.inr ⟨rfl, hlt⟩)
  · exact (mem_takeWhile_ne_or (SigilGroup.mem_all g) (SigilGroup.mem_all k) hgk).imp .inl .inl

/-- A word of letters and digits that begins with a letter. -/
def Readable (word : String) : Prop :=
  ∃ c cs, word.toList = c :: cs ∧ isLetter c ∧ ∀ a ∈ c :: cs, isAlphanumeric a

theorem isWord_iff (word : String) : isWord word ↔ Readable word := by
  unfold isWord Readable
  cases word.toList with
  | nil => simp
  | cons c cs =>
    simp only [Bool.and_eq_true, List.all_eq_true, List.cons.injEq, List.mem_cons]
    constructor
    · rintro ⟨hc, hcs⟩
      refine ⟨c, cs, ⟨rfl, rfl⟩, hc, ?_⟩
      rintro a (rfl | ha)
      · exact (isAlphanumeric_iff a).2 (.inl hc)
      · exact hcs a ha
    · rintro ⟨_, _, ⟨rfl, rfl⟩, hc, hcs⟩
      exact ⟨hc, fun a ha => hcs a (.inr ha)⟩

/-! ### Violations -/

namespace Configuration

/-- Every group has sigils, none of them is reserved or in two groups, and every keyword can be
read as a word. -/
structure WellFormed (x : Configuration) : Prop where
  sigils_ne_nil : ∀ g, x.sigils g ≠ []
  not_reserved : ∀ g, ∀ c ∈ x.sigils g, c ∉ reserved
  group_unique : ∀ g h c, c ∈ x.sigils g → c ∈ x.sigils h → g = h
  readable : ∀ word ∈ x.keywords, Readable word

/-- What the scan finds at a place. A group without sigils is found on entering it; a sigil that
is both reserved and shared counts as reserved. -/
inductive Breaks (x : Configuration) : SigilPlace → Violation → Prop
  | noSigil {g : SigilGroup} : x.sigils g = [] → x.Breaks ⟨g, 0⟩ (.noSigil g)
  | reservedSigil {g : SigilGroup} {i : Nat} {c : Char} : (x.sigils g)[i]? = some c →
      c ∈ reserved → x.Breaks ⟨g, i⟩ (.reservedSigil g c)
  | sharedSigil {g owner : SigilGroup} {i : Nat} {c : Char} : (x.sigils g)[i]? = some c →
      c ∉ reserved → owner ∈ g.earlier → c ∈ x.sigils owner →
      x.Breaks ⟨g, i⟩ (.sharedSigil c owner g)

/-- The violation is found at the least of all places with one, and is the only one there. -/
def FirstViolation (x : Configuration) (v : Violation) : Prop :=
  ∃ p, x.Breaks p v ∧ (∀ w, x.Breaks p w → w = v) ∧ ∀ q w, x.Breaks q w → ¬ q.Before p

variable {x : Configuration} {g : SigilGroup} {i : Nat} {c : Char} {v w : Violation}

theorem FirstViolation.unique (hv : x.FirstViolation v) (hw : x.FirstViolation w) : v = w := by
  obtain ⟨p, hp, hpv, hleast⟩ := hv
  obtain ⟨q, hq, -, hleast'⟩ := hw
  by_cases hpq : p = q
  · subst hpq
    exact (hpv w hq).symm
  · rcases SigilPlace.before_or_before hpq with hb | hb
    · exact absurd hb (hleast' p v hp)
    · exact absurd hb (hleast q w hq)

/-- Where nothing is found before a place, a sigil there has one earlier owner at the most. -/
theorem Breaks.unique {p : SigilPlace} (hv : x.Breaks p v) (hw : x.Breaks p w)
    (hleast : ∀ q u, x.Breaks q u → ¬ q.Before p) : w = v := by
  cases hv with
  | @noSigil g hg =>
    cases hw with
    | noSigil => rfl
    | reservedSigil hi => simp [hg] at hi
    | sharedSigil hi => simp [hg] at hi
  | @reservedSigil g i c hi hr =>
    cases hw with
    | noSigil hg => simp [hg] at hi
    | reservedSigil hi' => rw [Option.some.inj (hi'.symm.trans hi)]
    | sharedSigil hi' hr' => exact absurd (Option.some.inj (hi.symm.trans hi') ▸ hr) hr'
  | @sharedSigil g owner i c hi hr he ho =>
    cases hw with
    | noSigil hg => simp [hg] at hi
    | reservedSigil hi' hr' => exact absurd (Option.some.inj (hi'.symm.trans hi) ▸ hr') hr
    | @sharedSigil _ owner' _ c' hi' _ he' ho' =>
      obtain rfl : c' = c := Option.some.inj (hi'.symm.trans hi)
      -- Of two owners, the later one would share the sigil with the other.
      have apart : ∀ k l, l ∈ g.earlier → c' ∈ x.sigils k → c' ∈ x.sigils l → k ∉ l.earlier := by
        intro k l hl hk hcl hkl
        obtain ⟨j, hj⟩ := List.mem_iff_getElem?.1 hcl
        exact hleast ⟨l, j⟩ _ (.sharedSigil hj hr hkl hk) (.inl hl)
      by_cases hne : owner = owner'
      · rw [hne]
      · rcases mem_takeWhile_ne_or (SigilGroup.mem_all owner) (SigilGroup.mem_all owner') hne
          with h | h
        · exact absurd h (apart owner owner' he' ho ho')
        · exact absurd h (apart owner' owner he ho' ho)

/-! ### One sigil and one group -/

theorem breaks_of_sigilViolation? (hi : (x.sigils g)[i]? = some c)
    (h : x.sigilViolation? g c = some v) : x.Breaks ⟨g, i⟩ v := by
  unfold sigilViolation? at h
  split at h
  · next hr =>
    obtain rfl := Option.some.inj h
    exact .reservedSigil hi hr
  · next hr =>
    obtain ⟨owner, ho, rfl⟩ := Option.map_eq_some_iff.1 h
    exact .sharedSigil hi hr (List.mem_of_find?_eq_some ho) (by simpa using List.find?_some ho)

theorem not_breaks_of_sigilViolation? (hi : (x.sigils g)[i]? = some c)
    (h : x.sigilViolation? g c = none) (v : Violation) : ¬ x.Breaks ⟨g, i⟩ v := by
  unfold sigilViolation? at h
  split at h
  · cases h
  · next hr =>
    rw [Option.map_eq_none_iff, List.find?_eq_none] at h
    rintro (hg | ⟨hi', hr'⟩ | ⟨hi', -, he, ho⟩)
    · simp [hg] at hi
    · exact hr (Option.some.inj (hi.symm.trans hi') ▸ hr')
    · rw [← Option.some.inj (hi.symm.trans hi')] at ho
      exact h _ he (by simpa using ho)

theorem not_breaks_of_groupViolation? (h : x.groupViolation? g = none) (i : Nat) (v : Violation) :
    ¬ x.Breaks ⟨g, i⟩ v := by
  unfold groupViolation? at h
  split at h
  · cases h
  · next hg =>
    intro hv
    cases hi : (x.sigils g)[i]? with
    | none => cases hv <;> simp_all
    | some c =>
      have hc := List.findSome?_eq_none_iff.1 h c (List.mem_of_getElem? hi)
      exact not_breaks_of_sigilViolation? hi hc v hv

/-- The violation of a group is found at its front-most place with one. -/
theorem exists_of_groupViolation? (h : x.groupViolation? g = some v) :
    ∃ i, x.Breaks ⟨g, i⟩ v ∧ ∀ j < i, ∀ w, ¬ x.Breaks ⟨g, j⟩ w := by
  unfold groupViolation? at h
  split at h
  · next hg =>
    obtain rfl := Option.some.inj h
    exact ⟨0, .noSigil (by simpa using hg), fun j hj => absurd hj j.not_lt_zero⟩
  · obtain ⟨front, c, back, hsigils, hc, hfront⟩ := List.findSome?_eq_some_iff.1 h
    have hi : (x.sigils g)[front.length]? = some c := by
      rw [hsigils, List.getElem?_append_right (Nat.le_refl _), Nat.sub_self, List.getElem?_cons_zero]
    refine ⟨front.length, breaks_of_sigilViolation? hi hc, fun j hj => ?_⟩
    have hj' : (x.sigils g)[j]? = some front[j] := by
      rw [hsigils, List.getElem?_append_left hj, List.getElem?_eq_getElem hj]
    exact not_breaks_of_sigilViolation? hj' (hfront _ (List.getElem_mem hj))

/-! ### The whole scan -/

theorem findSome?_groupViolation?_eq_none_iff :
    SigilGroup.all.findSome? x.groupViolation? = none ↔ ∀ p w, ¬ x.Breaks p w := by
  rw [List.findSome?_eq_none_iff]
  constructor
  · intro h p
    exact not_breaks_of_groupViolation? (h p.group (SigilGroup.mem_all _)) p.index
  · intro h g _
    cases hg : x.groupViolation? g with
    | none => rfl
    | some v =>
      obtain ⟨i, hv, -⟩ := exists_of_groupViolation? hg
      exact absurd hv (h _ _)

theorem firstViolation_of_findSome? (h : SigilGroup.all.findSome? x.groupViolation? = some v) :
    x.FirstViolation v := by
  obtain ⟨before, g, later, hall, hg, hbefore⟩ := List.findSome?_eq_some_iff.1 h
  obtain ⟨i, hv, hfront⟩ := exists_of_groupViolation? hg
  have hleast : ∀ q w, x.Breaks q w → ¬ q.Before ⟨g, i⟩ := by
    rintro ⟨k, j⟩ w hw (hk | ⟨rfl, hj⟩)
    · rw [SigilGroup.earlier_eq hall] at hk
      exact not_breaks_of_groupViolation? (hbefore k hk) j w hw
    · exact hfront j hj w hw
  exact ⟨⟨g, i⟩, hv, fun w hw => hv.unique hw hleast, hleast⟩

theorem findSome?_groupViolation?_eq_some_iff :
    SigilGroup.all.findSome? x.groupViolation? = some v ↔ x.FirstViolation v := by
  constructor
  · exact firstViolation_of_findSome?
  · intro hv
    cases h : SigilGroup.all.findSome? x.groupViolation? with
    | none =>
      obtain ⟨p, hp, -⟩ := hv
      exact absurd hp (findSome?_groupViolation?_eq_none_iff.1 h p v)
    | some w => rw [(firstViolation_of_findSome? h).unique hv]

theorem keywordViolation?_eq_none_iff :
    x.keywordViolation? = none ↔ ∀ word ∈ x.keywords, Readable word := by
  simp [keywordViolation?, ← isWord_iff]

/-- The sigils are in order when nothing is found at any place. -/
theorem not_breaks_iff : (∀ p w, ¬ x.Breaks p w) ↔ (∀ g, x.sigils g ≠ []) ∧
    (∀ g, ∀ c ∈ x.sigils g, c ∉ reserved) ∧
    ∀ g h c, c ∈ x.sigils g → c ∈ x.sigils h → g = h := by
  constructor
  · intro h
    have free : ∀ g, ∀ c ∈ x.sigils g, c ∉ reserved := by
      intro g c hc hr
      obtain ⟨i, hi⟩ := List.mem_iff_getElem?.1 hc
      exact h _ _ (.reservedSigil hi hr)
    have apart : ∀ g k c, c ∈ x.sigils g → c ∈ x.sigils k → g ∉ k.earlier := by
      intro g k c hg hk he
      obtain ⟨i, hi⟩ := List.mem_iff_getElem?.1 hk
      exact h _ _ (.sharedSigil hi (free k c hk) he hg)
    refine ⟨fun g hg => h _ _ (.noSigil hg), free, fun g k c hg hk => ?_⟩
    by_cases hne : g = k
    · exact hne
    · rcases mem_takeWhile_ne_or (SigilGroup.mem_all g) (SigilGroup.mem_all k) hne with he | he
      · exact absurd he (apart g k c hg hk)
      · exact absurd he (apart k g c hk hg)
  · rintro ⟨hne, hfree, hone⟩ p w (hg | ⟨hi, hr⟩ | ⟨hi, -, he, ho⟩)
    · exact hne _ hg
    · exact hfree _ _ (List.mem_of_getElem? hi) hr
    · obtain rfl := hone _ _ _ ho (List.mem_of_getElem? hi)
      simpa using List.all_eq_true.1 List.all_takeWhile _ he

theorem violation?_eq_none_iff : x.violation? = none ↔ x.WellFormed := by
  rw [violation?_eq, Option.or_eq_none_iff, findSome?_groupViolation?_eq_none_iff, not_breaks_iff,
    keywordViolation?_eq_none_iff]
  constructor
  · rintro ⟨⟨hne, hfree, hone⟩, hwords⟩
    exact ⟨hne, hfree, hone, hwords⟩
  · rintro ⟨hne, hfree, hone, hwords⟩
    exact ⟨⟨hne, hfree, hone⟩, hwords⟩

/-- A bad keyword is reported when the sigils are in order and there is no other bad one. -/
theorem violation?_eq_some_iff
    (hwords : ∀ a ∈ x.keywords, ∀ b ∈ x.keywords, ¬ Readable a → ¬ Readable b → a = b) :
    x.violation? = some v ↔ x.FirstViolation v ∨ (∀ p w, ¬ x.Breaks p w) ∧
      ∃ word ∈ x.keywords, ¬ Readable word ∧ v = .unreadableKeyword word := by
  have hfind : ∀ word, x.keywords.words.find? (fun word => !isWord word) = some word ↔
      word ∈ x.keywords ∧ ¬ Readable word := by
    intro word
    constructor
    · intro h
      exact ⟨List.mem_of_find?_eq_some h, by simpa [← isWord_iff] using List.find?_some h⟩
    · rintro ⟨hmem, hbad⟩
      cases h : x.keywords.words.find? (fun word => !isWord word) with
      | none => exact absurd ((isWord_iff word).1 (by simpa using List.find?_eq_none.1 h word hmem)) hbad
      | some other =>
        have hother : ¬ Readable other := by simpa [← isWord_iff] using List.find?_some h
        rw [hwords other (List.mem_of_find?_eq_some h) word hmem hother hbad]
  rw [violation?_eq, Option.or_eq_some_iff, findSome?_groupViolation?_eq_some_iff,
    findSome?_groupViolation?_eq_none_iff, keywordViolation?, Option.map_eq_some_iff]
  simp only [hfind, and_assoc, @eq_comm _ v]

end Configuration

/-! ### Settings -/

namespace Settings

theorem readable_of_mem_keywords (s : Settings) {word : String} (h : word ∈ s.keywords) :
    Readable word :=
  (Configuration.violation?_eq_none_iff.1 s.accepted).readable word h

theorem accept_eq_ok_iff {x : Configuration} {s : Settings} :
    accept x = .ok s ↔ s.toConfiguration = x := by
  unfold accept
  split
  · next h =>
    constructor
    · intro hs
      rw [← Except.ok.inj hs]
    · rintro rfl
      rfl
  · next v h =>
    constructor
    · intro hs
      cases hs
    · rintro rfl
      rw [s.accepted] at h
      cases h

theorem accept_eq_error_iff {x : Configuration} {v : Violation} :
    accept x = .error v ↔ x.violation? = some v := by
  unfold accept
  split
  · next h => simp [h]
  · next w h => simp [h]

/-- A configuration without a violation makes settings. -/
theorem exists_accept_iff {x : Configuration} :
    (∃ s, accept x = .ok s) ↔ x.violation? = none := by
  constructor
  · rintro ⟨s, hs⟩
    rw [← accept_eq_ok_iff.1 hs, s.accepted]
  · intro h
    exact ⟨⟨x, h⟩, accept_eq_ok_iff.2 rfl⟩

/-- Keywords are changed by asking for the same settings with the other keywords. -/
theorem withKeywords_eq_settings (s : Settings) (source : KeywordSource) :
    s.withKeywords source = Request.settings ⟨some s.file, some source, fun g => some (s.sigils g)⟩ := by
  cases source <;> rfl

end Settings

namespace Request

variable {file? : Option String} {sigils? : SigilGroup → Option (List Char)} {words : List String}

/-- The configuration asked for by keywords that are no bare string. -/
def configuration (file? : Option String) (words : List String)
    (sigils? : SigilGroup → Option (List Char)) : Configuration where
  file := file?.getD standardFile
  keywords := .ofList words
  sigils g := (sigils? g).getD g.standard

theorem settings_words : Request.settings ⟨file?, some (.words words), sigils?⟩ =
    Settings.accept (configuration file? words sigils?) := rfl

/-- Keywords count as a set: their order and repeats do not matter. -/
theorem configuration_congr {others : List String} (h : ∀ word, word ∈ words ↔ word ∈ others) :
    configuration file? words sigils? = configuration file? others sigils? := by
  have hsame : Vocabulary.ofList words = .ofList others :=
    Vocabulary.ext_mem fun word => by rw [Vocabulary.mem_ofList, Vocabulary.mem_ofList, h]
  rw [configuration, configuration, hsame]

/-- A bare string of keywords is refused first of all. Otherwise just the well-formed
configurations are accepted, and of any other the first violation is reported: that of the sigils
at the least place, or else the bad keyword. -/
theorem settings_first_violation (file? : Option String)
    (sigils? : SigilGroup → Option (List Char)) :
    (∀ text, Request.settings ⟨file?, some (.bare text), sigils?⟩ =
      .error (.bareKeywords text)) ∧
    (∀ words,
      let x := configuration file? words sigils?
      let result := Request.settings ⟨file?, some (.words words), sigils?⟩
      ((∃ s, result = .ok s) ↔ x.WellFormed) ∧
      (∀ s, result = .ok s → s.toConfiguration = x) ∧
      ((∀ a ∈ words, ∀ b ∈ words, ¬ Readable a → ¬ Readable b → a = b) →
        ∀ v, result = .error v ↔ x.FirstViolation v ∨ (∀ p w, ¬ x.Breaks p w) ∧
          ∃ word ∈ words, ¬ Readable word ∧ v = .unreadableKeyword word)) ∧
    (∀ words others, (∀ word, word ∈ words ↔ word ∈ others) →
      Request.settings ⟨file?, some (.words words), sigils?⟩ =
        Request.settings ⟨file?, some (.words others), sigils?⟩) ∧
    ∀ (s : Settings) (source : KeywordSource), s.withKeywords source =
      Request.settings ⟨some s.file, some source, fun g => some (s.sigils g)⟩ := by
  refine ⟨fun text => rfl, ?_, ?_, Settings.withKeywords_eq_settings⟩
  · intro words x result
    have hresult : result = Settings.accept x := settings_words
    rw [hresult]
    refine ⟨?_, fun s => Settings.accept_eq_ok_iff.1, fun hone v => ?_⟩
    · rw [Settings.exists_accept_iff, Configuration.violation?_eq_none_iff]
    · have hmem : ∀ word, word ∈ x.keywords ↔ word ∈ words := fun word => Vocabulary.mem_ofList
      have hwords : ∀ a ∈ x.keywords, ∀ b ∈ x.keywords, ¬ Readable a → ¬ Readable b → a = b := by
        intro a ha b hb
        exact hone a ((hmem a).1 ha) b ((hmem b).1 hb)
      rw [Settings.accept_eq_error_iff, Configuration.violation?_eq_some_iff hwords]
      simp only [hmem]
  · intro words others h
    rw [settings_words, settings_words, configuration_congr h]

/-- A colon shared with the names stands before a digit in the same group, an empty group further
on and a bad keyword, and is what is reported. -/
theorem settings_first_violation_shared :
    let sigils (g : SigilGroup) := match g with
      | .marker .property => ['@', ':', '1']
      | .marker .passage => []
      | g => g.standard
    let words := ["Loop", ""]
    let violation : Violation := .sharedSigil ':' .name (.marker .property)
    (∀ a ∈ words, ∀ b ∈ words, ¬ Readable a → ¬ Readable b → a = b) ∧
      (configuration none words (some ∘ sigils)).FirstViolation violation ∧
      Request.settings ⟨none, some (.words ["", "Loop", ""]), some ∘ sigils⟩ =
        .error violation := by
  intro sigils words violation
  obtain ⟨-, hwords, hset, -⟩ := settings_first_violation none (some ∘ sigils)
  obtain ⟨-, -, herror⟩ := hwords words
  have hone : ∀ a ∈ words, ∀ b ∈ words, ¬ Readable a → ¬ Readable b → a = b := by
    simp only [← isWord_iff]
    decide +kernel
  have hshared : Request.settings ⟨none, some (.words words), some ∘ sigils⟩ =
      .error violation := by
    rw [settings_words, Settings.accept_eq_error_iff]
    decide +kernel
  refine ⟨hone, ((herror hone _).1 hshared).resolve_right ?_, ?_⟩
  · rintro ⟨-, word, -, -, hv⟩
    exact Violation.noConfusion hv
  · rw [← hset words ["", "Loop", ""] (by grind), hshared]

end Request

end BeatNotation
