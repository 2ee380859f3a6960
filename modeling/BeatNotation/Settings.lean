import BeatNotation.SigilGroup
import BeatNotation.Text.Display
import BeatNotation.Vocabulary

/-! What a notation leaves open: its keywords, and the sigils that open names and
markers. A configuration is accepted when every group has a sigil, no sigil is
reserved or shared between groups, and every keyword reads as one word. The first
violation in the order of the groups and of the sigils within them is reported,
and a bad keyword only when all sigils are in order. -/

namespace BeatNotation

open Alphabet

/-- The keywords unless others are chosen. -/
def standardKeywords : Vocabulary := .ofList ["Loop", "Times", "Forever", "Title"]

/-- The name of a source that has none of its own. -/
def standardFile : String := "<input>"

/-- A configuration, accepted or not. -/
structure Configuration where
  file : String := standardFile
  keywords : Vocabulary := standardKeywords
  sigils : SigilGroup → List Char := SigilGroup.standard

/-- The name that counts for a source: its own, unless that is missing or empty. -/
def Configuration.fileFor (x : Configuration) (file? : Option String) : String :=
  (file?.filter (· ≠ "")).getD x.file

theorem Configuration.fileFor_of_file {x y : Configuration} (h : x.file = y.file) :
    x.fileFor = y.fileFor := by
  funext file?
  rw [fileFor, h, fileFor]

/-- Why a configuration is refused. -/
inductive Violation
  | bareKeywords (text : String)
  | noSigil (g : SigilGroup)
  | reservedSigil (g : SigilGroup) (c : Char)
  | sharedSigil (c : Char) (owner g : SigilGroup)
  | unreadableKeyword (word : String)
deriving DecidableEq, Repr

def Violation.message : Violation → String
  | bareKeywords text =>
    s!"keywords must be a collection of words, not the string {Text.quoted text}"
  | noSigil g => s!"{g.label} needs at least one sigil"
  | reservedSigil g c =>
    s!"{g.label} sigil {Text.quoted c.toString} is reserved by a fixed lexical class"
  | sharedSigil c owner g =>
    s!"sigil {Text.quoted c.toString} is used by both {owner.label} and {g.label}"
  | unreadableKeyword word =>
    s!"keyword {Text.quoted word} can never be read as a single identifier"

/-- A letter followed by letters and digits. -/
def isWord (word : String) : Bool :=
  match word.toList with
  | [] => false
  | c :: cs => isLetter c && cs.all isAlphanumeric

/-- The sigils seen so far, each with the group that it opens. The latest entry counts. -/
abbrev SigilTable := List (Char × SigilGroup)

namespace Configuration

/-- Enter the sigils of a group into the table. A group may repeat its own. -/
def enterSigils (g : SigilGroup) : List Char → SigilTable → Except Violation SigilTable
  | [], seen => .ok seen
  | c :: cs, seen =>
    if c ∈ reserved then .error (.reservedSigil g c)
    else match (seen.lookup c).filter (· ≠ g) with
      | some owner => .error (.sharedSigil c owner g)
      | none => enterSigils g cs ((c, g) :: seen)

/-- Enter the sigils of group after group, up to the first violation. -/
def enterGroups (x : Configuration) : List SigilGroup → SigilTable → Except Violation SigilTable
  | [], seen => .ok seen
  | g :: gs, seen =>
    if (x.sigils g).isEmpty then .error (.noSigil g)
    else match enterSigils g (x.sigils g) seen with
      | .ok seen => x.enterGroups gs seen
      | .error v => .error v

def keywordViolation? (x : Configuration) : Option Violation :=
  (x.keywords.words.find? fun word => !isWord word).map .unreadableKeyword

/-- The first violation. -/
def violation? (x : Configuration) : Option Violation :=
  match x.enterGroups SigilGroup.all [] with
  | .ok _ => x.keywordViolation?
  | .error v => some v

end Configuration

/-- An accepted configuration. -/
structure Settings extends Configuration where
  accepted : toConfiguration.violation? = none

namespace Settings

/-- The configuration's settings, or its first violation. -/
def accept (x : Configuration) : Except Violation Settings :=
  match h : x.violation? with
  | none => .ok ⟨x, h⟩
  | some v => .error v

/-- The configuration with every part left as it is. -/
def standard : Settings := ⟨{}, by decide +kernel⟩

/-- Equality of every part: file, keywords and the sigils of each group. -/
def agree (s t : Settings) : Bool :=
  s.file = t.file && s.keywords = t.keywords && SigilGroup.all.all fun g => s.sigils g = t.sigils g

theorem agree_iff (s t : Settings) : s.agree t ↔ s = t := by
  obtain ⟨⟨f, k, g⟩, hs⟩ := s
  obtain ⟨⟨f', k', g'⟩, ht⟩ := t
  simp only [agree, Bool.and_eq_true, decide_eq_true_eq, List.all_eq_true, mk.injEq,
    Configuration.mk.injEq, funext_iff, and_assoc]
  exact and_congr_right' (and_congr_right' ⟨fun h g => h g (SigilGroup.mem_all g), fun h g _ => h g⟩)

end Settings

end BeatNotation
