import BeatNotation.Settings

/-! Requests for settings: changes to the standard configuration, or to settings already
accepted. Every change is checked. Keywords given as one string are refused before
anything else is looked at. -/

namespace BeatNotation

/-- Keywords as they may be given: a collection of words, or one string by mistake. -/
inductive KeywordSource
  | words (words : List String)
  | bare (text : String)

def KeywordSource.vocabulary : KeywordSource → Except Violation Vocabulary
  | words ws => .ok (.ofList ws)
  | bare text => .error (.bareKeywords text)

/-- Changes to the standard configuration. -/
structure Request where
  file? : Option String := none
  keywords? : Option KeywordSource := none
  sigils? : SigilGroup → Option (List Char) := fun _ => none

/-- The settings a request asks for; a bare string of keywords is refused before anything else. -/
def Request.settings (r : Request) : Except Violation Settings := do
  let keywords ← match r.keywords? with
    | some source => source.vocabulary
    | none => .ok standardKeywords
  Settings.accept
    { file := r.file?.getD standardFile
      keywords := keywords
      sigils := fun g => (r.sigils? g).getD g.standard }

/-- The same settings with other keywords. -/
def Settings.withKeywords (s : Settings) (source : KeywordSource) : Except Violation Settings := do
  let keywords ← source.vocabulary
  Settings.accept { s.toConfiguration with keywords := keywords }

end BeatNotation
