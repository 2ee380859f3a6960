import BeatNotation.Kind

/-! Sigil groups: the characters that open names, and those that open each kind of
marker. The groups come in a fixed order, names first. -/

namespace BeatNotation

/-- What a sigil may open. -/
inductive SigilGroup
  | name
  | marker (k : MarkerKind)
deriving DecidableEq, Repr

namespace SigilGroup

def all : List SigilGroup := name :: MarkerKind.all.map marker

def label : SigilGroup → String
  | name => "identifier"
  | marker k => k.label

/-- The sigils of a group unless others are chosen. -/
def standard : SigilGroup → List Char
  | name => [':', '~']
  | marker .property => ['@']
  | marker .passage => ['$']
  | marker .beat => ['|']
  | marker .chord => ['^']
  | marker .scale => ['%']
  | marker .color => ['&']

theorem mem_all (g : SigilGroup) : g ∈ all := by
  cases g with
  | name => simp [all]
  | marker k => simp [all, MarkerKind.mem_all]

end SigilGroup

end BeatNotation
