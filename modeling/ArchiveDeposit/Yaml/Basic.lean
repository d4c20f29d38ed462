/-!
# YAML values

What manifests and settings are written in: scalars, sequences and mappings.  A scalar keeps its
text and whether it stood between quotes; what the text means, a number or a name, is for the
reader of the value to say.  The entries of a mapping keep their order and may repeat a key.
-/

namespace ArchiveDeposit

section Yaml

/-- A YAML value. -/
inductive Yaml where
  | scalar (quoted : Bool) (text : String)
  | sequence (items : List Yaml)
  | mapping (entries : List (String × Yaml))
deriving Repr, Inhabited

namespace Yaml

/-- The value that stands where nothing is written. -/
def nothing : Yaml := .scalar false ""

end Yaml

end Yaml

end ArchiveDeposit
