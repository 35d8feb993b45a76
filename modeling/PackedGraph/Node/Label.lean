import PackedGraph.Text.Blank
import PackedGraph.Text.Quoted

/-!
# Node labels

A label is a nonempty name without blank characters.
-/

namespace PackedGraph

/-- Why a name is not a label: it is empty, or holds a blank character. -/
structure InvalidLabel where
  name : String
deriving DecidableEq, Inhabited

def InvalidLabel.message (invalid : InvalidLabel) : String :=
  "Invalid node label " ++ Text.quoted invalid.name ++
    ": labels must be nonempty and must not contain whitespace"

structure Label where
  name : String
  nonempty : name ≠ ""
  unbroken : name.toList.any Text.isBlank = false
deriving DecidableEq

namespace Label

def ofName (name : String) : Except InvalidLabel Label :=
  if h : name ≠ "" ∧ name.toList.any Text.isBlank = false then .ok ⟨name, h.1, h.2⟩
  else .error ⟨name⟩

/-- Reads a list of names, up to the first that is not a label. -/
def ofNames (names : List String) : Except InvalidLabel (List Label) := names.mapM ofName

end Label

end PackedGraph
