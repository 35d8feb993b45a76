import PackedGraph.Fault
import PackedGraph.Node.Column
import PackedGraph.Node.Label

/-!
# Errors of graph builders
-/

namespace PackedGraph

/-- Why a builder cannot compress what it has collected. -/
inductive ConfigError where
  | pageShift (shift : Nat)
  | emptyKey
  | repeatedKey (key : String)
deriving DecidableEq, Inhabited

def ConfigError.message : ConfigError → String
  | pageShift shift => s!"the page shift must be in [1 . . 30], got {shift}"
  | emptyKey => "relationship property keys must be nonempty"
  | repeatedKey key => "duplicate relationship property key " ++ Text.quoted key

inductive BuildError where
  | invalidLabel (error : InvalidLabel)
  | propertyType (key : String) (expected found : ValueType)
  | unknownNode (node nodeCount : Nat)
  | valueCount (expected found : Nat)
  | config (error : ConfigError)
  | degreeTooLarge (node degree : Nat)
  | fault (broken : Fault)
deriving DecidableEq

/-- The text of an error, where it has one. -/
def BuildError.message : BuildError → Option String
  | invalidLabel error => error.message
  | propertyType key expected found =>
    "Node property " ++ Text.quoted key ++ " has type " ++ expected.name ++ ", but a " ++
      found.name ++ " value was provided"
  | unknownNode node nodeCount => s!"Unknown node {node}: the graph has {nodeCount} nodes"
  | valueCount expected found => s!"Expected {expected} relationship property values, got {found}"
  | config error => "Unsupported configuration: " ++ error.message
  | degreeTooLarge node degree =>
    s!"Node {node} has {degree} relationships, more than the maximum of 4294967295"
  | fault broken => broken.message

end PackedGraph
