import PackedGraph.Text.Decimal
import PackedGraph.View.Basic

/-!
# Settings and inputs of the algorithms

An algorithm refuses settings that make no sense, and node properties that do not suit the role it
uses them in.
-/

namespace PackedGraph

inductive SettingError where
  | noThreads
  | noClusters
  | noIterations
  | deltaThreshold (threshold : Float)

def SettingError.message : SettingError → String
  | noThreads => "The concurrency must be positive"
  | noClusters => "The number of clusters must be positive"
  | noIterations => "The maximum number of iterations must be positive"
  | deltaThreshold threshold =>
    "The delta threshold must be in [0 . . 1], got " ++ Text.decimal threshold

/-- What an algorithm uses a node property for. -/
inductive PropertyRole where
  | nodeWeight
  | seed
  | community
  | point
deriving DecidableEq, Inhabited

def PropertyRole.name : PropertyRole → String
  | nodeWeight => "node weight"
  | seed => "seed"
  | community => "community"
  | point => "node"

/-- The types a property may have in its role. -/
def PropertyRole.types : PropertyRole → List ValueType
  | nodeWeight => [.long, .double, .doubleArray]
  | seed | community => [.long]
  | point => [.double, .doubleArray]

inductive InputError where
  | unknownProperty (role : PropertyRole) (key : String)
  | propertyType (role : PropertyRole) (key : String) (found : ValueType)
  | negativeSeed (seed : Int) (node : Nat)
  | tooManyClusters (clusters nodes : Nat)
  | missingPoint (original : UInt64) (key : String)
  | pointDimension (original : UInt64) (found : Nat) (key : String) (expected : Nat)
deriving DecidableEq

def InputError.message : InputError → String
  | unknownProperty role key => "Unknown " ++ role.name ++ " property " ++ Text.quoted key
  | propertyType role key found =>
    "The " ++ role.name ++ " property " ++ Text.quoted key ++ " must be of type " ++
      " or ".intercalate (role.types.map ValueType.name) ++ ", found " ++ found.name
  | negativeSeed seed node => s!"Negative seed {seed} for node {node}"
  | tooManyClusters clusters nodes => s!"Cannot compute {clusters} clusters of {nodes} nodes"
  | missingPoint original key =>
    s!"Node {original} has no value for property " ++ Text.quoted key
  | pointDimension original found key expected =>
    s!"Node {original} has a value of dimension {found} for property " ++ Text.quoted key ++
      s!", expected {expected}"

/-- The column of a property of a view, if it suits its role. -/
def View.columnFor (view : View) (role : PropertyRole) (key : String) : Except InputError Column :=
  match view.column? key with
  | none => .error (.unknownProperty role key)
  | some column =>
    if role.types.contains column.type then .ok column
    else .error (.propertyType role key column.type)

end PackedGraph
