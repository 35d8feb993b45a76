import PackedGraph.Block.Error

/-!
# Errors of graph views
-/

namespace PackedGraph

inductive ViewError where
  | read (error : ReadError)
  | unsupported (operation view : String)
  /-- A filter names a label that the graph does not have. -/
  | unknownLabel (label : String)
  | unknownKey (key : String)
  | topologyReleased
  | valuesReleased (key : String)
deriving DecidableEq

/-- The text of an error, where it has one. -/
def ViewError.message : ViewError → Option String
  | read (.decode error) => error.message
  | read (.fault fault) => fault.message
  | unsupported operation view => s!"{operation} is not supported by {view}"
  | unknownLabel label => "Unknown node label " ++ Text.quoted label ++ " in label filter"
  | unknownKey key => "Unknown relationship property " ++ Text.quoted key
  | topologyReleased => "The topology of this graph has been released"
  | valuesReleased key =>
    "The relationship property " ++ Text.quoted key ++ " of this graph has been released"

end PackedGraph
