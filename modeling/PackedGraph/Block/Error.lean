import PackedGraph.Fault

/-!
# Failures while reading compressed blocks

A `DecodeError` says that an address or a length does not agree with the block it refers to: the
block is corrupt. A `ReadError` is either that or a contract broken by the reader.
-/

namespace PackedGraph

inductive DecodeError where
  | addressOutside (address : Nat)
  /-- The page ends before the value does; `index` is the length of the page. -/
  | endsInsideValue (page index : Nat)
  /-- The value that starts at `index` needs more than 64 bits. -/
  | valueTooLarge (page index : Nat)
deriving DecidableEq, Inhabited

def DecodeError.message : DecodeError → String
  | addressOutside address =>
    "Address 0x" ++ Text.hex address ++ " points outside of the compressed block"
  | endsInsideValue page index =>
    s!"The compressed block ends in the middle of a value (page {page}, index {index})"
  | valueTooLarge page index =>
    s!"Decoded value at page {page}, index {index} does not fit in a node id"

inductive ReadError where
  | decode (error : DecodeError)
  | fault (fault : Fault)
deriving DecidableEq, Inhabited

end PackedGraph
