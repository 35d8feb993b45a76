import PackedGraph.Text.Extending
import PackedGraph.Text.Ignorable
import PackedGraph.Text.Unprintable

/-!
# Quoted text

Names inside messages are shown between quotation marks. A quotation mark and a backslash are
preceded by a backslash, the four common control characters have a letter of their own, and every
other character that has no printed form, or is invisible, or would merge with its neighbour, is
shown by its code point in hexadecimal.
-/

namespace PackedGraph.Text

/-- The lowercase hexadecimal digits of a number, without leading zeros. -/
def hex (n : Nat) : String := String.ofList (Nat.toDigits 16 n)

def inRanges (ranges : Array (Nat × Nat)) (c : Char) : Bool :=
  ranges.any fun range ↦ range.1 ≤ c.toNat && c.toNat ≤ range.2

/-- Whether a character stands for itself between quotation marks. -/
def isPlain (c : Char) : Bool :=
  [extendingRanges, ignorableRanges, unprintableRanges].all fun ranges ↦ !inRanges ranges c

def quoteChar (c : Char) : String :=
  match c with
  | '\x00' => "\\0"
  | '\t' => "\\t"
  | '\r' => "\\r"
  | '\n' => "\\n"
  | '\\' => "\\\\"
  | '"' => "\\\""
  | c => if isPlain c then c.toString else "\\u\x7b" ++ hex c.toNat ++ "\x7d"

/-- A text as it is shown inside a message. -/
def quoted (s : String) : String :=
  "\"" ++ String.join (s.toList.map quoteChar) ++ "\""

end PackedGraph.Text
