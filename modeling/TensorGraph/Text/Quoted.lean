import TensorGraph.Text.Unprintable
import TensorGraph.Text.GraphemeExtend

/-!
# Quoted text

A text between double quotes in which everything that would not show, or would be read as the end
of the text, is escaped: `quoted` is the written form, `bracketed` the form of a list of texts.
-/

namespace TensorGraph.Text

/-- The code point of `c` in hexadecimal between braces. -/
def codePointEscape (c : Char) : List Char :=
  ['\\', 'u', '\x7b'] ++ Nat.toDigits 16 c.toNat ++ ['\x7d']

/-- One character of a quoted text: short escapes first, then code points for what is invisible. -/
def escape (c : Char) : List Char :=
  if c = '\x00' then ['\\', '0']
  else if c = '\t' then ['\\', 't']
  else if c = '\r' then ['\\', 'r']
  else if c = '\n' then ['\\', 'n']
  else if c = '\\' then ['\\', '\\']
  else if c = '"' then ['\\', '"']
  else if ' ' ≤ c ∧ c ≤ '~' then [c]
  else if isGraphemeExtend c || isUnprintable c then codePointEscape c
  else [c]

/-- The text between double quotes, with escapes. -/
def quoted (s : String) : String :=
  String.ofList (['"'] ++ s.toList.flatMap escape ++ ['"'])

/-- The texts in brackets, separated by a comma and a space. -/
def bracketed (items : List String) : String :=
  "[" ++ ", ".intercalate items ++ "]"

end TensorGraph.Text
