import Minicomputer.Text.Hexadecimal
import Minicomputer.Text.Printable

/-!
# Quoted text

Text between double quotes for messages. A quote and a backslash are written after a backslash, the
line feed, carriage return, tab and NUL by a letter or digit, and any other character without a
visible form by its number in braces.
-/

set_option autoImplicit false

namespace Minicomputer.Text

def quotedChar (c : Char) : String :=
  if c = '"' then "\\\""
  else if c = '\\' then "\\\\"
  else if c = '\n' then "\\n"
  else if c = '\r' then "\\r"
  else if c = '\t' then "\\t"
  else if c = '\x00' then "\\0"
  else if isPrintable c then c.toString
  else "\\u\x7b" ++ hex 1 c.toNat ++ "\x7d"

def quoted (s : String) : String :=
  "\"" ++ "".intercalate (s.toList.map quotedChar) ++ "\""

end Minicomputer.Text
