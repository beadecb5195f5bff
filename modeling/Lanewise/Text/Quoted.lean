import Lanewise.Text.Escaped
import Lanewise.Text.Digits

/-!
# Quoted text in messages

How messages show a character, a string or a list of sizes: between quotes,
with every character that would not show as itself escaped.
-/

namespace Lanewise.Text

/-- One character of quoted text; `quote` is the mark that encloses it. -/
def escapeChar (quote c : Char) : String :=
  match c with
  | '\\' => "\\\\"
  | '\n' => "\\n"
  | '\r' => "\\r"
  | '\t' => "\\t"
  | '\x00' => "\\0"
  | c =>
    if c = quote then String.ofList ['\\', c]
    else if isEscaped c then "\\u\x7b" ++ hex 1 c.toNat ++ "\x7d"
    else c.toString

/-- A character between single quotes. -/
def quoteChar (c : Char) : String :=
  "'" ++ escapeChar '\'' c ++ "'"

/-- A string between double quotes. -/
def quoteString (s : String) : String :=
  "\"" ++ String.join (s.toList.map (escapeChar '"')) ++ "\""

/-- Numbers between brackets, separated by a comma and a space. -/
def bracketed (ns : List Nat) : String :=
  "[" ++ ", ".intercalate (ns.map toString) ++ "]"

end Lanewise.Text
