import Parley.Text.Lowercase
import Parley.Text.PrintTable

/-!
Texts as they are shown in diagnostics: between double quotes, with a backslash before what would
not be read as itself.
-/

namespace Parley.Text.Quoted

def hex (n : Nat) : String := String.ofList (Nat.toDigits 16 n)

def escape (c : Char) : String :=
  match c with
  | '\x00' => "\\0"
  | '\t' => "\\t"
  | '\n' => "\\n"
  | '\r' => "\\r"
  | '"' => "\\\""
  | '\\' => "\\\\"
  | _ =>
    if inRanges PrintTable.extending c.toNat || inRanges PrintTable.hidden c.toNat then
      "\\u\x7b" ++ hex c.toNat ++ "\x7d"
    else c.toString

def quote (s : String) : String := "\"" ++ String.join (s.toList.map escape) ++ "\""

end Parley.Text.Quoted
