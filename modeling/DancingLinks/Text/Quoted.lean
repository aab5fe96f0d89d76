import DancingLinks.Text.Hidden
/-! Quoted text. Between double quotes stand the characters of the text; a quote, a backslash and
what would not show as itself are written as escapes. -/
namespace DancingLinks.Text

def hex (value : Nat) : String := String.ofList (Nat.toDigits 16 value)

def escape (c : Char) : String :=
  match c with
  | '\x00' => "\\0"
  | '\t' => "\\t"
  | '\n' => "\\n"
  | '\r' => "\\r"
  | '"' => "\\\""
  | '\\' => "\\\\"
  | c => if isHidden c then "\\u\x7b" ++ hex c.toNat ++ "\x7d" else c.toString

def quoted (text : String) : String := "\"" ++ String.join (text.toList.map escape) ++ "\""

end DancingLinks.Text
