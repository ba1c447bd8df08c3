import SharedExchange.Text.Hexadecimal
import SharedExchange.Text.Printable

/-! # Quoted texts

A text between double quotes, as it stands in a description: quotes, backslashes and the common
controls have a short escape, and every other character that is not printable is written by its
number. -/

namespace SharedExchange.Text

/-- A character inside quotes. -/
def escaped (c : Char) : String :=
  match c with
  | '\x00' => "\\0"
  | '\t' => "\\t"
  | '\r' => "\\r"
  | '\n' => "\\n"
  | '"' => "\\\""
  | '\\' => "\\\\"
  | c => if isPrintable c then c.toString else "\\u\x7b" ++ Hexadecimal.ofNat 1 c.toNat ++ "\x7d"

/-- A text between double quotes. -/
def quoted (s : String) : String :=
  "\"" ++ String.join (s.toList.map escaped) ++ "\""

/-- A quote, a control without a short escape, a combining accent. -/
example : quoted "a\"\x01e\u0301" = "\"a\\\"\\u\x7b1\x7de\\u\x7b301\x7d\"" := by
  decide +kernel

end SharedExchange.Text
