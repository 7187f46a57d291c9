import TypeSignature.Text.Invisible

/-!
# Quoted — a text as it is shown in a message

A quoted text stands between double quotes.  Quotes and backslashes in it are preceded by a
backslash, the usual controls have a letter each, and any other invisible character is shown by its
code in hexadecimal digits, so that a message is one line whatever it quotes.
-/

namespace TypeSignature.Text

/-- A character as it is shown between quotes. -/
def quoteChar (c : Char) : Text :=
  match c with
  | '\x00' => ['\\', '0']
  | '\t' => ['\\', 't']
  | '\n' => ['\\', 'n']
  | '\r' => ['\\', 'r']
  | '\"' => ['\\', '\"']
  | '\\' => ['\\', '\\']
  | c =>
    if isInvisible c then ['\\', 'u', '\x7b'] ++ Nat.toDigits 16 c.toNat ++ ['\x7d'] else [c]

/-- A text between quotes. -/
def quoted (s : Text) : Text := '\"' :: s.flatMap quoteChar ++ ['\"']

example : quoted "say \"hi\"\n".toList = "\"say \\\"hi\\\"\\n\"".toList := by decide +kernel
example : quoted ['\x7f'] = "\"\\u\x7b7f\x7d\"".toList := by decide +kernel

end TypeSignature.Text
