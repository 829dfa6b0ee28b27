import EventRelay.Text.Invisible
/-!
# Quoted text

Text shown between quotes in a message.  The quote itself and the backslash get a backslash, the
usual controls a letter, and every other character without a visible form its number in
hexadecimal.
-/

namespace EventRelay.Text

/-- One character as it stands between quotes of the kind `quote`. -/
def escapeChar (quote c : Char) : List Char :=
  if c = '\x00' then ['\\', '0']
  else if c = '\t' then ['\\', 't']
  else if c = '\r' then ['\\', 'r']
  else if c = '\n' then ['\\', 'n']
  else if c = '\\' ∨ c = quote then ['\\', c]
  else if isInvisible c then ['\\', 'u', '{'] ++ Nat.toDigits 16 c.toNat ++ ['}']
  else [c]

/-- A string between double quotes. -/
def quoted (s : String) : String :=
  String.ofList ('"' :: s.toList.flatMap (escapeChar '"') ++ ['"'])

/-- A path between double quotes; a single quote gets a backslash as well. -/
def quotedPath (path : String) : String :=
  String.ofList ('"' :: path.toList.flatMap (fun c => if c = '\'' then ['\\', c] else escapeChar '"' c)
    ++ ['"'])

/-- A character between single quotes. -/
def quotedChar (c : Char) : String :=
  String.ofList ('\'' :: escapeChar '\'' c ++ ['\''])

example : quoted "a\"b'" = "\"a\\\"b'\"" := by decide +kernel

example : quotedChar '\'' = "'\\''" := by decide +kernel

example : escapeChar '"' '\x7f' = ['\\', 'u', '{', '7', 'f', '}'] := by decide +kernel

end EventRelay.Text
