/-!
# Lines of text

Text as lines, lines without the white space around them, and text cut at a character.
-/

namespace EventRelay.Text

/-- The characters that Unicode counts as white space. -/
def isWhite (c : Char) : Bool :=
  ('\t' ≤ c && c ≤ '\r') || c = ' ' || c = '\x85' || c = '\xa0' || c = '\u1680'
    || ('\u2000' ≤ c && c ≤ '\u200a') || c = '\u2028' || c = '\u2029' || c = '\u202f'
    || c = '\u205f' || c = '\u3000'

/-- The characters without the white space at either end. -/
def trimChars (cs : List Char) : List Char :=
  ((cs.dropWhile isWhite).reverse.dropWhile isWhite).reverse

/-- A text without the white space at either end. -/
def trim (s : String) : String := String.ofList (trimChars s.toList)

/-- The characters up to each line feed, and those after the last one if there are any. -/
def splitLines : List Char → List (List Char)
  | [] => []
  | '\n' :: rest => [] :: splitLines rest
  | c :: rest =>
    match splitLines rest with
    | [] => [[c]]
    | line :: lines => (c :: line) :: lines

/-- What stands between the occurrences of a character. -/
def pieces (mark : Char) : List Char → List (List Char)
  | [] => [[]]
  | c :: rest =>
    if c = mark then [] :: pieces mark rest
    else match pieces mark rest with
      | [] => [[c]]
      | piece :: more => (c :: piece) :: more

/-- The lines of a text. -/
def lines (s : String) : List String := (splitLines s.toList).map String.ofList

example : lines "a\n\nb" = ["a", "", "b"] ∧ lines "a\n" = ["a"] ∧ lines "" = [] := by decide +kernel

example : trim "\u3000 a b\r" = "a b" := by decide +kernel

example : pieces '.' ['a', '.', '.', 'b'] = [['a'], [], ['b']] := by decide

end EventRelay.Text
