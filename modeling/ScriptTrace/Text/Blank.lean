import ScriptTrace.Text.CharTable

/-!
# White space, words and lines

* `isWhiteSpace` : the Unicode property White_Space;
* `isBlank` : white space and the four separators U+001C to U+001F, which trimming and splitting
  count as space;
* `strip` : text without space at both ends;
* `squeeze` : the words of a text with single spaces between them;
* `firstLine` : the text up to the first line break.
-/

namespace ScriptTrace

/-- The property White_Space. -/
def whiteSpace : CharTable := [
  (0x9, 0xD), (0x20, 0x20), (0x85, 0x85), (0xA0, 0xA0), (0x1680, 0x1680), (0x2000, 0x200A),
  (0x2028, 0x2029), (0x202F, 0x202F), (0x205F, 0x205F), (0x3000, 0x3000)]

def isWhiteSpace (c : Char) : Bool := whiteSpace.contains c

/-- White space, or one of the information separators. -/
def isBlank (c : Char) : Bool := isWhiteSpace c || (0x1C ≤ c.toNat && c.toNat ≤ 0x1F)

/-- Characters that end a line. -/
def isLineBreak (c : Char) : Bool :=
  CharTable.contains [(0xA, 0xD), (0x1C, 0x1E), (0x85, 0x85), (0x2028, 0x2029)] c

/-- The part between the first and the last character that is no space. -/
def trimChars (space : Char → Bool) (cs : List Char) : List Char :=
  ((cs.dropWhile space).reverse.dropWhile space).reverse

def strip (s : String) : String := String.ofList (trimChars isBlank s.toList)

/-- The longest runs of characters that are not blank, in order. -/
def wordsOf : List Char → List (List Char)
  | [] => []
  | c :: cs =>
    if isBlank c then wordsOf cs else
    match cs with
    | [] => [[c]]
    | d :: _ =>
      if isBlank d then [c] :: wordsOf cs else
      match wordsOf cs with
      | word :: others => (c :: word) :: others
      | [] => [[c]]

/-- Every run of space becomes one space; none stays at the ends. -/
def squeeze (s : String) : String := " ".intercalate ((wordsOf s.toList).map String.ofList)

/-- The text before the first line break. -/
def firstLine (s : String) : String := String.ofList (s.toList.takeWhile (!isLineBreak ·))

end ScriptTrace
