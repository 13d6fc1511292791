/-!
# Quoted strings

A string in double quotes, in which a quote and a backslash are escaped by a backslash, the common
control characters have a letter, and the others are written as `\u` and four hexadecimal digits.

* `quote` : all characters from U+0020 on stand for themselves;
* `quoteAscii` : characters outside U+0020 to U+007E are escaped too, those beyond U+FFFF as a
  surrogate pair.
-/

namespace ScriptTrace

/-- Hexadecimal digits of `n`, at least `width` of them. -/
def hexDigits (width n : Nat) : List Char :=
  let digits := Nat.toDigits 16 n
  List.replicate (width - digits.length) '0' ++ digits

/-- One UTF-16 unit as an escape. -/
def escapeUnit (n : Nat) : List Char := '\\' :: 'u' :: hexDigits 4 n

/-- The escape of a character as one unit, or as two beyond U+FFFF. -/
def escapeCode (c : Char) : List Char :=
  let n := c.toNat
  if n < 0x10000 then escapeUnit n
  else escapeUnit (0xD800 + (n - 0x10000) / 0x400) ++ escapeUnit (0xDC00 + (n - 0x10000) % 0x400)

/-- The letter that escapes a character. -/
def escapeLetter? (c : Char) : Option Char :=
  if c = '"' then some '"'
  else if c = '\\' then some '\\'
  else if c = '\n' then some 'n'
  else if c = '\r' then some 'r'
  else if c = '\t' then some 't'
  else if c = '\x08' then some 'b'
  else if c = '\x0c' then some 'f'
  else none

/-- A character inside quotes; `stays` tells which ones need no escape. -/
def escapeChar (stays : Char → Bool) (c : Char) : List Char :=
  match escapeLetter? c with
  | some letter => ['\\', letter]
  | none => if stays c then [c] else escapeCode c

def quoteWith (stays : Char → Bool) (s : String) : String :=
  String.ofList ('"' :: (s.toList.flatMap (escapeChar stays) ++ ['"']))

def quote (s : String) : String := quoteWith (fun c => 0x20 ≤ c.toNat) s

def quoteAscii (s : String) : String := quoteWith (fun c => 0x20 ≤ c.toNat && c.toNat ≤ 0x7E) s

end ScriptTrace
