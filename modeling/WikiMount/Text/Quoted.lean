import WikiMount.Text.Combining
import WikiMount.Text.Ignorable
import WikiMount.Text.Printable

/-! # Quoted text
A text shown inside a message stands in double quotes, with everything that could not be told apart
on a page written out: the quote, the backslash, line breaks and every character that is unprintable,
ignorable or combining. -/

namespace WikiMount.Text

/-- A character by its code point in lowercase hexadecimal, without leading zeros. -/
def codePoint (c : Char) : List Char :=
  '\\' :: 'u' :: '\x7b' :: (Nat.toDigits 16 c.toNat ++ ['\x7d'])

/-- Whether a character is seen as itself wherever it stands. -/
def isPlain (c : Char) : Bool := isPrintable c && !isIgnorable c && !isCombining c

def quotedChar (c : Char) : List Char :=
  match c with
  | '"' => ['\\', '"']
  | '\\' => ['\\', '\\']
  | '\n' => ['\\', 'n']
  | '\r' => ['\\', 'r']
  | '\t' => ['\\', 't']
  | '\x00' => ['\\', '0']
  | c => if isPlain c then [c] else codePoint c

def quoted (s : String) : String := String.ofList ('"' :: (s.toList.flatMap quotedChar ++ ['"']))

end WikiMount.Text
