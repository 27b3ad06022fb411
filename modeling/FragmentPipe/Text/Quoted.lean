import FragmentPipe.Text.Invisible

/-!
Text between double quotes. Quotes, backslashes and characters that can not be seen are escaped, so
that the quoted text is one visible line.
-/

namespace FragmentPipe.Quoted

/-- The escape by number, in lower case hexadecimal digits. -/
def numbered (c : Char) : List Char :=
  ['\\', 'u', '\x7b'] ++ Nat.toDigits 16 c.toNat ++ ['\x7d']

/-- The written form of a character. -/
def encodeChar (c : Char) : List Char :=
  if c = '\x00' then ['\\', '0']
  else if c = '\t' then ['\\', 't']
  else if c = '\r' then ['\\', 'r']
  else if c = '\n' then ['\\', 'n']
  else if c = '"' then ['\\', '"']
  else if c = '\\' then ['\\', '\\']
  else if Invisible.contains c then numbered c
  else [c]

/-- A text between quotes. -/
def encode (text : String) : String :=
  String.ofList (['"'] ++ text.toList.flatMap encodeChar ++ ['"'])

end FragmentPipe.Quoted
