/-!
The lexical level of TOML: blanks, comments, line ends, the four kinds of strings, keys, numbers and
dates. A scanner takes the characters that are left and answers with what it read and the rest, or
with nothing where the text is wrong. Together with `Toml.parse?` this is the parser that programs put
into `Settings.ofTextBy`; no result about settings depends on it.
-/

namespace FragmentPipe.Toml

/-- Space or tab. -/
def isBlank (c : Char) : Bool := c = ' ' || c = '\t'

/-- A character that may stand in text of any kind: a tab, or anything from the space on but the
delete character. -/
def isPrintable (c : Char) : Bool :=
  c = '\t' || (0x20 ≤ c.toNat && c.toNat ≤ 0x7E) || 0x80 ≤ c.toNat

/-- The text after blanks. -/
def skipBlanks (s : List Char) : List Char := s.dropWhile isBlank

/-- The text after a line end, which is a line feed with or without a carriage return. -/
def newline? : List Char → Option (List Char)
  | '\n' :: rest => some rest
  | '\r' :: '\n' :: rest => some rest
  | _ => none

/-- The text after the rest of a line that may hold blanks and a comment. -/
def endLine? (s : List Char) : Option (List Char) :=
  let s := skipBlanks s
  let s := if s.head? = some '#' then (s.drop 1).dropWhile isPrintable else s
  if s.isEmpty then some [] else newline? s

/-- The text after blanks, line ends and comments; the flag tells that a comment is open. -/
def skipTrivia : Bool → List Char → List Char
  | _, [] => []
  | _, '\n' :: rest => skipTrivia false rest
  | _, '\r' :: '\n' :: rest => skipTrivia false rest
  | true, c :: rest => if isPrintable c then skipTrivia true rest else c :: rest
  | false, c :: rest =>
    if isBlank c then skipTrivia false rest
    else if c = '#' then skipTrivia true rest
    else c :: rest

/-- The text after blanks and line ends. -/
def skipFold : List Char → List Char
  | [] => []
  | '\n' :: rest => skipFold rest
  | '\r' :: '\n' :: rest => skipFold rest
  | c :: rest => if isBlank c then skipFold rest else c :: rest

theorem length_skipFold_le (s : List Char) : (skipFold s).length ≤ s.length := by
  fun_induction skipFold s <;> simp_all <;> omega

/-- The value of a hexadecimal digit. -/
def hexValue? (c : Char) : Option Nat :=
  if '0' ≤ c ∧ c ≤ '9' then some (c.toNat - 48)
  else if 'a' ≤ c ∧ c ≤ 'f' then some (c.toNat - 87)
  else if 'A' ≤ c ∧ c ≤ 'F' then some (c.toNat - 55)
  else none

/-- The number that digits of a base stand for. -/
def numberOf (base : Nat) (digits : List Char) : Nat :=
  digits.foldl (fun n c => n * base + (hexValue? c).getD 0) 0

/-- The character of a number in hexadecimal digits; surrogates and numbers beyond the last
character are none. -/
def scalar? (digits : List Char) : Option Char :=
  if digits.all (fun c => (hexValue? c).isSome) then
    let n := numberOf 16 digits
    if n.isValidChar then some (Char.ofNat n) else none
  else none

/-- The character of an escape, given the text after the backslash; what is left is shorter. -/
def escape? : (s : List Char) → Option (Char × { rest : List Char // rest.length < s.length })
  | 'b' :: rest => some ('\x08', ⟨rest, by simp⟩)
  | 't' :: rest => some ('\t', ⟨rest, by simp⟩)
  | 'n' :: rest => some ('\n', ⟨rest, by simp⟩)
  | 'f' :: rest => some ('\x0c', ⟨rest, by simp⟩)
  | 'r' :: rest => some ('\r', ⟨rest, by simp⟩)
  | '"' :: rest => some ('"', ⟨rest, by simp⟩)
  | '\\' :: rest => some ('\\', ⟨rest, by simp⟩)
  | 'u' :: a :: b :: c :: d :: rest =>
    (scalar? [a, b, c, d]).map fun ch => (ch, ⟨rest, by simp only [List.length_cons]; omega⟩)
  | 'U' :: a :: b :: c :: d :: e :: f :: g :: h :: rest =>
    (scalar? [a, b, c, d, e, f, g, h]).map fun ch => (ch, ⟨rest, by simp only [List.length_cons]; omega⟩)
  | _ => none

/-- What was read, as characters, and the rest. -/
abbrev Scanned := Option (List Char × List Char)

/-- Puts a character before what was read. -/
def Scanned.cons (c : Char) (s : Scanned) : Scanned := s.map fun (read, rest) => (c :: read, rest)

/-- A string between double quotes, after the first quote. -/
def basicString (s : List Char) : Scanned :=
  match s with
  | [] => none
  | '"' :: rest => some ([], rest)
  | '\\' :: rest =>
    match escape? rest with
    | none => none
    | some (c, after) => Scanned.cons c (basicString after.1)
  | c :: rest => if isPrintable c then Scanned.cons c (basicString rest) else none
termination_by s.length
decreasing_by
  · have := after.2
    simp only [List.length_cons]
    omega
  · simp

/-- The text after a backslash that ends a line, with all blanks and line ends that follow. -/
def lineContinuation? (s : List Char) : Option { rest : List Char // rest.length ≤ s.length } :=
  match h : newline? (skipBlanks s) with
  | none => none
  | some rest => some ⟨skipFold rest, by
      have shorter : rest.length ≤ (skipBlanks s).length := by
        unfold newline? at h
        split at h
        all_goals simp_all
        omega
      have blanks : (skipBlanks s).length ≤ s.length :=
        (List.dropWhile_suffix isBlank).length_le
      have fold := length_skipFold_le rest
      omega⟩

/-- A string between three double quotes, after the quotes and the line end that may follow them. Up
to two quotes may stand before the closing ones. -/
def multilineBasic (s : List Char) : Scanned :=
  match s with
  | [] => none
  | '"' :: '"' :: '"' :: '"' :: '"' :: rest => some (['"', '"'], rest)
  | '"' :: '"' :: '"' :: '"' :: rest => some (['"'], rest)
  | '"' :: '"' :: '"' :: rest => some ([], rest)
  | '\n' :: rest => Scanned.cons '\n' (multilineBasic rest)
  | '\r' :: '\n' :: rest => Scanned.cons '\n' (multilineBasic rest)
  | '\\' :: rest =>
    match lineContinuation? rest with
    | some after => multilineBasic after.1
    | none =>
      match escape? rest with
      | none => none
      | some (c, after) => Scanned.cons c (multilineBasic after.1)
  | c :: rest => if isPrintable c then Scanned.cons c (multilineBasic rest) else none
termination_by s.length
decreasing_by
  · simp
  · simp only [List.length_cons]
    omega
  · have := after.2
    simp only [List.length_cons]
    omega
  · have := after.2
    simp only [List.length_cons]
    omega
  · simp

/-- A string between single quotes, after the first quote. -/
def literalString : List Char → Scanned
  | [] => none
  | '\'' :: rest => some ([], rest)
  | c :: rest => if isPrintable c then Scanned.cons c (literalString rest) else none

/-- A string between three single quotes, after the quotes and the line end that may follow them. -/
def multilineLiteral : List Char → Scanned
  | [] => none
  | '\'' :: '\'' :: '\'' :: '\'' :: '\'' :: rest => some (['\'', '\''], rest)
  | '\'' :: '\'' :: '\'' :: '\'' :: rest => some (['\''], rest)
  | '\'' :: '\'' :: '\'' :: rest => some ([], rest)
  | '\n' :: rest => Scanned.cons '\n' (multilineLiteral rest)
  | '\r' :: '\n' :: rest => Scanned.cons '\n' (multilineLiteral rest)
  | c :: rest => if isPrintable c then Scanned.cons c (multilineLiteral rest) else none

/-- The text without a line end at its start. -/
def trimNewline (s : List Char) : List Char := (newline? s).getD s

/-- A string of any kind. -/
def anyString : List Char → Scanned
  | '"' :: '"' :: '"' :: rest => multilineBasic (trimNewline rest)
  | '"' :: rest => basicString rest
  | '\'' :: '\'' :: '\'' :: rest => multilineLiteral (trimNewline rest)
  | '\'' :: rest => literalString rest
  | _ => none

/-- A character of a bare key. -/
def isBareKey (c : Char) : Bool := c.isAlphanum || c = '_' || c = '-'

/-- One part of a key: bare, or a string on one line. -/
def simpleKey : List Char → Scanned
  | '"' :: rest => basicString rest
  | '\'' :: rest => literalString rest
  | s => if (s.takeWhile isBareKey).isEmpty then none
    else some (s.takeWhile isBareKey, s.dropWhile isBareKey)

/-- The most parts of a key, and the most tables and arrays that may lie in one another. -/
def maxDepth : Nat := 79

/-- The parts of a key, at most `fuel`, separated by dots. -/
def keyParts : Nat → List Char → Option (List String × List Char)
  | 0, _ => none
  | fuel + 1, s =>
    match simpleKey (skipBlanks s) with
    | none => none
    | some (part, rest) =>
      let name := String.ofList part
      match skipBlanks rest with
      | '.' :: rest => (keyParts fuel rest).map fun (parts, rest) => (name :: parts, rest)
      | rest => some ([name], rest)

/-- A key: the path to a table and the name in it. -/
def keyPath (s : List Char) : Option ((List String × String) × List Char) :=
  match keyParts maxDepth s with
  | none => none
  | some (parts, rest) => parts.getLast?.map fun name => ((parts.dropLast, name), rest)

/-- Digits after the first one, with single underscores between digits. -/
def moreDigits (isDigit : Char → Bool) : List Char → Scanned
  | '_' :: c :: rest => if isDigit c then Scanned.cons c (moreDigits isDigit rest) else none
  | c :: rest => if isDigit c then Scanned.cons c (moreDigits isDigit rest) else some ([], c :: rest)
  | [] => some ([], [])

/-- Digits with single underscores between them. -/
def someDigits (isDigit : Char → Bool) : List Char → Scanned
  | c :: rest => if isDigit c then Scanned.cons c (moreDigits isDigit rest) else none
  | [] => none

/-- The digits of a whole number, which has no zeros before it. -/
def wholeDigits : List Char → Scanned
  | '0' :: rest => some (['0'], rest)
  | s => someDigits Char.isDigit s

/-- Whether a minus sign stands first, and the text after a sign. -/
def sign : List Char → Bool × List Char
  | '-' :: rest => (true, rest)
  | '+' :: rest => (false, rest)
  | s => (false, s)

/-- A digit of a base. -/
def isDigitOf (base : Nat) (c : Char) : Bool := (hexValue? c).any (· < base)

/-- Whether a number fits 64 signed bits. -/
def fitsLong (n : Int) : Bool := decide (-0x8000000000000000 ≤ n ∧ n < 0x8000000000000000)

/-- A number in a base, after its mark. -/
def based (base : Nat) (s : List Char) : Option (Int × List Char) :=
  match someDigits (isDigitOf base) s with
  | none => none
  | some (digits, rest) =>
    let n : Int := numberOf base digits
    if fitsLong n then some (n, rest) else none

/-- A whole number: with a mark in base 16, 8 or 2, else in base 10 and with an optional sign. -/
def integer : List Char → Option (Int × List Char)
  | '0' :: 'x' :: rest => based 16 rest
  | '0' :: 'o' :: rest => based 8 rest
  | '0' :: 'b' :: rest => based 2 rest
  | s =>
    let (negative, s) := sign s
    match wholeDigits s with
    | none => none
    | some (digits, rest) =>
      let n : Int := if negative then -numberOf 10 digits else numberOf 10 digits
      if fitsLong n then some (n, rest) else none

/-- Whether `n * 10 ^ e` rounds beyond the largest finite binary64 number. Far from that bound the
number of digits decides. -/
def overflows (n : Nat) (digits : Nat) (e : Int) : Bool :=
  if n = 0 then false
  else if (digits : Int) + e < 300 then false
  else if 400 + (digits : Int) < e then true
  else
    let limit := 1 <<< 1024 - 1 <<< 970
    if 0 ≤ e then decide (limit ≤ n * Nat.pow 10 e.toNat)
    else decide (limit * Nat.pow 10 (-e).toNat ≤ n)

/-- An exponent, after its letter. -/
def exponent (s : List Char) : Option (Int × List Char) :=
  let (negative, s) := sign s
  match someDigits Char.isDigit s with
  | none => none
  | some (digits, rest) =>
    some (if negative then -numberOf 10 digits else numberOf 10 digits, rest)

/-- The text after the word of a special number. -/
def specialFloat : List Char → Option (List Char)
  | 'i' :: 'n' :: 'f' :: rest => some rest
  | 'n' :: 'a' :: 'n' :: rest => some rest
  | _ => none

/-- Whether a letter begins an exponent. -/
def isExponentMark (c : Char) : Bool := c = 'e' || c = 'E'

/-- The text after a floating point number, which has a fraction, an exponent or both. A positive
one that is too large is refused. -/
def floating (s : List Char) : Option (List Char) :=
  let (negative, s) := sign s
  match wholeDigits s with
  | none => specialFloat s
  | some (whole, rest) =>
    let checked (digits : List Char) (e : Int) (rest : List Char) : Option (List Char) :=
      if !negative && overflows (numberOf 10 digits) digits.length e then none else some rest
    match rest with
    | '.' :: rest =>
      match someDigits Char.isDigit rest with
      | none => none
      | some (fraction, rest) =>
        let digits := whole ++ fraction
        match rest with
        | c :: after =>
          if isExponentMark c then
            match exponent after with
            | none => none
            | some (e, rest) => checked digits (e - fraction.length) rest
          else checked digits (-fraction.length) rest
        | [] => checked digits (-fraction.length) []
    | c :: after =>
      if isExponentMark c then
        match exponent after with
        | none => none
        | some (e, rest) => checked whole e rest
      else none
    | [] => none

/-- A number of exactly `count` digits. -/
def fixedDigits (count : Nat) (s : List Char) : Option (Nat × List Char) :=
  let digits := s.take count
  if digits.length = count ∧ digits.all Char.isDigit then
    some (numberOf 10 digits, s.drop count)
  else none

/-- A number of exactly `count` digits, within bounds. -/
def boundedDigits (count low high : Nat) (s : List Char) : Option (Nat × List Char) :=
  match fixedDigits count s with
  | none => none
  | some (n, rest) => if low ≤ n ∧ n ≤ high then some (n, rest) else none

/-- The text after a character. -/
def expect (c : Char) : List Char → Option (List Char)
  | [] => none
  | d :: rest => if d = c then some rest else none

/-- The number of days of a month. -/
def daysOf (year month : Nat) : Nat :=
  if month = 2 then
    if year % 4 = 0 ∧ (year % 100 ≠ 0 ∨ year % 400 = 0) then 29 else 28
  else if month = 4 ∨ month = 6 ∨ month = 9 ∨ month = 11 then 30
  else 31

/-- The text after a date. -/
def date (s : List Char) : Option (List Char) := do
  let (year, s) ← fixedDigits 4 s
  let s ← expect '-' s
  let (month, s) ← boundedDigits 2 1 12 s
  let s ← expect '-' s
  let (_, s) ← boundedDigits 2 1 (daysOf year month) s
  some s

/-- The text after a fraction of a second, if there is one. -/
def secondFraction : List Char → List Char
  | '.' :: c :: rest => if c.isDigit then rest.dropWhile Char.isDigit else '.' :: c :: rest
  | s => s

/-- The text after a time of day. A leap second is allowed. -/
def time (s : List Char) : Option (List Char) := do
  let (_, s) ← boundedDigits 2 0 23 s
  let s ← expect ':' s
  let (_, s) ← boundedDigits 2 0 59 s
  let s ← expect ':' s
  let (_, s) ← boundedDigits 2 0 60 s
  some (secondFraction s)

/-- The text after an offset from universal time, if there is one. -/
def offset : List Char → Option (List Char)
  | [] => some []
  | c :: rest =>
    if c = 'Z' ∨ c = 'z' then some rest
    else if c = '+' ∨ c = '-' then do
      let (_, s) ← boundedDigits 2 0 23 rest
      let s ← expect ':' s
      let (_, s) ← boundedDigits 2 0 59 s
      some s
    else some (c :: rest)

/-- The text after a date, a time, or a date with a time and perhaps an offset. -/
def dateTime (s : List Char) : Option (List Char) :=
  match date s with
  | none => time s
  | some [] => some []
  | some (c :: rest) =>
    if c = 'T' ∨ c = 't' ∨ c = ' ' then
      match time rest with
      | none => some (c :: rest)
      | some rest => offset rest
    else some (c :: rest)

end FragmentPipe.Toml
