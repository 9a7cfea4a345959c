namespace JsonTemplate.Text

-- The 25 code points with the Unicode property White_Space.
def isBlank (c : Char) : Bool :=
  (0x09 ≤ c.toNat && c.toNat ≤ 0x0D) || c.toNat == 0x20 || c.toNat == 0x85 || c.toNat == 0xA0 ||
    c.toNat == 0x1680 || (0x2000 ≤ c.toNat && c.toNat ≤ 0x200A) || c.toNat == 0x2028 ||
    c.toNat == 0x2029 || c.toNat == 0x202F || c.toNat == 0x205F || c.toNat == 0x3000

def trimStart (text : List Char) : List Char := text.dropWhile isBlank

def trimEnd (text : List Char) : List Char := (text.reverse.dropWhile isBlank).reverse

-- Leaves out blanks at both ends.
def trim (text : List Char) : List Char := trimEnd (trimStart text)

-- The value of a hexadecimal digit of either case.
def hexValue? (c : Char) : Option Nat :=
  if c.isDigit then some (c.toNat - '0'.toNat)
  else if 'a' ≤ c ∧ c ≤ 'f' then some (c.toNat - 'a'.toNat + 10)
  else if 'A' ≤ c ∧ c ≤ 'F' then some (c.toNat - 'A'.toNat + 10)
  else none

-- The value of a text of hexadecimal digits that follow a number.
def hexNumber? (start : Nat) : List Char → Option Nat
  | [] => some start
  | c :: rest => (hexValue? c).bind fun digit => hexNumber? (16 * start + digit) rest

-- Characters that end a line where places are counted. A carriage return and the line feed after it
-- end one line together.
def endsLine (c : Char) : Bool :=
  c = '\n' || c = '\r' || c = '\x0b' || c = '\x0c' || c = '\u0085' || c = '\u2028' || c = '\u2029'

-- The line and the column of the character at a position, both counted from one. A line begins
-- where a character follows the end of the line before it.
def lineAndColumn (text : List Char) (position : Nat) : Nat × Nat :=
  go text position 1 1
where
  go : List Char → Nat → Nat → Nat → Nat × Nat
    | c :: next :: rest, position + 1, line, column =>
        if endsLine c && !(c = '\r' && next = '\n') then go (next :: rest) position (line + 1) 1
        else go (next :: rest) position line (column + 1)
    | [_], position + 1, line, column => (line, column + 1 + position)
    | _, _, line, column => (line, column)

-- The lines of a printed text: each ends with a line feed, with or without a carriage return before.
def lines : List Char → List (List Char)
  | [] => []
  | '\r' :: '\n' :: rest => [] :: lines rest
  | '\n' :: rest => [] :: lines rest
  | c :: rest =>
      match lines rest with
      | line :: others => (c :: line) :: others
      | [] => [[c]]

end JsonTemplate.Text
