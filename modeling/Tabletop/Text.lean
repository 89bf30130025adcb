/-! Texts are finite lists of code points. A blank is a character with the Unicode
property White_Space; trimming removes the blanks at both ends and nothing else. -/
namespace Tabletop

abbrev Text := List Char

namespace Text

def blankRanges : List (Nat × Nat) :=
  [(0x09, 0x0D), (0x20, 0x20), (0x85, 0x85), (0xA0, 0xA0), (0x1680, 0x1680), (0x2000, 0x200A),
   (0x2028, 0x2029), (0x202F, 0x202F), (0x205F, 0x205F), (0x3000, 0x3000)]

def isBlank (c : Char) : Bool :=
  blankRanges.any fun (low, high) => low ≤ c.toNat && c.toNat ≤ high

def trimStart (s : Text) : Text := s.dropWhile isBlank

def trimEnd (s : Text) : Text := (s.reverse.dropWhile isBlank).reverse

def trim (s : Text) : Text := s.trimStart.trimEnd

def join (separator : Text) : List Text → Text
  | [] => []
  | part :: rest => part ++ rest.flatMap (separator ++ ·)

/-! Decimal numerals in ASCII digits. Reading takes one optional sign and at least one digit,
leading zeros included, and refuses a value outside the stated range; writing gives the
shortest numeral. -/

def digitValue (c : Char) : Nat := c.toNat - 48

def digitsValue (start : Nat) (digits : Text) : Nat :=
  digits.foldl (fun n c => 10 * n + digitValue c) start

def nat? (s : Text) : Option Nat :=
  if s.isEmpty || !s.all Char.isDigit then none else some (digitsValue 0 s)

def unsigned? (bound : Nat) (s : Text) : Option Nat :=
  let digits := match s with
    | '+' :: rest => rest
    | _ => s
  (nat? digits).filter (· < bound)

def signed64? (s : Text) : Option Int :=
  let value := match s with
    | '-' :: rest => (nat? rest).map fun n => -Int.ofNat n
    | '+' :: rest => (nat? rest).map Int.ofNat
    | _ => (nat? s).map Int.ofNat
  value.filter fun x => -0x8000000000000000 ≤ x && x < 0x8000000000000000

def ofNat (n : Nat) : Text := Nat.toDigits 10 n

def ofInt : Int → Text
  | .ofNat n => ofNat n
  | .negSucc n => '-' :: ofNat (n + 1)

theorem digitsValueAppend (start : Nat) (s t : Text) :
    digitsValue start (s ++ t) = digitsValue (digitsValue start s) t := by
  simp [digitsValue]

theorem nat?Some {s : Text} {n : Nat} :
    nat? s = some n ↔ s ≠ [] ∧ (∀ c ∈ s, c.isDigit = true) ∧ digitsValue 0 s = n := by
  cases s <;> simp [nat?, and_assoc]

/-! Lines of a byte stream. A line ends at a line feed, which it does not include, nor a
carriage return right before it; bytes after the last line feed are a line of their own unless
there are none. -/

abbrev Bytes := List UInt8

def dropReturn (line : Bytes) : Bytes :=
  if line.getLast? = some 13 then line.dropLast else line

def linesFrom (current : Bytes) : Bytes → List Bytes
  | [] => if current.isEmpty then [] else [current.reverse]
  | b :: rest =>
    if b = 10 then dropReturn current.reverse :: linesFrom [] rest
    else linesFrom (b :: current) rest

def linesOf (stream : Bytes) : List Bytes := linesFrom [] stream

def decode? (bytes : Bytes) : Option Text :=
  (String.fromUTF8? ⟨bytes.toArray⟩).map String.toList

theorem linesOfNil : linesOf [] = [] := rfl

theorem linesFromStep (current : Bytes) (rest : Bytes) :
    linesFrom current (10 :: rest) = dropReturn current.reverse :: linesOf rest := by
  simp [linesFrom, linesOf]

/-! Quoted texts, as diagnostics show them: between double quotes, with a backslash form for
every character that would not show or would end the quotation. -/

/-- Control characters, and blanks other than the space. Combining marks, format characters such as
the zero-width space and the soft hyphen, and private or unassigned characters would need a backslash
form as well; here they stand for themselves, since what they are depends on the version of the
standard. -/
def isUnseen (c : Char) : Bool :=
  c.toNat < 0x20 || (0x7F ≤ c.toNat && c.toNat ≤ 0x9F) || (isBlank c && c != ' ')

def escaped (c : Char) : Text :=
  match c with
  | '"' => ['\\', '"']
  | '\\' => ['\\', '\\']
  | '\t' => ['\\', 't']
  | '\n' => ['\\', 'n']
  | '\r' => ['\\', 'r']
  | _ =>
    if c.toNat = 0 then ['\\', '0']
    else if isUnseen c then ['\\', 'u', '\x7b'] ++ Nat.toDigits 16 c.toNat ++ ['\x7d']
    else [c]

def quoted (s : Text) : Text := '"' :: s.flatMap escaped ++ ['"']

end Text
end Tabletop
