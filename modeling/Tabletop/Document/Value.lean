import Tabletop.Text
/-! Values of a TOML document. A table remembers how it came to be, because that decides whether
a later line may add to it. Floats and dates keep their written form only. -/
namespace Tabletop.Document

/-- By its own header, on the way to another header, by a dotted key, or in braces. -/
inductive Origin where
  | header
  | implied
  | dotted
  | inline
  deriving DecidableEq, Repr

inductive Value where
  | string (s : Text)
  | integer (n : Int)
  | boolean (b : Bool)
  | other (written : Text)
  | array (items : List Value)
  | tables (items : List (List (Text × Value)))
  | table (origin : Origin) (entries : List (Text × Value))
  deriving Repr

abbrev Entries := List (Text × Value)

structure Key where
  path : List Text
  name : Text
  deriving DecidableEq, Repr

end Tabletop.Document

/-! Bare scalars. An integer is decimal with an optional sign and no leading zero, or has one of
the bases 16, 8 and 2 behind its mark; a single underscore may stand between two digits. Floats
and dates are told by how they begin and are kept as they are written. -/
namespace Tabletop.Document.Scalar

def isBare (c : Char) : Bool := c.isAlphanum || "+-_.:".toList.contains c

def digit? (base : Nat) (c : Char) : Option Nat :=
  let value :=
    if c.isDigit then c.toNat - 48
    else if 'a' ≤ c ∧ c ≤ 'f' then c.toNat - 87
    else if 'A' ≤ c ∧ c ≤ 'F' then c.toNat - 55
    else base
  if value < base then some value else none

def digits? (base start : Nat) : Text → Option Nat
  | [] => none
  | [c] => (digit? base c).map (base * start + ·)
  | c :: '_' :: rest => (digit? base c).bind fun d => digits? base (base * start + d) rest
  | c :: rest => (digit? base c).bind fun d => digits? base (base * start + d) rest

def decimal? : Text → Option Nat
  | ['0'] => some 0
  | '0' :: _ => none
  | s => digits? 10 0 s

def integer? (s : Text) : Option Int :=
  let value : Option Int := match s with
    | '0' :: 'x' :: rest => (digits? 16 0 rest).map Int.ofNat
    | '0' :: 'o' :: rest => (digits? 8 0 rest).map Int.ofNat
    | '0' :: 'b' :: rest => (digits? 2 0 rest).map Int.ofNat
    | '-' :: rest => (decimal? rest).map fun n => -Int.ofNat n
    | '+' :: rest => (decimal? rest).map Int.ofNat
    | _ => (decimal? s).map Int.ofNat
  value.filter fun n => -0x8000000000000000 ≤ n && n < 0x8000000000000000

def isOther (s : Text) : Bool :=
  match s with
  | [] => false
  | c :: _ => c.isDigit || c == '+' || c == '-' || s == "inf".toList || s == "nan".toList

def ofText? (s : Text) : Option Value :=
  if s = "true".toList then some (.boolean true)
  else if s = "false".toList then some (.boolean false)
  else match integer? s with
    | some n => some (.integer n)
    | none => if isOther s then some (.other s) else none

def read (s : Text) : Option (Value × Text) :=
  (ofText? (s.takeWhile isBare)).map fun value => (value, s.dropWhile isBare)

end Tabletop.Document.Scalar

/-! The four kinds of quoted strings. Double quotes take escapes and single quotes do not; three
quotes let the string run over several lines. -/
namespace Tabletop.Document.Quotation

def isPlain (c : Char) : Bool := c == '\t' || (0x20 ≤ c.toNat && c.toNat != 0x7F)

def isGap (c : Char) : Bool := c == ' ' || c == '\t'

def single? : Char → Option Char
  | 'b' => some '\x08'
  | 't' => some '\t'
  | 'n' => some '\n'
  | 'f' => some '\x0c'
  | 'r' => some '\r'
  | '"' => some '"'
  | '\\' => some '\\'
  | _ => none

def coded? (digits : Text) : Option Char :=
  ((digits.mapM (Scalar.digit? 16)).map fun ds => ds.foldl (16 * · + ·) 0).bind fun code =>
    if code.isValidChar then some (Char.ofNat code) else none

def escape? : Text → Option (Char × Text)
  | 'u' :: rest =>
    if rest.length < 4 then none else (coded? (rest.take 4)).map fun c => (c, rest.drop 4)
  | 'U' :: rest =>
    if rest.length < 8 then none else (coded? (rest.take 8)).map fun c => (c, rest.drop 8)
  | c :: rest => (single? c).map fun c => (c, rest)
  | [] => none

def basic (fuel : Nat) (read : Text) (s : Text) : Option (Text × Text) :=
  match fuel, s with
  | 0, _ => none
  | _ + 1, [] => none
  | _ + 1, '"' :: rest => some (read.reverse, rest)
  | fuel + 1, '\\' :: rest => (escape? rest).bind fun (c, rest) => basic fuel (c :: read) rest
  | fuel + 1, c :: rest => if isPlain c then basic fuel (c :: read) rest else none

def literal (read : Text) : Text → Option (Text × Text)
  | [] => none
  | '\'' :: rest => some (read.reverse, rest)
  | c :: rest => if isPlain c then literal (c :: read) rest else none

def lineBreak? : Text → Option Text
  | '\n' :: rest => some rest
  | '\r' :: '\n' :: rest => some rest
  | _ => none

def dropBreak (s : Text) : Text := (lineBreak? s).getD s

def dropGaps : Text → Text
  | '\n' :: rest => dropGaps rest
  | '\r' :: '\n' :: rest => dropGaps rest
  | ' ' :: rest => dropGaps rest
  | '\t' :: rest => dropGaps rest
  | s => s

def continued? (s : Text) : Option Text := (lineBreak? (s.dropWhile isGap)).map dropGaps

/-- A closing run of three quotes, with up to two quotes that belong to the string. -/
def close? (quote : Char) (s : Text) : Option (Text × Text) :=
  let run := (s.takeWhile (· == quote)).length
  if run < 3 then none
  else
    let kept := min (run - 3) 2
    some (List.replicate kept quote, s.drop (kept + 3))

def lines (quote : Char) (fuel : Nat) (read : Text) (s : Text) : Option (Text × Text) :=
  match fuel with
  | 0 => none
  | fuel + 1 =>
    match close? quote s with
    | some (kept, rest) => some (read.reverse ++ kept, rest)
    | none =>
      match s with
      | [] => none
      | '\r' :: '\n' :: rest => lines quote fuel ('\n' :: read) rest
      | '\n' :: rest => lines quote fuel ('\n' :: read) rest
      | c :: rest =>
        if quote = '"' ∧ c = '\\' then
          match continued? rest with
          | some rest => lines quote fuel read rest
          | none => (escape? rest).bind fun (c, rest) => lines quote fuel (c :: read) rest
        else if isPlain c then lines quote fuel (c :: read) rest else none

def line? : Text → Option (Text × Text)
  | '"' :: rest => basic (rest.length + 1) [] rest
  | '\'' :: rest => literal [] rest
  | _ => none

def string? (s : Text) : Option (Text × Text) :=
  match s with
  | '"' :: '"' :: '"' :: rest => lines '"' (rest.length + 1) [] (dropBreak rest)
  | '\'' :: '\'' :: '\'' :: rest => lines '\'' (rest.length + 1) [] (dropBreak rest)
  | _ => line? s

end Tabletop.Document.Quotation
