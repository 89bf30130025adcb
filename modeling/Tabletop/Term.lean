import Tabletop.Amount
import Tabletop.Dice.Roller
import Tabletop.Text
/-! Terms of an expression: why a text is refused, how it is read, and what is kept of it when the
dice have fallen. -/

/-! Why a term cannot be rolled. A rejection is a cause; its wording is one function of it. -/
namespace Tabletop

inductive Rejection where
  | manyMarkers
  | badCharacters (characters : Text)
  | badCount
  | badSize
  | tooManyDice (limit : Nat)
  | unrecognized
  deriving DecidableEq, Repr

namespace Rejection

inductive Kind where
  | manyMarkers
  | badCharacters
  | badCount
  | badSize
  | tooManyDice
  | unrecognized
  deriving DecidableEq, Repr

def kind : Rejection → Kind
  | .manyMarkers => .manyMarkers
  | .badCharacters _ => .badCharacters
  | .badCount => .badCount
  | .badSize => .badSize
  | .tooManyDice _ => .tooManyDice
  | .unrecognized => .unrecognized

def Kind.label : Kind → Text
  | manyMarkers => "multiple die markers".toList
  | badCharacters => "invalid character(s)".toList
  | badCount => "invalid number of dice".toList
  | badSize => "invalid die size".toList
  | tooManyDice => "too many dice".toList
  | unrecognized => "unrecognized input".toList

/-- The characters one by one, also repeated ones; exactly one of them is not a plural. -/
def charactersMessage (characters : Text) : Text :=
  let listed := Text.join ", ".toList (characters.map ([·]))
  match characters with
  | [_] => "invalid character: ".toList ++ listed
  | _ => "invalid characters: ".toList ++ listed

def message (reason : Rejection) : Text :=
  match reason with
  | .badCharacters characters => charactersMessage characters
  | .tooManyDice limit => "too many dice (limit ".toList ++ Text.ofNat limit ++ ")".toList
  | _ => reason.kind.label

end Rejection

/-! How the text of one term is read: as dice when it holds exactly one die marker, as a flat
number when it holds none. A rejection is the first cause that applies, in the order markers,
characters, count, size, limit. -/

inductive Reading where
  | dice (count faces : Nat)
  | modifier (value : Nat)
  | rejected (reason : Rejection)
  deriving DecidableEq, Repr

namespace Reading

def isMarker (c : Char) : Bool := c == 'd' || c == 'D'

def isRejected : Reading → Bool
  | rejected _ => true
  | _ => false

def isDiceCharacter (c : Char) : Bool := c.isDigit || isMarker c || Text.isBlank c

def splitMarker? (s : Text) : Option (Text × Text) :=
  match s.dropWhile (!isMarker ·) with
  | [] => none
  | _ :: after => some (s.takeWhile (!isMarker ·), after)

/-- A positive 32-bit number; zero stands for everything else. -/
def number (s : Text) : Nat := (Text.unsigned? UInt32.size s).getD 0

def count (s : Text) : Nat := if s = [] then 1 else number s

def ofFlat (s : Text) : Reading :=
  match Text.signed64? s with
  | some (.ofNat value) => modifier value
  | _ => rejected .unrecognized

def ofNumbers (limit count faces : Nat) : Reading :=
  if count = 0 then rejected .badCount
  else if faces = 0 then rejected .badSize
  else if limit < count then rejected (.tooManyDice limit)
  else dice count faces

def ofDice (limit : Nat) (s : Text) : Reading :=
  match s.filter (!isDiceCharacter ·) with
  | [] =>
    match splitMarker? s with
    | some (before, after) => ofNumbers limit (count (Text.trim before)) (number (Text.trim after))
    | none => rejected .unrecognized
  | bad => rejected (.badCharacters bad)

def ofText (limit : Nat) (s : Text) : Reading :=
  match s.countP isMarker with
  | 0 => ofFlat s
  | 1 => ofDice limit s
  | _ => rejected .manyMarkers

theorem ofNumbersDice {limit c f : Nat} :
    ofNumbers limit c f = dice c f ↔ c ≠ 0 ∧ f ≠ 0 ∧ c ≤ limit := by
  unfold ofNumbers
  repeat' split
  all_goals simp_all

end Reading

/-! Rolled terms. A dice term keeps every single outcome; a term that could not be rolled keeps
its text and the cause, and adds nothing. -/

structure DiceTerm where
  count : Nat
  faces : Nat
  zeroBased : Bool
  outcomes : List Nat
  sign : Sign
  deriving DecidableEq, Repr

structure ModifierTerm where
  value : Nat
  sign : Sign
  deriving DecidableEq, Repr

structure InvalidTerm where
  raw : Text
  sign : Sign
  reason : Rejection
  deriving DecidableEq, Repr

inductive Term where
  | dice (term : DiceTerm)
  | modifier (term : ModifierTerm)
  | invalid (term : InvalidTerm)
  deriving DecidableEq, Repr

namespace DiceTerm

def range (d : DiceTerm) : FaceRange :=
  let low := (!d.zeroBased).toNat
  ⟨low, d.faces - 1 + low⟩

/-- Added one by one in 64-bit words. -/
def sum (d : DiceTerm) : Int :=
  d.outcomes.foldl (fun (total : Int) (x : Nat) => Amount.wrap (total + x)) 0

def signedSum (d : DiceTerm) : Int := d.sign.apply d.sum

end DiceTerm

def ModifierTerm.signedSum (m : ModifierTerm) : Int := m.sign.apply m.value

def InvalidTerm.signedSum (_ : InvalidTerm) : Int := 0

namespace Term

def sign : Term → Sign
  | dice d => d.sign
  | modifier m => m.sign
  | invalid i => i.sign

def signedSum : Term → Int
  | dice d => d.signedSum
  | modifier m => m.signedSum
  | invalid i => i.signedSum

def isInvalid : Term → Bool
  | invalid _ => true
  | _ => false

def dice? : Term → Option DiceTerm
  | dice d => some d
  | _ => none

def modifier? : Term → Option ModifierTerm
  | modifier m => some m
  | _ => none

def invalid? : Term → Option InvalidTerm
  | invalid i => some i
  | _ => none

end Term
end Tabletop
