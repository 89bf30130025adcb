import Tabletop.Roll.Event
/-! Tokens of an expression: the two operators, and the longest runs of other characters
between them. Every character belongs to exactly one token. -/
namespace Tabletop

inductive Token where
  | operator (sign : Sign)
  | text (run : Text)
  deriving DecidableEq, Repr

namespace Token

def source : Token → Text
  | operator sign => [sign.operator]
  | text run => run

/-- One more character in front: an operator stands alone, any other character joins the run
that begins right after it. -/
def push (c : Char) (tokens : List Token) : List Token :=
  match Sign.ofOperator? c, tokens with
  | some sign, _ => operator sign :: tokens
  | none, text run :: rest => text (c :: run) :: rest
  | none, _ => text [c] :: tokens

def scan (s : Text) : List Token := s.foldr push []

theorem sourcePush (c : Char) (tokens : List Token) :
    (push c tokens).flatMap source = c :: tokens.flatMap source := by
  unfold push
  split
  · rename_i found
    simp [source, Sign.operatorOfOperator found]
  · simp [source]
  · simp [source]

theorem sourceScan (s : Text) : (scan s).flatMap source = s := by
  induction s with
  | nil => rfl
  | cons c rest ih =>
    have step : scan (c :: rest) = push c (scan rest) := rfl
    rw [step, sourcePush, ih]

end Token

/-! An expression is a list of signed texts. Of the operators before a text the last one
counts; an operator that no text follows leaves no trace, and blanks around a text are not
part of it. -/

structure Segment where
  sign : Sign
  text : Text
  deriving DecidableEq, Repr

namespace Segment

def event (segment : Segment) : Event := .segment segment.sign segment.text

/-- The segments of the tokens under a first sign. Each is reported when it is handed out, before
the tokens after it are read. -/
def collect (sign : Sign) : List Token → List Segment × List Event
  | [] => ([], [])
  | .operator next :: rest => collect next rest
  | .text run :: rest =>
    if Text.trim run = [] then collect sign rest
    else
      let segment : Segment := ⟨sign, Text.trim run⟩
      let (later, reported) := collect .positive rest
      (segment :: later, segment.event :: reported)

def ofTokens (sign : Sign) (tokens : List Token) : List Segment := (collect sign tokens).1

theorem ofTokensBlank {run : Text} (blank : Text.trim run = []) (sign : Sign) (rest : List Token) :
    ofTokens sign (.text run :: rest) = ofTokens sign rest := by
  rw [ofTokens, collect, if_pos blank, ofTokens]

theorem ofTokensText {run : Text} (text : Text.trim run ≠ []) (sign : Sign) (rest : List Token) :
    ofTokens sign (.text run :: rest) = ⟨sign, Text.trim run⟩ :: ofTokens .positive rest := by
  rw [ofTokens, collect, if_neg text, ofTokens]

end Segment

def segments (input : Text) : List Segment :=
  Segment.ofTokens .positive (Token.scan (Text.trim input))

/-! A reader hands out the segments of an expression one at a time. What it keeps between two
calls is the unread tokens; each call starts with a positive sign. -/

structure Reader where
  unread : List Token
  deriving DecidableEq, Repr

namespace Reader

def ofText (input : Text) : Reader := ⟨Token.scan (Text.trim input)⟩

def nextFrom (sign : Sign) : List Token → Option Segment × List Token
  | [] => (none, [])
  | .operator next :: rest => nextFrom next rest
  | .text run :: rest =>
    if Text.trim run = [] then nextFrom sign rest
    else (some ⟨sign, Text.trim run⟩, rest)

def next (r : Reader) : Option Segment × Reader :=
  let (segment, unread) := nextFrom .positive r.unread
  (segment, ⟨unread⟩)

def rest (r : Reader) : List Segment := Segment.ofTokens .positive r.unread

def take (r : Reader) : Nat → List (Option Segment) × Reader
  | 0 => ([], r)
  | n + 1 =>
    let (answer, after) := r.next
    let (answers, last) := after.take n
    (answer :: answers, last)

theorem restOfText (input : Text) : (ofText input).rest = segments input := rfl

end Reader
end Tabletop
