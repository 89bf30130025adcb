import Tabletop.Term
/-! What an evaluation reports while it runs: each segment as it is read, each term that is
refused, and the finished expression. -/
namespace Tabletop

inductive Level where
  | trace
  | debug
  | info
  deriving DecidableEq, Repr

namespace Level

def rank : Level → Nat
  | trace => 0
  | debug => 1
  | info => 2

def name : Level → Text
  | trace => "TRACE".toList
  | debug => "DEBUG".toList
  | info => "INFO".toList

end Level

inductive Event where
  | segment (sign : Sign) (text : Text)
  | invalidTerm (term : Text) (reason : Rejection)
  | rolled (input : Text) (terms : Nat) (total : Int)
  deriving DecidableEq, Repr

namespace Event

def level : Event → Level
  | segment _ _ => .trace
  | invalidTerm _ _ => .debug
  | rolled _ _ _ => .debug

def message : Event → Text
  | segment _ _ => "segment".toList
  | invalidTerm _ _ => "invalid term".toList
  | rolled _ _ _ => "rolled expression".toList

def fields : Event → List (Text × Text)
  | segment sign text => [("sign".toList, [sign.operator]), ("text".toList, text)]
  | invalidTerm term reason => [("term".toList, term), ("error".toList, reason.message)]
  | rolled input terms total =>
    [("input".toList, input), ("terms".toList, Text.ofNat terms), ("total".toList, Text.ofInt total)]

def visible (level : Level) (log : List Event) : List Event :=
  log.filter fun e => level.rank ≤ e.level.rank

theorem visibleTrace (log : List Event) : visible .trace log = log := by
  simp [visible, Level.rank]

end Event
end Tabletop
