import Tabletop.Expression.Reader
/-! What a roll is asked with: the numbering of the dice and the most dice in one term. -/
namespace Tabletop

def defaultMaxDice : Nat := 1000

def maxDiceCeiling : Nat := 100000

structure Options where
  numbering : Numbering := {}
  maxDice : Nat := defaultMaxDice
  deriving DecidableEq, Repr

namespace Options

instance : Inhabited Options := ⟨{}⟩

def withZeroBasedTen (o : Options) (on : Bool) : Options :=
  { o with numbering.zeroBasedTen := on }

def withZeroBasedHundred (o : Options) (on : Bool) : Options :=
  { o with numbering.zeroBasedHundred := on }

def withMaxDice (o : Options) (limit : Nat) : Options := { o with maxDice := limit }

end Options

/-! The outcome of one expression: its text as given and its terms in source order. The total
adds the signed sums from left to right and stays within 64 bits at every addition. -/

structure Outcome where
  input : Text
  terms : List Term
  deriving DecidableEq, Repr

namespace Outcome

def diceTerms (o : Outcome) : List DiceTerm := o.terms.filterMap Term.dice?
def modifierTerms (o : Outcome) : List ModifierTerm := o.terms.filterMap Term.modifier?
def invalidTerms (o : Outcome) : List InvalidTerm := o.terms.filterMap Term.invalid?
def hasErrors (o : Outcome) : Bool := o.terms.any Term.isInvalid
def isEmpty (o : Outcome) : Bool := o.terms.isEmpty

def totalOf (terms : List Term) : Int :=
  terms.foldl (fun total t => Amount.clamp (total + t.signedSum)) 0

def total (o : Outcome) : Int := totalOf o.terms

theorem totalFits (o : Outcome) : Amount.Fits o.total := by
  rw [total, totalOf, ← List.reverse_reverse o.terms, List.foldl_reverse]
  cases o.terms.reverse with
  | nil => decide
  | cons t rest => exact Amount.clampFits _

end Outcome

/-! Evaluation of an expression. The segments are read first; then each is turned into one term,
in source order, and only a valid dice term moves the roller. -/

structure Evaluation (σ : Type) where
  outcome : Outcome
  log : List Event
  after : σ

namespace Evaluation
variable {σ : Type}

def term (o : Options) (r : Roller σ) (segment : Segment) (s : σ) : Term × List Event × σ :=
  match Reading.ofText o.maxDice segment.text with
  | .dice count faces =>
    let (outcomes, after) := r.outcomes o.numbering count faces s
    (.dice ⟨count, faces, o.numbering.isZeroBased faces, outcomes, segment.sign⟩, [], after)
  | .modifier value => (.modifier ⟨value, segment.sign⟩, [], s)
  | .rejected reason =>
    (.invalid ⟨segment.text, segment.sign, reason⟩, [.invalidTerm segment.text reason], s)

def terms (o : Options) (r : Roller σ) : List Segment → σ → List Term × List Event × σ
  | [], s => ([], [], s)
  | segment :: rest, s =>
    let (head, reported, between) := term o r segment s
    let (tail, others, after) := terms o r rest between
    (head :: tail, reported ++ others, after)

end Evaluation

/-- The segments are read to the end before the first term is made, so their reports come first. -/
def evaluate {σ : Type} (o : Options) (r : Roller σ) (input : Text) (s : σ) : Evaluation σ :=
  let (read, announced) := Segment.collect .positive (Token.scan (Text.trim input))
  let (terms, reported, after) := Evaluation.terms o r read s
  let outcome : Outcome := ⟨input, terms⟩
  ⟨outcome, announced ++ reported ++ [.rolled input terms.length outcome.total], after⟩

theorem evaluateTerms {σ : Type} (o : Options) (r : Roller σ) (input : Text) (s : σ) :
    (evaluate o r input s).outcome.terms = (Evaluation.terms o r (segments input) s).1 := rfl

end Tabletop
