import Tabletop.Expression.Reader
import Tabletop.Proofs.Text.Trim

/-! An expression as a split that keeps no state. The text is cut at every operator; a piece has
the sign of the operator right before it, and pieces that are blank are left out. Reading the
tokens one after the other gives the same segments. -/

/-! The token rules on their own: each operator is a token, and a text is the longest run of
other characters. The scan follows them on every text. -/
namespace Tabletop.Token

def isOperator (c : Char) : Bool := c == '+' || c == '-'

def Plain (run : Text) : Prop := ∀ c ∈ run, isOperator c = false

instance (run : Text) : Decidable (Plain run) := List.decidableBAll (isOperator · = false) run

/- A text token ends where an operator follows or nothing does, so it can not be cut short. -/
inductive Lexes : Text → List Token → Prop where
  | done : Lexes [] []
  | operator (sign : Sign) {rest tokens} (next : Lexes rest tokens) :
      Lexes (sign.operator :: rest) (.operator sign :: tokens)
  | text {run rest tokens} (nonempty : run ≠ []) (plain : Plain run)
      (longest : ∀ c ∈ rest.head?, isOperator c = true) (next : Lexes rest tokens) :
      Lexes (run ++ rest) (.text run :: tokens)

theorem operatorIsOperator (sign : Sign) : isOperator sign.operator = true := by
  cases sign <;> rfl

theorem operatorExists {c : Char} (h : isOperator c = true) : ∃ sign : Sign, c = sign.operator := by
  simp only [isOperator, Bool.or_eq_true, beq_iff_eq] at h
  rcases h with rfl | rfl
  · exact ⟨.positive, rfl⟩
  · exact ⟨.negative, rfl⟩

theorem noOperator {c : Char} : Sign.ofOperator? c = none ↔ isOperator c = false := by
  constructor
  · intro none
    apply Bool.eq_false_iff.mpr
    intro found
    obtain ⟨sign, rfl⟩ := operatorExists found
    rw [Sign.ofOperatorOperator] at none
    contradiction
  · intro other
    cases found : Sign.ofOperator? c with
    | none => rfl
    | some sign =>
      rw [← Sign.operatorOfOperator found, operatorIsOperator] at other
      contradiction

theorem plainCons {c : Char} {run : Text} (head : isOperator c = false) (tail : Plain run) :
    Plain (c :: run) := by
  intro d member
  rcases List.mem_cons.mp member with rfl | later
  · exact head
  · exact tail d later

theorem lexesPush {rest : Text} {tokens : List Token} (c : Char) (lexed : Lexes rest tokens) :
    Lexes (c :: rest) (push c tokens) := by
  cases found : Sign.ofOperator? c with
  | some sign =>
    rw [← Sign.operatorOfOperator found]
    simpa only [push, Sign.ofOperatorOperator] using Lexes.operator sign lexed
  | none =>
    have other : isOperator c = false := noOperator.mp found
    have alone : Plain [c] := plainCons other (by simp [Plain])
    cases lexed with
    | done =>
      have step := Lexes.text (by simp) alone (by simp) .done
      simpa only [push, found, List.append_nil] using step
    | @operator sign later _ next =>
      have stop : ∀ d ∈ (sign.operator :: later).head?, isOperator d = true := by
        intro d member
        cases Option.some.inj member
        exact operatorIsOperator sign
      have step := Lexes.text (by simp) alone stop (.operator sign next)
      simpa only [push, found, List.cons_append, List.nil_append] using step
    | text nonempty plain longest next =>
      have step := Lexes.text (by simp) (plainCons other plain) longest next
      simpa only [push, found, List.cons_append] using step

theorem lexesScan (s : Text) : Lexes s (scan s) := by
  induction s with
  | nil => exact .done
  | cons c rest ih => exact lexesPush c ih

end Tabletop.Token

namespace Tabletop

def Sign.lead : Sign → Text
  | positive => []
  | negative => ['-']

namespace Segment
open Token (isOperator Plain Lexes)
open Text (trim Blanks)

def pieces (s : Text) : List Text := s.splitOnP isOperator

def operators (s : Text) : List Sign := s.filterMap Sign.ofOperator?

def split (sign : Sign) (s : Text) : List Segment :=
  (List.zipWith (fun sign piece => ⟨sign, trim piece⟩) (sign :: operators s) (pieces s)).filter
    (·.text ≠ [])

theorem piecesAppend (s : Text) (sign : Sign) (t : Text) :
    pieces (s ++ sign.operator :: t) = pieces s ++ pieces t :=
  List.splitOnP_append_cons s t (Token.operatorIsOperator sign)

theorem operatorsAppend (s : Text) (sign : Sign) (t : Text) :
    operators (s ++ sign.operator :: t) = operators s ++ sign :: operators t := by
  simp [operators, Sign.ofOperatorOperator]

theorem operatorsPlain {run : Text} (plain : Plain run) : operators run = [] := by
  apply List.filterMap_eq_nil_iff.mpr
  intro c member
  exact Token.noOperator.mpr (plain c member)

theorem operatorInduction {motive : Text → Prop} (run : ∀ run, Plain run → motive run)
    (next : ∀ run (sign : Sign) rest, Plain run → motive rest →
      motive (run ++ sign.operator :: rest))
    (s : Text) : motive s := by
  -- Characters join the run in front until an operator ends it.
  have extended : ∀ s before, Plain before → motive (before ++ s) := by
    intro s
    induction s with
    | nil =>
      intro before plain
      simpa using run before plain
    | cons c rest ih =>
      intro before plain
      cases operator : isOperator c with
      | true =>
        obtain ⟨sign, rfl⟩ := Token.operatorExists operator
        exact next before sign rest plain (ih [] (by simp [Plain]))
      | false =>
        have longer : Plain (before ++ [c]) := by
          intro d member
          rcases List.mem_append.mp member with early | last
          · exact plain d early
          · exact List.mem_singleton.mp last ▸ operator
        simpa using ih (before ++ [c]) longer
  exact extended s [] (by simp [Plain])

theorem piecesLength (s : Text) : (pieces s).length = (operators s).length + 1 := by
  induction s using operatorInduction with
  | run run plain =>
    rw [pieces, List.splitOnP_eq_singleton plain, operatorsPlain plain]
    rfl
  | next run sign rest plain ih =>
    rw [piecesAppend, operatorsAppend, pieces, List.splitOnP_eq_singleton plain,
      operatorsPlain plain]
    simp [ih]

/- The one equation on which every statement about neighbouring texts rests. -/
theorem splitAppend (first : Sign) (s : Text) (sign : Sign) (t : Text) :
    split first (s ++ sign.operator :: t) = split first s ++ split sign t := by
  have aligned : (first :: operators s).length = (pieces s).length := by
    rw [piecesLength, List.length_cons]
  unfold split
  rw [piecesAppend, operatorsAppend, ← List.cons_append, List.zipWith_append aligned,
    List.filter_append]

theorem splitPlain (sign : Sign) {run : Text} (plain : Plain run) :
    split sign run = if trim run = [] then [] else [⟨sign, trim run⟩] := by
  rw [split, pieces, List.splitOnP_eq_singleton plain, operatorsPlain plain]
  by_cases h : trim run = [] <;> simp [h]

theorem splitNil (sign : Sign) : split sign [] = [] := by
  simp [split, operators, pieces, trim, Text.trimStart, Text.trimEnd]

theorem splitOperator (first sign : Sign) (t : Text) :
    split first (sign.operator :: t) = split sign t := by
  simpa only [splitNil, List.nil_append] using splitAppend first [] sign t

theorem blanksPlain {w : Text} (blank : Blanks w) : Plain w := by
  intro c member
  apply Bool.eq_false_iff.mpr
  intro found
  obtain ⟨sign, rfl⟩ := Token.operatorExists found
  have seen := blank _ member
  cases sign <;> revert seen <;> decide

theorem plainAppend {s t : Text} (first : Plain s) (second : Plain t) : Plain (s ++ t) := by
  intro c member
  rcases List.mem_append.mp member with early | late
  · exact first c early
  · exact second c late

theorem splitBlanksLeft {w : Text} (blank : Blanks w) (sign : Sign) (s : Text) :
    split sign (w ++ s) = split sign s := by
  induction s using operatorInduction with
  | run run plain =>
    rw [splitPlain sign (plainAppend (blanksPlain blank) plain), splitPlain sign plain,
      Text.trimBlanksLeft blank]
  | next run next rest plain _ =>
    rw [← List.append_assoc, splitAppend, splitAppend, splitPlain sign plain,
      splitPlain sign (plainAppend (blanksPlain blank) plain), Text.trimBlanksLeft blank]

theorem splitBlanksRight {w : Text} (blank : Blanks w) (sign : Sign) (s : Text) :
    split sign (s ++ w) = split sign s := by
  induction s using operatorInduction generalizing sign with
  | run run plain =>
    rw [splitPlain sign (plainAppend plain (blanksPlain blank)), splitPlain sign plain,
      Text.trimBlanksRight blank]
  | next run next rest plain ih =>
    rw [List.append_assoc, List.cons_append, splitAppend, splitAppend, ih next]

theorem splitTrim (sign : Sign) (s : Text) : split sign (trim s) = split sign s := by
  obtain ⟨before, after, early, late, parts⟩ := Text.trimParts s
  calc split sign (trim s)
      = split sign (before ++ trim s) := (splitBlanksLeft early sign _).symm
    _ = split sign (before ++ trim s ++ after) := (splitBlanksRight late sign _).symm
    _ = split sign s := by rw [← parts]

/- The sign in force carries over blank runs and ends with a text. After a text there is an
operator or nothing, so that the sign it leaves behind is never used. -/
theorem ofTokensSplit {s : Text} {tokens : List Token} (lexed : Lexes s tokens) (sign : Sign) :
    ofTokens sign tokens = split sign s := by
  induction lexed generalizing sign with
  | done =>
    rw [splitNil]
    rfl
  | operator next _ ih =>
    rw [splitOperator]
    exact ih next
  | @text run rest tokens nonempty plain longest next ih =>
    have unsigned : ∀ other, split sign (run ++ rest) = split sign run ++ split other rest := by
      intro other
      cases rest with
      | nil => rw [splitNil, List.append_nil, List.append_nil]
      | cons c tail =>
        obtain ⟨operator, rfl⟩ := Token.operatorExists (longest c rfl)
        rw [splitAppend, splitOperator]
    by_cases blank : trim run = []
    · rw [ofTokensBlank blank, ih sign, unsigned sign, splitPlain sign plain, if_pos blank,
        List.nil_append]
    · rw [ofTokensText blank, ih .positive, unsigned .positive, splitPlain sign plain,
        if_neg blank, List.singleton_append]

theorem segmentsSplit (input : Text) : segments input = split .positive input := by
  rw [segments, ofTokensSplit (Token.lexesScan _), splitTrim]

theorem segmentsLead (sign : Sign) (t : Text) : segments (sign.lead ++ t) = split sign t := by
  cases sign with
  | positive => exact segmentsSplit t
  | negative =>
    rw [segmentsSplit]
    exact splitOperator .positive .negative t

theorem splitBlanks {w : Text} (blank : Blanks w) (sign : Sign) : split sign w = [] := by
  simpa only [List.append_nil, splitNil] using splitBlanksLeft blank sign []

theorem earlierOperatorIgnored {w : Text} (blank : Blanks w) (s : Text) (sign last : Sign)
    (t : Text) :
    segments (s ++ sign.operator :: (w ++ last.operator :: t)) =
      segments (s ++ last.operator :: t) := by
  simp only [segmentsSplit, splitAppend, splitBlanks blank, List.nil_append]

theorem lastOperatorIgnored {w : Text} (blank : Blanks w) (s : Text) (sign : Sign) :
    segments (s ++ sign.operator :: w) = segments s := by
  simp only [segmentsSplit, splitAppend, splitBlanks blank, List.append_nil]

theorem segmentsArePieces (input : Text) :
    segments input = split .positive input ∧
    (pieces input).length = (operators input).length + 1 ∧
    (∀ tokens, Lexes (trim input) tokens → ofTokens .positive tokens = segments input) ∧
    (∀ w, Blanks w → ∀ (s : Text) (sign last : Sign) (t : Text),
      segments (s ++ sign.operator :: (w ++ last.operator :: t)) =
        segments (s ++ last.operator :: t) ∧
      segments (s ++ sign.operator :: w) = segments s) := by
  refine ⟨segmentsSplit input, piecesLength input, ?_, ?_⟩
  · intro tokens lexed
    rw [ofTokensSplit lexed, splitTrim, segmentsSplit]
  · intro w blank s sign last t
    exact ⟨earlierOperatorIgnored blank s sign last t, lastOperatorIgnored blank s sign⟩

theorem segmentsArePiecesDoubled :
    let input := "2 -\t+ 3".toList
    let tokens := [.text "2 ".toList, .operator .negative, .text ['\t'], .operator .positive,
      .text " 3".toList]
    Lexes (trim input) tokens ∧ Blanks ['\t'] ∧
    ofTokens .positive tokens = [⟨.positive, ['2']⟩, ⟨.positive, ['3']⟩] ∧
    segments input = segments "2 + 3".toList ∧ segments "2 -\t".toList = segments "2 ".toList := by
  have lexed := Token.lexesScan (trim "2 -\t+ 3".toList)
  have blank : Blanks ['\t'] := by
    intro c member
    cases List.mem_singleton.mp member
    rfl
  obtain ⟨_, _, read, doubled⟩ := segmentsArePieces "2 -\t+ 3".toList
  have ignored := doubled ['\t'] blank "2 ".toList .negative .positive " 3".toList
  have cut : segments "2 -\t+ 3".toList = [⟨.positive, ['2']⟩, ⟨.positive, ['3']⟩] := by decide
  exact ⟨lexed, blank, (read _ lexed).trans cut, ignored⟩

end Segment
end Tabletop
