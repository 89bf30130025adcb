import Mathlib.Data.List.Basic
import Tabletop.Proofs.Expression.Split
import Tabletop.Proofs.Text.Numeral

/-! The texts that a segment can have: they are there, no blank is at their ends, and they hold no
operator. Such a text is one segment, and every segment has such a text. -/
namespace Tabletop.Segment
open Text (trim)
open Token (isOperator Plain)

structure Whole (t : Text) : Prop where
  nonempty : t ≠ []
  trimmed : trim t = t
  plain : Plain t

theorem splitWhole (sign : Sign) {t : Text} (whole : Whole t) : split sign t = [⟨sign, t⟩] := by
  rw [splitPlain sign whole.plain, whole.trimmed, if_neg whole.nonempty]

theorem splitPlainWhole (sign : Sign) {run : Text} (plain : Plain run) :
    ∀ segment ∈ split sign run, Whole segment.text := by
  rw [splitPlain sign plain]
  split
  · simp
  · rename_i nonempty
    intro segment member
    cases List.mem_singleton.mp member
    exact ⟨nonempty, Text.trimTrim run, fun c inside => plain c (Text.trimMember inside)⟩

theorem splitTextsWhole (sign : Sign) (s : Text) : ∀ segment ∈ split sign s, Whole segment.text := by
  induction s using operatorInduction generalizing sign with
  | run run plain => exact splitPlainWhole sign plain
  | next run other rest plain ih =>
    intro segment member
    rw [splitAppend] at member
    rcases List.mem_append.mp member with early | late
    · exact splitPlainWhole sign plain segment early
    · exact ih other segment late

theorem segmentTextsWhole (input : Text) : ∀ segment ∈ segments input, Whole segment.text := by
  rw [segmentsSplit]
  exact splitTextsWhole .positive input

theorem digitPlain {c : Char} (digit : c.isDigit = true) : isOperator c = false := by
  have plus := Text.digitNe digit (d := '+') rfl
  have minus := Text.digitNe digit (d := '-') rfl
  simp [isOperator, plus, minus]

theorem wholeNumeral (n : Nat) : Whole (Text.ofNat n) where
  nonempty := Text.ofNatNonempty n
  trimmed := Text.trimOfNat n
  plain := fun c member => digitPlain (Text.digitsOfNat n c member)

theorem wholeBetween {first last between : Text} (start : Whole first) (finish : Whole last)
    (plain : Plain between) : Whole (first ++ between ++ last) where
  nonempty := by simp [start.nonempty]
  trimmed := by
    have ahead := (Text.trimSelf.mp start.trimmed).1
    have behind := (Text.trimSelf.mp finish.trimmed).2
    apply Text.trimSelf.mpr
    constructor
    · rw [List.append_assoc, List.head?_append_of_ne_nil _ start.nonempty]
      exact ahead
    · rw [List.getLast?_append_of_ne_nil _ finish.nonempty]
      exact behind
  plain := plainAppend (plainAppend start.plain plain) finish.plain

theorem wholeDice (count faces : Nat) : Whole (Text.ofNat count ++ 'd' :: Text.ofNat faces) := by
  have marker : Plain ['d'] := by decide
  simpa using wholeBetween (wholeNumeral count) (wholeNumeral faces) marker

end Tabletop.Segment

/-! An expression with each operator turned into the other one. Each of its texts is then under
the other sign, the first one too where an operator stands before it; a first text without an
operator would stay positive. -/
namespace Tabletop
open Token (isOperator Plain)
open Text (trim Blanks)

def Sign.flipped : Sign → Sign
  | positive => negative
  | negative => positive

def Segment.flipped (segment : Segment) : Segment := { segment with sign := segment.sign.flipped }

namespace Token

def flipOperator : Char → Char
  | '+' => '-'
  | '-' => '+'
  | c => c

theorem flipOfOperator (sign : Sign) : flipOperator sign.operator = sign.flipped.operator := by
  cases sign <;> rfl

theorem flipOther {c : Char} (other : isOperator c = false) : flipOperator c = c := by
  unfold flipOperator
  split
  · contradiction
  · contradiction
  · rfl

theorem flipPlain {run : Text} (plain : Plain run) : run.map flipOperator = run :=
  (List.map_congr_left fun c member => flipOther (plain c member)).trans run.map_id

end Token

namespace Segment
open Token (flipOperator)

def leading (s : Text) : Text := s.takeWhile (!isOperator ·)

theorem plainFlipped (sign : Sign) {run : Text} (plain : Plain run) :
    split sign.flipped run = (split sign run).map flipped := by
  rw [splitPlain sign.flipped plain, splitPlain sign plain]
  by_cases blank : trim run = []
  · rw [if_pos blank, if_pos blank, List.map_nil]
  · rw [if_neg blank, if_neg blank]
    rfl

theorem splitFlipped (sign : Sign) (s : Text) :
    split sign.flipped (s.map flipOperator) = (split sign s).map flipped := by
  induction s using operatorInduction generalizing sign with
  | run run plain => rw [Token.flipPlain plain, plainFlipped sign plain]
  | next run next rest plain ih =>
    rw [List.map_append, List.map_cons, Token.flipPlain plain, Token.flipOfOperator, splitAppend,
      splitAppend, List.map_append, ih next, plainFlipped sign plain]

/- The sign in force at the start reaches only the text before the first operator. -/
theorem splitUnsigned {s : Text} (signed : Blanks (leading s)) (sign other : Sign) :
    split sign s = split other s := by
  have parts : leading s ++ s.dropWhile (!isOperator ·) = s := List.takeWhile_append_dropWhile
  rw [← parts, splitBlanksLeft signed, splitBlanksLeft signed]
  cases rest : s.dropWhile (!isOperator ·) with
  | nil => rw [splitNil, splitNil]
  | cons c tail =>
    have stop : isOperator c = true := by
      have found := List.head?_dropWhile_not (!isOperator ·) s
      rw [rest] at found
      simpa using found
    obtain ⟨next, rfl⟩ := Token.operatorExists stop
    rw [splitOperator, splitOperator]

theorem segmentsFlipped {s : Text} (signed : Blanks (leading s)) :
    segments (s.map flipOperator) = (segments s).map flipped := by
  rw [segmentsSplit, segmentsSplit, splitUnsigned signed .positive .negative, ← splitFlipped]
  rfl

end Segment
end Tabletop
