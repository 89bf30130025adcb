import Tabletop.Proofs.Expression.Split
import Tabletop.Proofs.Roll.Terms
import Tabletop.Proofs.Term.Alike

/-! Expressions that are rolled alike. Their segments have the same signs and are read the same by
every limit, so that the same dice fall. Only the texts of invalid terms can show a difference,
and they add nothing to the total. -/
namespace Tabletop

structure Segment.Alike (texts : Text → Text → Prop) (first second : Segment) : Prop where
  sign : second.sign = first.sign
  reading : ∀ limit, Reading.ofText limit second.text = Reading.ofText limit first.text
  text : texts first.text second.text

inductive Term.Alike (texts : Text → Text → Prop) : Term → Term → Prop where
  | dice (d : DiceTerm) : Alike texts (.dice d) (.dice d)
  | modifier (m : ModifierTerm) : Alike texts (.modifier m) (.modifier m)
  | invalid {raw other : Text} (same : texts raw other) (sign : Sign) (reason : Rejection) :
      Alike texts (.invalid ⟨raw, sign, reason⟩) (.invalid ⟨other, sign, reason⟩)

variable {texts : Text → Text → Prop}

theorem Segment.Alike.imp {others : Text → Text → Prop} {first second : Segment}
    (alike : first.Alike texts second) (wider : ∀ raw other, texts raw other → others raw other) :
    first.Alike others second :=
  ⟨alike.sign, alike.reading, wider _ _ alike.text⟩

theorem Term.alikeSum {t u : Term} (alike : t.Alike texts u) : u.signedSum = t.signedSum := by
  cases alike <;> rfl

theorem Outcome.alikeTotal {ts us : List Term} (alike : List.Forall₂ (Term.Alike texts) ts us) :
    totalOf us = totalOf ts := by
  have sums : us.map Term.signedSum = ts.map Term.signedSum := by
    induction alike with
    | nil => rfl
    | cons head _ ih => rw [List.map_cons, List.map_cons, Term.alikeSum head, ih]
  rw [totalOfSums, totalOfSums, sums]

theorem Evaluation.pairedAlike {σ : Type} (o : Options) (r : Roller σ) {first second : Segment}
    (alike : first.Alike texts second) : Paired o o r (Term.Alike texts) first second := by
  intro s
  have reading := alike.reading o.maxDice
  cases read : Reading.ofText o.maxDice first.text with
  | dice count faces =>
    rw [termDice s read, termDice s (reading.trans read), alike.sign]
    exact ⟨.dice _, rfl⟩
  | modifier value =>
    rw [termModifier s read, termModifier s (reading.trans read), alike.sign]
    exact ⟨.modifier _, rfl⟩
  | rejected reason =>
    rw [termRejected s read, termRejected s (reading.trans read), alike.sign]
    exact ⟨.invalid alike.text _ _, rfl⟩

theorem evaluateAlike {σ : Type} (o : Options) (r : Roller σ) {input other : Text}
    (alike : List.Forall₂ (Segment.Alike texts) (segments input) (segments other)) (s : σ) :
    let run := evaluate o r input s
    let again := evaluate o r other s
    List.Forall₂ (Term.Alike texts) run.outcome.terms again.outcome.terms ∧
    again.outcome.total = run.outcome.total ∧ again.after = run.after := by
  intro run again
  obtain ⟨terms, after⟩ := Evaluation.termsPaired
    (alike.imp fun _ _ pair => Evaluation.pairedAlike o r pair) s
  exact ⟨terms, Outcome.alikeTotal terms, after.symm⟩

end Tabletop

/-! The case of the die markers in a roll. A change of case moves no operator and no blank, so every
segment stays where it is and is read as before. -/
namespace Tabletop
open Text (isBlank trim)
open Token (isOperator Plain)
open Reading (isMarker later recase recaseAt)

def Reading.Recased (chosen : Nat → Bool) (input raw other : Text) : Prop :=
  ∃ before after, input = before ++ raw ++ after ∧ other = recase (later chosen before.length) raw

namespace Reading

theorem laterLater (chosen : Nat → Bool) (m n : Nat) :
    later (later chosen m) n = later chosen (m + n) := by
  funext i
  simp [later, Nat.add_comm, Nat.add_left_comm]

theorem recasedLeft {chosen : Nat → Bool} {s raw other : Text} (same : Recased chosen s raw other)
    (t : Text) : Recased chosen (s ++ t) raw other := by
  obtain ⟨before, after, rfl, changed⟩ := same
  exact ⟨before, after ++ t, by simp, changed⟩

theorem recasedRight {chosen : Nat → Bool} (s : Text) {t raw other : Text}
    (same : Recased (later chosen s.length) t raw other) : Recased chosen (s ++ t) raw other := by
  obtain ⟨before, after, rfl, changed⟩ := same
  refine ⟨s ++ before, after, by simp, ?_⟩
  rw [changed, laterLater, List.length_append]

theorem trimmedRecased (chosen : Nat → Bool) {s : Text} (trimmed : trim s = s) :
    trim (recase chosen s) = recase chosen s := by
  obtain ⟨first, last⟩ := Text.trimSelf.mp trimmed
  have keeps : ∀ i c, isBlank (recaseAt chosen i c) = isBlank c := recaseAtKeeps rfl chosen
  apply Text.trimSelf.mpr
  constructor
  · simpa [recase, List.head?_mapIdx, keeps] using first
  · simpa [recase, List.getLast?_mapIdx, keeps] using last

theorem recaseTrim (chosen : Nat → Bool) (s : Text) :
    Recased chosen s (trim s) (trim (recase chosen s)) := by
  obtain ⟨before, after, early, late, parts⟩ := Text.trimParts s
  refine ⟨before, after, parts, ?_⟩
  have middle := trimmedRecased (later chosen before.length) (Text.trimTrim s)
  calc trim (recase chosen s)
      = trim (recase chosen (before ++ trim s ++ after)) := by rw [← parts]
    _ = trim (before ++ recase (later chosen before.length) (trim s) ++ after) := by
        rw [recaseAppend, recaseAppend, recaseUnmarked _ (blanksUnmarked early),
          recaseUnmarked _ (blanksUnmarked late)]
    _ = recase (later chosen before.length) (trim s) := Text.trimPadded early late middle

end Reading

namespace Segment

theorem recasePlain (chosen : Nat → Bool) {run : Text} (plain : Plain run) :
    Plain (recase chosen run) := by
  intro c member
  obtain ⟨i, inside, rfl⟩ := List.mem_mapIdx.mp member
  exact (Reading.recaseAtKeeps (p := isOperator) rfl chosen i run[i]).trans
    (plain _ (List.getElem_mem inside))

theorem recaseOperator (chosen : Nat → Bool) (run : Text) (sign : Sign) (rest : Text) :
    recase chosen (run ++ sign.operator :: rest) =
      recase chosen run ++
        sign.operator :: recase (later chosen (run ++ [sign.operator]).length) rest := by
  have kept : recaseAt (later chosen run.length) 0 sign.operator = sign.operator :=
    Reading.recaseAtUnmarked _ 0 (by cases sign <;> rfl)
  rw [Reading.recaseAppend, Reading.recaseCons, Reading.laterLater, kept, List.length_append,
    List.length_singleton]

theorem runRecased (chosen : Nat → Bool) (sign : Sign) {run : Text} (plain : Plain run) :
    List.Forall₂ (Segment.Alike (Reading.Recased chosen run))
      (split sign run) (split sign (recase chosen run)) := by
  obtain ⟨before, after, parts, changed⟩ := Reading.recaseTrim chosen run
  rw [splitPlain sign plain, splitPlain sign (recasePlain chosen plain)]
  by_cases nothing : trim run = []
  · have still : trim (recase chosen run) = [] := by
      rw [changed, nothing]
      rfl
    rw [if_pos nothing, if_pos still]
    exact .nil
  · have there : trim (recase chosen run) ≠ [] := by
      rw [changed]
      simpa [recase] using nothing
    rw [if_neg nothing, if_neg there]
    refine .cons ⟨rfl, ?_, before, after, parts, changed⟩ .nil
    intro limit
    rw [changed, Reading.recaseRead]

theorem splitRecased (chosen : Nat → Bool) (sign : Sign) (s : Text) :
    List.Forall₂ (Segment.Alike (Reading.Recased chosen s))
      (split sign s) (split sign (recase chosen s)) := by
  -- The choice moves along with the text, so the induction is for every choice.
  induction s using operatorInduction generalizing chosen sign with
  | run run plain => exact runRecased chosen sign plain
  | next run next rest plain ih =>
    rw [recaseOperator, splitAppend, splitAppend]
    apply List.rel_append
    · exact (runRecased chosen sign plain).imp fun _ _ alike =>
        alike.imp fun _ _ same => Reading.recasedLeft same _
    · have late := ih (later chosen (run ++ [next.operator]).length) next
      refine late.imp fun _ _ alike => alike.imp fun _ _ same => ?_
      simpa using Reading.recasedRight (run ++ [next.operator]) same

end Segment

theorem markerCaseIgnored {σ : Type} (o : Options) (r : Roller σ) (chosen : Nat → Bool)
    (input : Text) (s : σ) :
    let run := evaluate o r input s
    let again := evaluate o r (recase chosen input) s
    List.Forall₂ (Term.Alike (Reading.Recased chosen input))
      run.outcome.terms again.outcome.terms ∧
    again.outcome.total = run.outcome.total ∧ again.after = run.after := by
  apply evaluateAlike
  rw [Segment.segmentsSplit, Segment.segmentsSplit]
  exact Segment.splitRecased chosen .positive input

end Tabletop

/-! Blanks in an expression. Beside an operator and at the ends they belong to no segment; anywhere
else they change one segment, the one that they stand in. -/
namespace Tabletop.Segment
open Text (Blanks Padded Seam Spaced)
open Token (isOperator Plain)

/- The text between two others belongs to the segment around it when it holds no operator. The
induction goes over the operators on its left, and only the first one on its right counts. -/
theorem splitAround (first : Sign) (a b : Text) :
    ∃ before sign x y after, ∀ middle, Plain middle → Plain (x ++ middle ++ y) ∧
      split first (a ++ middle ++ b) = before ++ split sign (x ++ middle ++ y) ++ after := by
  induction a using operatorInduction generalizing first with
  | run x left =>
    induction b using operatorInduction with
    | run y right =>
      refine ⟨[], first, x, y, [], ?_⟩
      intro middle plain
      exact ⟨plainAppend (plainAppend left plain) right, by simp⟩
    | next y sign rest right _ =>
      refine ⟨[], first, x, y, split sign rest, ?_⟩
      intro middle plain
      refine ⟨plainAppend (plainAppend left plain) right, ?_⟩
      rw [← List.append_assoc, splitAppend, List.nil_append]
  | next run sign rest _ ih =>
    obtain ⟨before, last, x, y, after, around⟩ := ih sign
    refine ⟨split first run ++ before, last, x, y, after, ?_⟩
    intro middle plain
    obtain ⟨whole, parts⟩ := around middle plain
    refine ⟨whole, ?_⟩
    rw [List.append_assoc, List.append_assoc, List.cons_append, splitAppend, ← List.append_assoc,
      parts]
    simp

theorem paddedSplit {s t : Text} (padded : Padded isOperator s t) (first : Sign) :
    split first t = split first s := by
  cases padded with
  | @put a w b seam blank =>
    cases seam with
    | start b => exact splitBlanksLeft blank first b
    | finish a => rw [List.append_nil, List.append_nil, splitBlanksRight blank]
    | @behind a c found b =>
      obtain ⟨sign, rfl⟩ := Token.operatorExists found
      simp only [List.append_assoc, List.cons_append, List.nil_append, splitAppend,
        splitBlanksLeft blank]
    | @before a c found b =>
      obtain ⟨sign, rfl⟩ := Token.operatorExists found
      rw [splitAppend, splitAppend, splitBlanksRight blank]

theorem spacedSegments {s t : Text} (spaced : Spaced isOperator s t) : segments t = segments s := by
  induction spaced with
  | refl => rfl
  | tail _ padded ih => rw [segmentsSplit, paddedSplit padded, ← segmentsSplit, ih]

end Tabletop.Segment

/-! Blanks that do not matter to a roll: at the ends of an expression, beside its operators and
beside its die markers. One insertion leaves every segment but one as it is, and that one is read
as before; so any number of insertions leaves the roll as it is. -/
namespace Tabletop
open Text (Blanks Padded Spaced trim)
open Token (isOperator Plain)
open Reading (isMarker)

def Segment.isJoint (c : Char) : Bool := isOperator c || isMarker c

def Text.SameButBlanks (s t : Text) : Prop := solid t = solid s

namespace Segment

theorem alikeSelf (segments : List Segment) :
    List.Forall₂ (Segment.Alike Text.SameButBlanks) segments segments :=
  List.forall₂_same.mpr fun _ _ => ⟨rfl, fun _ => rfl, rfl⟩

theorem alikeTrans {xs ys zs : List Segment}
    (first : List.Forall₂ (Segment.Alike Text.SameButBlanks) xs ys)
    (second : List.Forall₂ (Segment.Alike Text.SameButBlanks) ys zs) :
    List.Forall₂ (Segment.Alike Text.SameButBlanks) xs zs := by
  induction first generalizing zs with
  | nil => exact second
  | cons head _ ih =>
    cases second with
    | cons next tail =>
      refine .cons ⟨next.sign.trans head.sign, ?_, next.text.trans head.text⟩ (ih tail)
      intro limit
      exact (next.reading limit).trans (head.reading limit)

theorem splitMarked (sign : Sign) {piece : Text} (plain : Plain piece)
    (marked : piece.countP isMarker ≠ 0) : split sign piece = [⟨sign, trim piece⟩] := by
  have there : trim piece ≠ [] := by
    intro nothing
    have markers := Reading.spacedMarkers (Text.trimSpaced isMarker piece)
    rw [nothing] at markers
    exact marked markers
  rw [splitPlain sign plain, if_neg there]

theorem markedSegments (a b : Text) {before after : Text} (first : Plain before)
    (second : Plain after) (marked : before.countP isMarker ≠ 0)
    (padded : ∀ x y, Padded isMarker (x ++ before ++ y) (x ++ after ++ y)) :
    List.Forall₂ (Segment.Alike Text.SameButBlanks)
      (segments (a ++ before ++ b)) (segments (a ++ after ++ b)) := by
  obtain ⟨early, sign, x, y, late, around⟩ := splitAround .positive a b
  obtain ⟨firstPlain, firstParts⟩ := around before first
  obtain ⟨secondPlain, secondParts⟩ := around after second
  have alike := Reading.paddedAlike (padded x y)
  have firstMarked : (x ++ before ++ y).countP isMarker ≠ 0 := by
    rw [List.countP_append, List.countP_append]
    omega
  have secondMarked : (x ++ after ++ y).countP isMarker ≠ 0 := alike.markers ▸ firstMarked
  have grown : Segment.Alike Text.SameButBlanks
      ⟨sign, trim (x ++ before ++ y)⟩ ⟨sign, trim (x ++ after ++ y)⟩ := {
    sign := rfl
    reading := by
      intro limit
      rw [Reading.trimRead firstMarked, Reading.trimRead secondMarked,
        Reading.ofTextAlike alike firstMarked]
    text := by
      rw [Text.SameButBlanks, Text.solidTrim, Text.solidTrim, Text.solidPadded (padded x y)] }
  rw [segmentsSplit, segmentsSplit, firstParts, secondParts,
    splitMarked sign firstPlain firstMarked, splitMarked sign secondPlain secondMarked]
  exact List.rel_append (List.rel_append (alikeSelf early) (.cons grown .nil)) (alikeSelf late)

theorem jointCases {c : Char} (joint : isJoint c = true) :
    isOperator c = true ∨ isMarker c = true := by
  simpa [isJoint] using joint

theorem markerPlain {c : Char} (marker : isMarker c = true) : Plain [c] := by
  rcases Reading.markerIff.mp marker with rfl | rfl <;> decide

theorem paddedSegments {s t : Text} (padded : Padded isJoint s t) :
    List.Forall₂ (Segment.Alike Text.SameButBlanks) (segments s) (segments t) := by
  -- Away from the markers the segments are the same.
  have unchanged : ∀ {s t}, Padded isOperator s t →
      List.Forall₂ (Segment.Alike Text.SameButBlanks) (segments s) (segments t) := by
    intro s t padded
    rw [segmentsSplit t, paddedSplit padded, ← segmentsSplit]
    exact alikeSelf (segments s)
  cases padded with
  | @put a w b seam blank =>
    cases seam with
    | start b => exact unchanged (.put (.start b) blank)
    | finish a => exact unchanged (.put (.finish a) blank)
    | @behind a c joint b =>
      rcases jointCases joint with operator | marker
      · exact unchanged (.put (.behind a operator b) blank)
      · have plain := markerPlain marker
        have grown := markedSegments a b plain (plainAppend plain (blanksPlain blank))
          (by simp [marker]) fun x y => by
            simpa using Padded.put (.behind x marker y) blank
        simpa using grown
    | @before a c joint b =>
      rcases jointCases joint with operator | marker
      · exact unchanged (.put (.before a operator b) blank)
      · have plain := markerPlain marker
        have grown := markedSegments a b plain (plainAppend (blanksPlain blank) plain)
          (by simp [marker]) fun x y => by
            simpa using Padded.put (.before x marker y) blank
        simpa using grown

theorem spacedAlike {s t : Text} (spaced : Spaced isJoint s t) :
    List.Forall₂ (Segment.Alike Text.SameButBlanks) (segments s) (segments t) := by
  induction spaced with
  | refl => exact alikeSelf (segments s)
  | tail _ padded ih => exact alikeTrans ih (paddedSegments padded)

end Segment

theorem blanksBesideIgnored {σ : Type} (o : Options) (r : Roller σ) (input other : Text) (s : σ) :
    let run := evaluate o r input s
    let again := evaluate o r other s
    (Spaced Segment.isJoint input other →
      List.Forall₂ (Term.Alike Text.SameButBlanks) run.outcome.terms again.outcome.terms ∧
      again.outcome.total = run.outcome.total ∧ again.after = run.after) ∧
    (Spaced isOperator input other →
      again.outcome.terms = run.outcome.terms ∧
      again.outcome.total = run.outcome.total ∧ again.after = run.after) := by
  intro run again
  constructor
  · intro spaced
    exact evaluateAlike o r (Segment.spacedAlike spaced) s
  · intro spaced
    have same : segments other = segments input := Segment.spacedSegments spaced
    have terms : again.outcome.terms = run.outcome.terms :=
      congrArg (fun read => (Evaluation.terms o r read s).1) same
    have after : again.after = run.after :=
      congrArg (fun read => (Evaluation.terms o r read s).2.2) same
    exact ⟨terms, congrArg Outcome.totalOf terms, after⟩

theorem blanksBesideIgnoredMixed :
    let r := Roller.stepping 1
    let input := "2d6-xdy".toList
    let loose := "2 d6-xd\ty".toList
    let apart := "2d6- xdy\n".toList
    let run := evaluate {} r input 3
    let again := evaluate {} r loose 3
    Spaced Segment.isJoint input loose ∧ Spaced isOperator input apart ∧
    again.outcome.diceTerms.map DiceTerm.outcomes = [[3, 4]] ∧
    again.outcome.invalidTerms.map InvalidTerm.raw = ["xd\ty".toList] ∧
    again.outcome.total = run.outcome.total ∧ again.after = 5 ∧
    (evaluate {} r apart 3).outcome.terms = run.outcome.terms := by
  intro r input loose apart run again
  have blank : Blanks [' '] := by decide
  have tab : Blanks ['\t'] := by decide
  have line : Blanks ['\n'] := by decide
  have spaced : Spaced Segment.isJoint input loose :=
    .tail (.single (.put (.before ['2'] rfl "6-xdy".toList) blank))
      (.put (.behind "2 d6-x".toList rfl ['y']) tab)
  have outside : Spaced isOperator input apart :=
    .tail (.single (.put (.behind "2d6".toList rfl "xdy".toList) blank))
      (.put (.finish "2d6- xdy".toList) line)
  obtain ⟨loosely, _⟩ := blanksBesideIgnored {} r input loose 3
  obtain ⟨_, exactly⟩ := blanksBesideIgnored {} r input apart 3
  obtain ⟨_, total, after⟩ := loosely spaced
  exact ⟨spaced, outside, by decide, by decide, total, after.trans (by decide),
    (exactly outside).1⟩

end Tabletop
