import Tabletop.Proofs.Expression.Split
import Tabletop.Proofs.Roll.Terms

/-! Two expressions joined by an operator. Evaluating them at once is evaluating the first and
then, from the state it leaves, the second. The totals add up only as far as the second total is
exact: on its own it may stop at an end of the range that the joined expression stays away from. -/
namespace Tabletop

theorem Segment.segmentsAppend (s : Text) (sign : Sign) (t : Text) :
    segments (s ++ sign.operator :: t) = segments s ++ segments (sign.lead ++ t) := by
  rw [Segment.segmentsSplit, Segment.splitAppend, Segment.segmentsLead, Segment.segmentsSplit]

theorem Evaluation.termsAppend {σ : Type} (o : Options) (r : Roller σ) (xs ys : List Segment)
    (s : σ) :
    terms o r (xs ++ ys) s =
      ((terms o r xs s).1 ++ (terms o r ys (terms o r xs s).2.2).1,
        (terms o r xs s).2.1 ++ (terms o r ys (terms o r xs s).2.2).2.1,
        (terms o r ys (terms o r xs s).2.2).2.2) := by
  induction xs generalizing s with
  | nil => rfl
  | cons segment rest ih =>
    rw [List.cons_append, termsCons, ih, termsCons, List.cons_append, List.append_assoc]

section
variable {σ : Type} (o : Options) (r : Roller σ) (a b : Text) (sign : Sign) (s : σ)

theorem evaluateJoined :
    let first := evaluate o r a s
    let second := evaluate o r (sign.lead ++ b) first.after
    let whole := evaluate o r (a ++ sign.operator :: b) s
    whole.outcome.terms = first.outcome.terms ++ second.outcome.terms ∧
    whole.after = second.after := by
  have joined := Evaluation.termsAppend o r (segments a) (segments (sign.lead ++ b)) s
  rw [← Segment.segmentsAppend] at joined
  exact ⟨congrArg Prod.fst joined, congrArg (·.2.2) joined⟩

theorem joinedTotal :
    let first := (evaluate o r a s).outcome
    let second := (evaluate o r (sign.lead ++ b) (evaluate o r a s).after).outcome
    let whole := (evaluate o r (a ++ sign.operator :: b) s).outcome
    Amount.PrefixesFit whole.signedSums →
      whole.total = first.total + second.signedSums.sum := by
  intro first second whole fit
  have parts : whole.signedSums = first.signedSums ++ second.signedSums := by
    unfold Outcome.signedSums
    rw [(evaluateJoined o r a b sign s).1, List.map_append]
  have exactWhole := totalExact fit
  rw [parts] at fit exactWhole
  rw [exactWhole, List.sum_append, totalExact (Amount.prefixesFitLeft fit)]

end

theorem evaluateConcatenation {σ : Type} (o : Options) (r : Roller σ) (a b : Text) (sign : Sign)
    (s : σ) :
    let first := evaluate o r a s
    let second := evaluate o r (sign.lead ++ b) first.after
    let whole := evaluate o r (a ++ sign.operator :: b) s
    whole.outcome.terms = first.outcome.terms ++ second.outcome.terms ∧
    whole.after = second.after ∧
    (Amount.PrefixesFit whole.outcome.signedSums →
      (whole.outcome.total = first.outcome.total + second.outcome.total ↔
        second.outcome.total = second.outcome.signedSums.sum) ∧
      (Amount.PrefixesFit second.outcome.signedSums →
        whole.outcome.total = first.outcome.total + second.outcome.total)) := by
  intro first second whole
  obtain ⟨terms, after⟩ := evaluateJoined o r a b sign s
  refine ⟨terms, after, ?_⟩
  intro fit
  have total : whole.outcome.total = first.outcome.total + second.outcome.signedSums.sum :=
    joinedTotal o r a b sign s fit
  have additive : whole.outcome.total = first.outcome.total + second.outcome.total ↔
      second.outcome.total = second.outcome.signedSums.sum := by
    omega
  exact ⟨additive, fun fits => additive.mpr (totalExact fits)⟩

theorem evaluateConcatenationMixed :
    let r := Roller.stepping 1
    let first := evaluate {} r "2d6 ".toList 10
    let second := evaluate {} r (Sign.negative.lead ++ " 3 + 2d4".toList) first.after
    let whole := evaluate {} r ("2d6 ".toList ++ Sign.negative.operator :: " 3 + 2d4".toList) 10
    Amount.PrefixesFit whole.outcome.signedSums ∧ Amount.PrefixesFit second.outcome.signedSums ∧
    whole.after = 14 ∧ whole.outcome.total = first.outcome.total + second.outcome.total := by
  intro r first second whole
  have fit : Amount.PrefixesFit whole.outcome.signedSums := by decide
  have fits : Amount.PrefixesFit second.outcome.signedSums := by decide
  obtain ⟨_, after, totals⟩ :=
    evaluateConcatenation {} r "2d6 ".toList " 3 + 2d4".toList .negative 10
  exact ⟨fit, fits, after.trans (by decide), (totals fit).2 fits⟩

theorem joinedTotalBeyondParts :
    let r := Roller.stepping 1
    let first := evaluate {} r "-1".toList 10
    let second := evaluate {} r "9223372036854775807+1".toList first.after
    let whole := evaluate {} r ("-1".toList ++ '+' :: "9223372036854775807+1".toList) 10
    Amount.PrefixesFit whole.outcome.signedSums ∧
    whole.outcome.total ≠ first.outcome.total + second.outcome.total := by
  decide

/-! A term that cannot be rolled stands between other terms without touching them. It is one
segment of its own, whatever stands on its two sides; it draws nothing, so the dice behind it fall
as they would without it; and it adds nothing, which leaves every total where it is. -/

open Text (trim)
open Token (Plain)

theorem Segment.segmentsBetween (a : Text) (sign : Sign) {x : Text} (plain : Plain x)
    (there : trim x ≠ []) (next : Sign) (b : Text) :
    segments (a ++ sign.operator :: (x ++ next.operator :: b)) =
      segments a ++ ⟨sign, trim x⟩ :: segments (next.lead ++ b) := by
  have alone : split sign x = [⟨sign, trim x⟩] := by rw [splitPlain sign plain, if_neg there]
  rw [segmentsAppend, segmentsLead, splitAppend, alone, segmentsLead, List.singleton_append]

theorem Evaluation.termsRejected {σ : Type} {o : Options} {text : Text} {reason : Rejection}
    (read : Reading.ofText o.maxDice text = .rejected reason) (r : Roller σ) (sign : Sign)
    (rest : List Segment) (s : σ) :
    terms o r (⟨sign, text⟩ :: rest) s =
      (.invalid ⟨text, sign, reason⟩ :: (terms o r rest s).1,
        .invalidTerm text reason :: (terms o r rest s).2.1, (terms o r rest s).2.2) := by
  rw [termsCons, termRejected s read, List.singleton_append]

/- Every total lies within the range, also at its ends, so adding nothing cannot move it. -/
theorem totalOfNeutral {t : Term} (nothing : t.signedSum = 0) (before after : List Term) :
    Outcome.totalOf (before ++ t :: after) = Outcome.totalOf (before ++ after) := by
  have fits : Amount.Fits (Outcome.totalOf before) := Outcome.totalFits ⟨[], before⟩
  have stays : Amount.clamp (Outcome.totalOf before + t.signedSum) = Outcome.totalOf before := by
    rw [nothing, Int.add_zero, Amount.clampOfFits fits]
  unfold Outcome.totalOf at stays ⊢
  rw [List.foldl_append, List.foldl_cons, stays, List.foldl_append]

theorem rejectedTermKeepsNeighbours {σ : Type} (o : Options) (r : Roller σ) (a b : Text)
    (sign next : Sign) {x : Text} (plain : Plain x) (there : trim x ≠ []) {reason : Rejection}
    (rejected : Reading.ofText o.maxDice (trim x) = .rejected reason) (s : σ) :
    let first := evaluate o r a s
    let rest := evaluate o r (next.lead ++ b) first.after
    let without := evaluate o r (a ++ next.operator :: b) s
    let whole := evaluate o r (a ++ sign.operator :: (x ++ next.operator :: b)) s
    without.outcome.terms = first.outcome.terms ++ rest.outcome.terms ∧
    whole.outcome.terms =
      first.outcome.terms ++ .invalid ⟨trim x, sign, reason⟩ :: rest.outcome.terms ∧
    whole.outcome.total = without.outcome.total ∧ whole.after = without.after := by
  intro first rest without whole
  obtain ⟨terms, after⟩ := evaluateJoined o r a b next s
  have run := Evaluation.termsAppend o r (segments a)
    (⟨sign, trim x⟩ :: segments (next.lead ++ b)) s
  rw [← Segment.segmentsBetween a sign plain there next b,
    Evaluation.termsRejected rejected] at run
  have inserted : whole.outcome.terms =
      first.outcome.terms ++ .invalid ⟨trim x, sign, reason⟩ :: rest.outcome.terms :=
    congrArg Prod.fst run
  have last : whole.after = rest.after := congrArg (·.2.2) run
  refine ⟨terms, inserted, ?_, last.trans after.symm⟩
  calc whole.outcome.total
      = Outcome.totalOf
          (first.outcome.terms ++ .invalid ⟨trim x, sign, reason⟩ :: rest.outcome.terms) :=
        congrArg Outcome.totalOf inserted
    _ = Outcome.totalOf (first.outcome.terms ++ rest.outcome.terms) := totalOfNeutral rfl _ _
    _ = without.outcome.total := congrArg Outcome.totalOf terms.symm

theorem rejectedTermKeepsNeighboursAtBound :
    let o : Options := { maxDice := 5 }
    let r := Roller.stepping 1
    let a := "9223372036854775807 + 2d6 - q -".toList
    let x := "\t6d6 ".toList
    let b := " d8 + ".toList
    let whole := evaluate o r
      (a ++ Sign.negative.operator :: (x ++ Sign.negative.operator :: b)) 3
    Plain x ∧ trim x ≠ [] ∧ Reading.ofText o.maxDice (trim x) = .rejected (.tooManyDice 5) ∧
    whole.outcome.terms.map Term.sign = [.positive, .positive, .negative, .negative, .negative] ∧
    whole.outcome.invalidTerms.map InvalidTerm.raw = ["q".toList, "6d6".toList] ∧
    whole.outcome.total = 9223372036854775802 ∧ whole.after = 6 := by
  intro o r a x b whole
  have plain : Plain x := by decide
  have there : trim x ≠ [] := by decide
  have rejected : Reading.ofText o.maxDice (trim x) = .rejected (.tooManyDice 5) := by decide
  obtain ⟨_, inserted, total, after⟩ :=
    rejectedTermKeepsNeighbours o r a b .negative .negative plain there rejected 3
  refine ⟨plain, there, rejected, ?_, ?_, total.trans (by decide), after.trans (by decide)⟩
  · exact (congrArg (List.map Term.sign) inserted).trans (by decide)
  · have rejections := congrArg (List.filterMap Term.invalid?) inserted
    exact (congrArg (List.map InvalidTerm.raw) rejections).trans (by decide)

end Tabletop
