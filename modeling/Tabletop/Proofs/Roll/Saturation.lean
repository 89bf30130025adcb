import Tabletop.Proofs.Expression.Whole
import Tabletop.Proofs.Roll.Exact

/-! How far the sum of one dice term can be trusted. The dice are added up in words that wrap
around and do not stop at the end of the range, as the total does. Up to two to the 31st dice of
the largest kind stay below that end, and one die more passes it. -/
namespace Tabletop

namespace Amount

theorem wrapAdd (x y : Int) : wrap (wrap x + y) = wrap (x + y) := Int.bmod_add_bmod

theorem wrapNegate (x : Int) : wrap (-wrap x) = wrap (-x) := Int.bmod_neg_bmod

end Amount

namespace DiceTerm

/- What a sum that stops at the end of the range would be: no addition leaves the range, and the
signed sum is the nearest amount to the exact one. -/
def Saturates (d : DiceTerm) : Prop :=
  d.sum? = some d.sum ∧ (Term.dice d).signedSum? = some d.signedSum ∧
  d.signedSum = Amount.clamp (Term.dice d).exactSum

theorem foldlWrap (outcomes : List Nat) {start : Int} (fits : Amount.Fits start) :
    outcomes.foldl (fun (total : Int) (x : Nat) => Amount.wrap (total + x)) start =
      Amount.wrap (start + (outcomes.sum : Int)) := by
  induction outcomes generalizing start with
  | nil =>
    rw [List.foldl_nil, List.sum_nil, Int.natCast_zero, Int.add_zero, Amount.wrapOfFits fits]
  | cons x rest ih =>
    rw [List.foldl_cons, ih (Amount.wrapFits _), Amount.wrapAdd, List.sum_cons, Int.natCast_add,
      Int.add_assoc]

theorem sumWraps (d : DiceTerm) : d.sum = Amount.wrap (d.outcomes.sum : Int) := by
  rw [sum, foldlWrap d.outcomes (by decide), Int.zero_add]

theorem signedSumWraps (d : DiceTerm) : d.signedSum = Amount.wrap (Term.dice d).exactSum := by
  rw [signedSum, sumWraps, Term.exactSum]
  cases d.sign with
  | positive =>
    rw [Sign.factor, Int.one_mul]
    rfl
  | negative =>
    rw [Sign.factor, ← Int.neg_eq_neg_one_mul]
    exact Amount.wrapNegate _

theorem checkedSumFits {outcomes : List Nat} {start last : Int} (fits : Amount.Fits start)
    (added : outcomes.foldlM (fun (total : Int) (x : Nat) => Amount.add? total x) start =
      some last) : Amount.Fits (start + (outcomes.sum : Int)) := by
  induction outcomes generalizing start with
  | nil => simpa using fits
  | cons x rest ih =>
    rw [List.foldlM_cons] at added
    obtain ⟨next, first, others⟩ := Option.bind_eq_some_iff.mp added
    obtain ⟨inside, same⟩ := Option.ite_none_right_eq_some.mp first
    cases same
    have all := ih inside others
    rwa [List.sum_cons, Int.natCast_add, ← Int.add_assoc]

theorem checkedSumBelow {d : DiceTerm} {total : Int} (added : d.sum? = some total) :
    (d.outcomes.sum : Int) ≤ Amount.highest := by
  have fits := (checkedSumFits (by decide) added).2
  rwa [Int.zero_add] at fits

theorem exactSumFits {d : DiceTerm} (high : (d.outcomes.sum : Int) ≤ Amount.highest) :
    Amount.Fits (Term.dice d).exactSum := by
  have low : 0 ≤ (d.outcomes.sum : Int) := Int.natCast_nonneg _
  rw [Term.exactSum]
  simp only [Amount.Fits, Amount.lowest, Amount.highest] at high ⊢
  cases d.sign with
  | positive =>
    rw [Sign.factor]
    omega
  | negative =>
    rw [Sign.factor]
    omega

theorem saturatesIff {d : DiceTerm} :
    d.Saturates ↔ (d.outcomes.sum : Int) ≤ Amount.highest := by
  constructor
  · rintro ⟨added, _⟩
    exact checkedSumBelow added
  · intro high
    obtain ⟨added, _⟩ := sumExact high
    obtain ⟨signed, exactly⟩ := (Term.dice d).signedSumExact
      (by rintro _ ⟨⟩; exact high) (by rintro _ ⟨⟩)
    exact ⟨added, signed, exactly.trans (Amount.clampOfFits (exactSumFits high)).symm⟩

end DiceTerm

namespace Roller
variable {σ : Type}

theorem answersFixed {r : Roller σ} {s : σ} {faces face : Nat}
    (fixed : r.roll s faces = (face, s)) (count : Nat) :
    r.answers (List.replicate count faces) s = (List.replicate count face, s) := by
  have once : r.answers [faces] s = ([face], s) := by
    rw [answersCons, fixed]
    rfl
  have repeated := answersRepeated once count
  rwa [List.flatten_replicate_singleton, List.flatten_replicate_singleton] at repeated

theorem steppingNowhere {faces : Nat} (real : 0 < faces) :
    (stepping 0).roll faces faces = (faces, faces) := by
  have below : (faces - 1) % faces = faces - 1 := Nat.mod_eq_of_lt (Nat.sub_one_lt_of_lt real)
  simp only [stepping, below, Nat.sub_add_cancel real, Nat.add_zero]

end Roller

/- Steps of zero keep a roller at the highest face. However many dice there are, the outcomes are
known without rolling them one by one. -/
theorem evaluateHighest (o : Options) {count faces : Nat}
    (dice : 0 < count ∧ 0 < faces ∧ count ≤ o.maxDice)
    (words : count < UInt32.size ∧ faces < UInt32.size)
    (plain : o.numbering.isZeroBased faces = false) :
    (evaluate o (Roller.stepping 0) (Text.ofNat count ++ 'd' :: Text.ofNat faces) faces).outcome.terms =
      [.dice ⟨count, faces, false, List.replicate count faces, .positive⟩] := by
  have alone : segments (Text.ofNat count ++ 'd' :: Text.ofNat faces) =
      [⟨.positive, Text.ofNat count ++ 'd' :: Text.ofNat faces⟩] := by
    rw [Segment.segmentsSplit, Segment.splitWhole _ (Segment.wholeDice count faces)]
  have read := Reading.ofTextNumerals dice words
  have shown : ((Roller.stepping 0).outcomes o.numbering count faces faces).1 =
      List.replicate count faces := by
    rw [Roller.outcomesPlain _ plain, Roller.answersFixed (Roller.steppingNowhere dice.2.1)]
  rw [evaluateTerms, alone]
  simp only [Evaluation.terms, Evaluation.term, read, shown, plain]

def Options.SumsSaturate (o : Options) : Prop :=
  ∀ (σ : Type) (r : Roller σ), r.Within → ∀ (input : Text) (s : σ),
    ∀ d ∈ (evaluate o r input s).outcome.diceTerms, d.Saturates

theorem highestBeyond (o : Options) (many : DiceTerm.mostInRange < o.maxDice) :
    ∃ d, (evaluate o (Roller.stepping 0) "2147483649d4294967295".toList 4294967295).outcome.terms =
        [.dice d] ∧ d.sign = .positive ∧ d.outcomes.sum = 9223372039002259455 := by
  have text : "2147483649d4294967295".toList = Text.ofNat 2147483649 ++ 'd' :: Text.ofNat 4294967295 := by
    decide
  rw [text]
  refine ⟨_, evaluateHighest o ⟨by decide, by decide, many⟩ ⟨by decide, by decide⟩ rfl, rfl, ?_⟩
  rw [List.sum_replicate_nat]

theorem sumsSaturateIff (o : Options) : o.SumsSaturate ↔ o.maxDice ≤ DiceTerm.mostInRange := by
  constructor
  · intro saturate
    apply Nat.le_of_not_lt
    intro many
    obtain ⟨d, terms, _, sum⟩ := highestBeyond o many
    have member := Outcome.diceTermIff.mpr (terms ▸ List.mem_singleton_self (Term.dice d))
    have high := DiceTerm.saturatesIff.mp
      (saturate Nat (Roller.stepping 0) (Roller.steppingWithin 0) _ _ d member)
    rw [sum] at high
    exact absurd high (by decide)
  · intro limit σ r within input s d member
    have wellFormed := Evaluation.termsWellFormed o within _ s _ (Outcome.diceTermIff.mp member) d rfl
    exact DiceTerm.saturatesIff.mpr
      (DiceTerm.outcomesSumBelow wellFormed (Nat.le_trans wellFormed.count.2 limit))

theorem diceSumsSaturateUpToLimit (o : Options) :
    (o.SumsSaturate ↔ o.maxDice ≤ DiceTerm.mostInRange) ∧
    ∀ (σ : Type) (r : Roller σ) (input : Text) (s : σ),
      ∀ d ∈ (evaluate o r input s).outcome.diceTerms,
        d.sum = Amount.wrap (d.outcomes.sum : Int) ∧
        d.signedSum = Amount.wrap (Term.dice d).exactSum ∧
        (d.Saturates ↔ (d.outcomes.sum : Int) ≤ Amount.highest) := by
  refine ⟨sumsSaturateIff o, ?_⟩
  intro σ r input s d _
  exact ⟨d.sumWraps, d.signedSumWraps, DiceTerm.saturatesIff⟩

theorem diceSumBeyondRange :
    let o : Options := { maxDice := 2147483649 }
    (Roller.stepping 0).Within ∧
    ∃ d, (evaluate o (Roller.stepping 0) "2147483649d4294967295".toList 4294967295).outcome.terms =
        [.dice d] ∧
      d.sum? = none ∧ d.signedSum = -9223372034707292161 ∧
      Amount.clamp (Term.dice d).exactSum = 9223372036854775807 ∧ ¬ o.SumsSaturate := by
  intro o
  obtain ⟨d, terms, sign, sum⟩ := highestBeyond o (by decide)
  have exactly : (Term.dice d).exactSum = 9223372039002259455 := by
    rw [Term.exactSum, sign, sum]
    rfl
  have uncounted : d.sum? = none := by
    apply Option.eq_none_iff_forall_ne_some.mpr
    intro total added
    have high := DiceTerm.checkedSumBelow added
    rw [sum] at high
    exact absurd high (by decide)
  refine ⟨Roller.steppingWithin 0, d, terms, uncounted, ?_, ?_, ?_⟩
  · rw [d.signedSumWraps, exactly]
    decide
  · rw [exactly]
    decide
  · rw [sumsSaturateIff]
    decide

end Tabletop
