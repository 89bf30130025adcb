import Mathlib.Algebra.BigOperators.Group.List.Basic
import Tabletop.Proofs.Roll.Saturation

/-! An expression and the same with each operator turned into the other one. The same dice fall
for both, and each term is under the other sign. The total is then the negative one, as long as
every amount has a negative: the lowest amount has none, and a term that reaches it has that
amount under both signs. -/

/-! A roll in which one term is the lowest amount there is. That takes one die more than stay in
the range, and answers close to the highest face; how they add up is known without rolling the
dice one by one, as the roller comes back to its first state after every five of them. -/
namespace Tabletop

namespace Roller

/- Asked for dice of the largest kind, these values give the highest face three times out of five
and lower ones between. -/
def nearlyHighest : List Nat := [4294967292, 4294967294, 4294967294, 4294967294, 4294967291]

theorem outcomesNearlyHighest (n : Numbering) {count times : Nat} (cycles : count = times * 5 + 4) :
    ((cycling nearlyHighest).outcomes n count 4294967295 []).1.sum =
      times * 21474836470 + 17179869178 := by
  have cycle : (cycling nearlyHighest).answers (List.replicate 5 4294967295) [] =
      ([4294967293, 4294967295, 4294967295, 4294967295, 4294967292], []) := by decide
  have last : ((cycling nearlyHighest).answers (List.replicate 4 4294967295) []).1 =
      [4294967293, 4294967295, 4294967295, 4294967295] := by decide
  have whole : [4294967293, 4294967295, 4294967295, 4294967295, 4294967292].sum = 21474836470 := rfl
  rw [outcomesPlain _ rfl, cycles, ← List.replicate_append_replicate,
    ← List.flatten_replicate_replicate, answersAppend, answersRepeated cycle, last,
    List.sum_append_nat, List.sum_flatten, List.map_replicate, whole, List.sum_replicate_nat]
  rfl

end Roller

theorem evaluateModifierDice {σ : Type} (o : Options) (r : Roller σ) {value count faces : Nat}
    (flat : value < 0x8000000000000000) (dice : 0 < count ∧ 0 < faces ∧ count ≤ o.maxDice)
    (words : count < UInt32.size ∧ faces < UInt32.size) (sign next : Sign) (s : σ) :
    ∃ d, (evaluate o r (sign.operator :: (Text.ofNat value ++
        next.operator :: (Text.ofNat count ++ 'd' :: Text.ofNat faces))) s).outcome.terms =
          [.modifier ⟨value, sign⟩, .dice d] ∧
      d.sign = next ∧ d.outcomes = (r.outcomes o.numbering count faces s).1 := by
  have cut : segments (sign.operator :: (Text.ofNat value ++
      next.operator :: (Text.ofNat count ++ 'd' :: Text.ofNat faces))) =
      [⟨sign, Text.ofNat value⟩, ⟨next, Text.ofNat count ++ 'd' :: Text.ofNat faces⟩] := by
    rw [Segment.segmentsSplit, Segment.splitOperator, Segment.splitAppend,
      Segment.splitWhole _ (Segment.wholeNumeral value),
      Segment.splitWhole _ (Segment.wholeDice count faces), List.singleton_append]
  have first := Reading.ofTextOfNat o.maxDice flat
  have second := Reading.ofTextNumerals dice words
  rw [evaluateTerms, cut]
  simp only [Evaluation.terms, Evaluation.term, first, second]
  exact ⟨_, rfl, rfl, rfl⟩

/- The modifier keeps the sums of the first terms away from the lowest amount, and the dice are
that amount on their own. -/
theorem evaluateLowest (o : Options) (many : DiceTerm.mostInRange < o.maxDice) :
    ∃ d, (evaluate o (Roller.cycling Roller.nearlyHighest)
        "+5-2147483649d4294967295".toList []).outcome.terms =
          [.modifier ⟨5, .positive⟩, .dice d] ∧
      d.sign = .negative ∧ d.outcomes.sum = 9223372036854775808 := by
  have text : "+5-2147483649d4294967295".toList = Sign.positive.operator :: (Text.ofNat 5 ++
      Sign.negative.operator :: (Text.ofNat 2147483649 ++ 'd' :: Text.ofNat 4294967295)) := by
    decide
  have flat : 5 < 0x8000000000000000 := by decide
  have dice : 0 < 2147483649 ∧ 0 < 4294967295 ∧ 2147483649 ≤ o.maxDice :=
    ⟨by decide, by decide, many⟩
  have words : 2147483649 < UInt32.size ∧ 4294967295 < UInt32.size := by decide
  have cycles : 2147483649 = 429496729 * 5 + 4 := by decide
  rw [text]
  obtain ⟨d, terms, sign, shown⟩ := evaluateModifierDice o (Roller.cycling Roller.nearlyHighest)
    flat dice words .positive .negative []
  refine ⟨d, terms, sign, ?_⟩
  rw [shown, Roller.outcomesNearlyHighest o.numbering cycles]

open Text (Blanks)
open Token (flipOperator)

namespace Amount

def Reversible (x : Int) : Prop := -highest ≤ x ∧ x ≤ highest

instance (x : Int) : Decidable (Reversible x) := by unfold Reversible; infer_instance

def PrefixesReversible (amounts : List Int) : Prop :=
  ∀ first, first <+: amounts → Reversible first.sum

theorem prefixesReversibleInits {amounts : List Int} :
    (∀ first ∈ amounts.inits, Reversible first.sum) ↔ PrefixesReversible amounts := by
  simp only [PrefixesReversible, List.mem_inits]

instance (amounts : List Int) : Decidable (PrefixesReversible amounts) :=
  decidable_of_iff _ prefixesReversibleInits

theorem reversibleFits {x : Int} (reversible : Reversible x) : Fits x := by
  simp only [Reversible, Fits, lowest, highest] at reversible ⊢
  omega

/- The lowest amount is its own negative, and so it comes out too low. -/
theorem wrapNegative {x : Int} (fits : Fits x) :
    wrap (-x) ≤ -x ∧ (wrap (-x) = -x ↔ x ≠ lowest) := by
  by_cases lowest : x = lowest
  · subst lowest
    decide
  · have other : Fits (-x) := by
      simp only [Fits, Amount.lowest, highest] at fits lowest ⊢
      omega
    rw [wrapOfFits other]
    exact ⟨Int.le_refl _, iff_of_true rfl lowest⟩

theorem clampBelow {x bound : Int} (below : x ≤ bound) (reversible : Reversible bound) :
    clamp x ≤ bound ∧ (clamp x = bound ↔ x = bound) := by
  simp only [Reversible, clamp, lowest, highest] at reversible ⊢
  omega

/- A total of the negative amounts that has once come out too low stays too low, as the negative
of the exact sum never comes down to the end of the range. -/
theorem totalNegative {amounts : List Int} (fit : ∀ x ∈ amounts, Fits x) {start total : Int}
    (reversible : ∀ first, first <+: amounts → Reversible (start + first.sum))
    (below : total ≤ -start) :
    let last := amounts.foldl (fun total x => clamp (total + wrap (-x))) total
    last ≤ -(start + amounts.sum) ∧
    (last = -(start + amounts.sum) ↔ total = -start ∧ lowest ∉ amounts) := by
  induction amounts generalizing start total with
  | nil => simpa using below
  | cons x rest ih =>
    obtain ⟨under, same⟩ := wrapNegative (fit x List.mem_cons_self)
    have next : Reversible (-(start + x)) := by
      have first := reversible [x] (List.prefix_append [x] rest)
      rw [List.sum_singleton] at first
      simp only [Reversible, highest] at first ⊢
      omega
    have step : total + wrap (-x) ≤ -(start + x) := by omega
    obtain ⟨stepBelow, stepSame⟩ := clampBelow step next
    have later : ∀ first, first <+: rest → Reversible (start + x + first.sum) := by
      intro first inside
      have more := reversible (x :: first) ((List.prefix_cons_inj x).mpr inside)
      rwa [List.sum_cons, ← Int.add_assoc] at more
    obtain ⟨lastBelow, lastSame⟩ :=
      ih (fun y inside => fit y (List.mem_cons_of_mem x inside)) later stepBelow
    rw [List.foldl_cons, List.sum_cons, ← Int.add_assoc]
    refine ⟨lastBelow, lastSame.trans ?_⟩
    rw [stepSame, List.mem_cons, not_or]
    constructor
    · rintro ⟨whole, others⟩
      have exactly : wrap (-x) = -x := by omega
      exact ⟨by omega, (same.mp exactly).symm, others⟩
    · rintro ⟨whole, other, others⟩
      have exactly : wrap (-x) = -x := same.mpr (Ne.symm other)
      exact ⟨by omega, others⟩

end Amount

theorem Sign.applyFlipped (sign : Sign) {x : Int} (fits : Amount.Fits x) :
    sign.flipped.apply x = Amount.wrap (-sign.apply x) := by
  cases sign with
  | positive => rfl
  | negative =>
    calc x = Amount.wrap x := (Amount.wrapOfFits fits).symm
      _ = Amount.wrap (-(-x)) := by rw [Int.neg_neg]
      _ = Amount.wrap (-Amount.wrap (-x)) := (Amount.wrapNegate (-x)).symm

theorem Sign.applyFits (sign : Sign) {x : Int} (fits : Amount.Fits x) :
    Amount.Fits (sign.apply x) := by
  cases sign with
  | positive => exact fits
  | negative => exact Amount.wrapFits (-x)

namespace Term

def flipped : Term → Term
  | dice d => .dice { d with sign := d.sign.flipped }
  | modifier m => .modifier { m with sign := m.sign.flipped }
  | invalid i => .invalid { i with sign := i.sign.flipped }

theorem signedSumFlipped (t : Term)
    (modifier : ∀ m, t = .modifier m → (m.value : Int) ≤ Amount.highest) :
    Amount.Fits t.signedSum ∧ t.flipped.signedSum = Amount.wrap (-t.signedSum) := by
  cases t with
  | dice d =>
    have fits : Amount.Fits d.sum := d.sumWraps ▸ Amount.wrapFits _
    exact ⟨d.sign.applyFits fits, d.sign.applyFlipped fits⟩
  | modifier m =>
    have fits : Amount.Fits (m.value : Int) :=
      ⟨Int.le_trans (by decide) (Int.natCast_nonneg _), modifier m rfl⟩
    exact ⟨m.sign.applyFits fits, m.sign.applyFlipped fits⟩
  | invalid i => exact ⟨(by decide : Amount.Fits 0), rfl⟩

end Term

theorem totalOfFlipped {ts : List Term}
    (modifier : ∀ m, .modifier m ∈ ts → (m.value : Int) ≤ Amount.highest)
    (reversible : Amount.PrefixesReversible (ts.map Term.signedSum)) :
    Outcome.totalOf (ts.map Term.flipped) = -Outcome.totalOf ts ↔
      Amount.lowest ∉ ts.map Term.signedSum := by
  have sums : ∀ t ∈ ts, Amount.Fits t.signedSum ∧
      t.flipped.signedSum = Amount.wrap (-t.signedSum) := by
    intro t member
    exact t.signedSumFlipped fun m same => modifier m (same ▸ member)
  have fit : ∀ x ∈ ts.map Term.signedSum, Amount.Fits x := by
    intro x member
    obtain ⟨t, inside, rfl⟩ := List.mem_map.mp member
    exact (sums t inside).1
  have flipped : Outcome.totalOf (ts.map Term.flipped) =
      (ts.map Term.signedSum).foldl (fun total x => Amount.clamp (total + Amount.wrap (-x))) 0 := by
    have same : (ts.map Term.flipped).map Term.signedSum =
        (ts.map Term.signedSum).map fun x => Amount.wrap (-x) := by
      rw [List.map_map, List.map_map]
      exact List.map_congr_left fun t member => (sums t member).2
    rw [totalOfSums, same, List.foldl_map]
  have exactly := totalOfExact fun first inside => Amount.reversibleFits (reversible first inside)
  have fromZero : ∀ first, first <+: ts.map Term.signedSum → Amount.Reversible (0 + first.sum) := by
    intro first inside
    rw [Int.zero_add]
    exact reversible first inside
  have start : (0 : Int) ≤ -0 := by decide
  obtain ⟨_, last⟩ := Amount.totalNegative fit fromZero start
  rw [flipped, exactly]
  simpa using last

namespace Evaluation
variable {σ : Type} (o : Options) (r : Roller σ)

theorem termFlipped (segment : Segment) (s : σ) :
    term o r segment.flipped s = ((term o r segment s).1.flipped, (term o r segment s).2) := by
  have text : segment.flipped.text = segment.text := rfl
  cases read : Reading.ofText o.maxDice segment.text with
  | dice count faces =>
    rw [termDice s read, termDice s (text ▸ read)]
    rfl
  | modifier value =>
    rw [termModifier s read, termModifier s (text ▸ read)]
    rfl
  | rejected reason =>
    rw [termRejected s read, termRejected s (text ▸ read)]
    rfl

theorem termsFlipped (segments : List Segment) (s : σ) :
    terms o r (segments.map Segment.flipped) s =
      ((terms o r segments s).1.map Term.flipped, (terms o r segments s).2) := by
  induction segments generalizing s with
  | nil => rfl
  | cons segment rest ih => rw [List.map_cons, termsCons, termFlipped, ih, termsCons, List.map_cons]

end Evaluation

section
variable {σ : Type} (o : Options) (r : Roller σ) {input : Text}

theorem evaluateFlipped (signed : Blanks (Segment.leading input)) (s : σ) :
    let roll := evaluate o r input s
    let flipped := evaluate o r (input.map flipOperator) s
    flipped.outcome.terms = roll.outcome.terms.map Term.flipped ∧ flipped.after = roll.after := by
  have run := Evaluation.termsFlipped o r (segments input) s
  rw [← Segment.segmentsFlipped signed] at run
  exact ⟨congrArg Prod.fst run, congrArg (·.2.2) run⟩

theorem totalFlips (signed : Blanks (Segment.leading input)) (s : σ)
    (reversible : Amount.PrefixesReversible (evaluate o r input s).outcome.signedSums) :
    (evaluate o r (input.map flipOperator) s).outcome.total =
        -(evaluate o r input s).outcome.total ↔
      Amount.lowest ∉ (evaluate o r input s).outcome.signedSums := by
  rw [Outcome.total, (evaluateFlipped o r signed s).1]
  exact totalOfFlipped (Evaluation.modifiersFit o r (segments input) s) reversible

end

def Options.TotalsFlip (o : Options) : Prop :=
  ∀ (σ : Type) (r : Roller σ), r.Within → ∀ (input : Text) (s : σ),
    Blanks (Segment.leading input) →
    Amount.PrefixesReversible (evaluate o r input s).outcome.signedSums →
    (evaluate o r (input.map flipOperator) s).outcome.total =
      -(evaluate o r input s).outcome.total

theorem Sign.factorReversible (sign : Sign) {n : Nat} (high : (n : Int) ≤ Amount.highest) :
    Amount.Reversible (sign.factor * n) := by
  simp only [Amount.Reversible, Amount.highest] at high ⊢
  cases sign with
  | positive =>
    rw [factor]
    omega
  | negative =>
    rw [factor]
    omega

theorem Term.signedSumReversible (t : Term)
    (dice : ∀ d, t = .dice d → (d.outcomes.sum : Int) ≤ Amount.highest)
    (modifier : ∀ m, t = .modifier m → (m.value : Int) ≤ Amount.highest) :
    Amount.Reversible t.signedSum := by
  rw [(t.signedSumExact dice modifier).2]
  cases t with
  | dice d => exact d.sign.factorReversible (dice d rfl)
  | modifier m => exact m.sign.factorReversible (modifier m rfl)
  | invalid i => exact (by decide : Amount.Reversible 0)

theorem evaluateReversible {σ : Type} {o : Options} (few : o.maxDice ≤ DiceTerm.mostInRange)
    {r : Roller σ} (within : r.Within) (input : Text) (s : σ) :
    ∀ t ∈ (evaluate o r input s).outcome.terms, Amount.Reversible t.signedSum := by
  intro t member
  have dice : ∀ d, t = .dice d → (d.outcomes.sum : Int) ≤ Amount.highest := by
    rintro d rfl
    have wellFormed := Evaluation.termsWellFormed o within _ s _ member d rfl
    exact DiceTerm.outcomesSumBelow wellFormed (Nat.le_trans wellFormed.count.2 few)
  have modifier : ∀ m, t = .modifier m → (m.value : Int) ≤ Amount.highest := by
    rintro m rfl
    exact Evaluation.modifiersFit o r _ s m member
  exact t.signedSumReversible dice modifier

theorem lowestTwice {o : Options} (many : DiceTerm.mostInRange < o.maxDice)
    {roll flipped : Evaluation (List Nat)}
    (first : roll = evaluate o (Roller.cycling Roller.nearlyHighest)
      "+5-2147483649d4294967295".toList [])
    (second : flipped = evaluate o (Roller.cycling Roller.nearlyHighest)
      ("+5-2147483649d4294967295".toList.map flipOperator) []) :
    roll.outcome.signedSums = [5, Amount.lowest] ∧
    flipped.outcome.signedSums = [-5, Amount.lowest] := by
  obtain ⟨d, terms, sign, sum⟩ := evaluateLowest o many
  have exactly : (Term.dice d).exactSum = Amount.lowest := by
    rw [Term.exactSum, sign, sum]
    rfl
  have signed : (Term.dice d).signedSum = Amount.lowest := by
    rw [Term.signedSum, d.signedSumWraps, exactly]
    decide
  have turned : (Term.dice d).flipped.signedSum = Amount.lowest := by
    rw [((Term.dice d).signedSumFlipped (by simp)).2, signed]
    decide
  subst first second
  constructor
  · rw [Outcome.signedSums, terms, List.map_cons, List.map_cons, List.map_nil, signed]
    rfl
  · rw [Outcome.signedSums, (evaluateFlipped o _ (by decide) []).1, terms]
    simp only [List.map_cons, List.map_nil, turned]
    rfl

theorem totalsFlipIff (o : Options) : o.TotalsFlip ↔ o.maxDice ≤ DiceTerm.mostInRange := by
  constructor
  · intro flips
    apply Nat.le_of_not_lt
    intro many
    obtain ⟨sums, _⟩ := lowestTwice many rfl rfl
    have reversible : Amount.PrefixesReversible [5, Amount.lowest] := by decide
    rw [← sums] at reversible
    have inner := (totalFlips o _ (by decide) [] reversible).mp
      (flips _ _ (Roller.cyclingWithin _) _ [] (by decide) reversible)
    rw [sums] at inner
    exact inner (by decide)
  · intro few σ r within input s signed reversible
    apply (totalFlips o r signed s reversible).mpr
    intro member
    obtain ⟨t, inside, lowest⟩ := List.mem_map.mp member
    have inner := evaluateReversible few within input s t inside
    rw [lowest] at inner
    exact absurd inner (by decide)

theorem flippedOperatorsFlipRoll {σ : Type} (o : Options) (r : Roller σ) {input : Text}
    (signed : Blanks (Segment.leading input)) (s : σ) :
    let roll := evaluate o r input s
    let flipped := evaluate o r (input.map flipOperator) s
    flipped.outcome.terms = roll.outcome.terms.map Term.flipped ∧ flipped.after = roll.after ∧
    (Amount.PrefixesReversible roll.outcome.signedSums →
      (flipped.outcome.total = -roll.outcome.total ↔
        Amount.lowest ∉ roll.outcome.signedSums)) ∧
    (o.TotalsFlip ↔ o.maxDice ≤ DiceTerm.mostInRange) := by
  intro roll flipped
  obtain ⟨terms, after⟩ := evaluateFlipped o r signed s
  exact ⟨terms, after, totalFlips o r signed s, totalsFlipIff o⟩

theorem flippedOperatorsFlipRollNearEnds :
    let input := "\t--9223372036854775807 + 2d6 +- x".toList
    let roll := evaluate {} (Roller.stepping 1) input 3
    let flipped := evaluate {} (Roller.stepping 1) (input.map flipOperator) 3
    Blanks (Segment.leading input) ∧ Amount.PrefixesReversible roll.outcome.signedSums ∧
    Amount.lowest ∉ roll.outcome.signedSums ∧
    flipped.outcome.terms = [.modifier ⟨9223372036854775807, .positive⟩,
      .dice ⟨2, 6, false, [3, 4], .negative⟩, .invalid ⟨['x'], .positive, .unrecognized⟩] ∧
    flipped.outcome.total = 9223372036854775800 := by
  intro input roll flipped
  have signed : Blanks (Segment.leading input) := by decide
  have reversible : Amount.PrefixesReversible roll.outcome.signedSums := by decide
  have inner : Amount.lowest ∉ roll.outcome.signedSums := by decide
  obtain ⟨terms, _, total, _⟩ := flippedOperatorsFlipRoll {} (Roller.stepping 1) signed 3
  exact ⟨signed, reversible, inner, terms.trans (by decide),
    ((total reversible).mpr inner).trans (by decide)⟩

theorem flippedTotalAtLowest :
    let o : Options := { maxDice := 2147483649 }
    let input := "+5-2147483649d4294967295".toList
    let roll := evaluate o (Roller.cycling Roller.nearlyHighest) input []
    let flipped := evaluate o (Roller.cycling Roller.nearlyHighest) (input.map flipOperator) []
    (Roller.cycling Roller.nearlyHighest).Within ∧ Blanks (Segment.leading input) ∧
    input.map flipOperator = "-5+2147483649d4294967295".toList ∧
    Amount.PrefixesReversible roll.outcome.signedSums ∧
    roll.outcome.total = -9223372036854775803 ∧
    flipped.outcome.total = -9223372036854775808 := by
  intro o input roll flipped
  have signed : Blanks (Segment.leading input) := by decide
  have many : DiceTerm.mostInRange < o.maxDice := by decide
  have sums : roll.outcome.signedSums = [5, Amount.lowest] ∧
      flipped.outcome.signedSums = [-5, Amount.lowest] := lowestTwice many rfl rfl
  obtain ⟨first, second⟩ := sums
  refine ⟨Roller.cyclingWithin _, signed, by decide, ?_, ?_, ?_⟩
  · rw [first]
    decide
  · rw [Outcome.signedSums] at first
    rw [Outcome.total, totalOfSums, first]
    decide
  · rw [Outcome.signedSums] at second
    rw [Outcome.total, totalOfSums, second]
    decide

end Tabletop
