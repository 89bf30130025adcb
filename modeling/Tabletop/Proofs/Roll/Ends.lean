import Mathlib.Algebra.Order.BigOperators.Group.List
import Mathlib.Algebra.Order.Ring.Int
import Tabletop.Proofs.Roll.Concatenation

/-! Totals near the ends of the range and away from them. A total that stops at an end comes away
from it again with the next term of the other sign, so order counts there. It does not count when
the terms are too small to reach an end at all, and amounts of one sign reach only one end, where
they stay. -/
namespace Tabletop

namespace Amount

def magnitude (amounts : List Int) : Nat := (amounts.map Int.natAbs).sum

def OneSided (amounts : List Int) : Prop :=
  (∀ x ∈ amounts, 0 ≤ x) ∨ ∀ x ∈ amounts, x ≤ 0

theorem magnitudeAppend (first second : List Int) :
    magnitude (first ++ second) = magnitude first + magnitude second := by
  simp [magnitude]

theorem sumWithinMagnitude (amounts : List Int) : amounts.sum.natAbs ≤ magnitude amounts := by
  induction amounts with
  | nil => exact Nat.le_refl 0
  | cons x rest ih =>
    have parts : (x + rest.sum).natAbs ≤ x.natAbs + rest.sum.natAbs := Int.natAbs_add_le x rest.sum
    have whole : magnitude (x :: rest) = x.natAbs + magnitude rest := by simp [magnitude]
    rw [List.sum_cons, whole]
    omega

theorem smallPrefixesFit {amounts : List Int} (small : (magnitude amounts : Int) ≤ highest) :
    PrefixesFit amounts := by
  rintro first ⟨rest, rfl⟩
  have part : first.sum.natAbs ≤ magnitude first := sumWithinMagnitude first
  have whole := magnitudeAppend first rest
  simp only [Fits, lowest, highest] at small ⊢
  omega

theorem sumNonpositive {amounts : List Int} (low : ∀ x ∈ amounts, x ≤ 0) : amounts.sum ≤ 0 := by
  simpa using List.sum_le_card_nsmul amounts 0 low

/- The amounts still to come are on the same side, so a total that has stopped stays stopped. -/
theorem sidedSum {amounts : List Int} (sided : OneSided amounts) {start : Int}
    (fits : Fits start) :
    amounts.foldl (fun total x => clamp (total + x)) start = clamp (start + amounts.sum) := by
  induction amounts generalizing start with
  | nil => simp [clampOfFits fits]
  | cons x rest ih =>
    have later : OneSided rest :=
      sided.imp (fun low y inside => low y (List.mem_cons_of_mem x inside))
        (fun high y inside => high y (List.mem_cons_of_mem x inside))
    have same : 0 ≤ x ∧ 0 ≤ rest.sum ∨ x ≤ 0 ∧ rest.sum ≤ 0 := by
      rcases sided with low | high
      · exact .inl ⟨low x List.mem_cons_self,
          List.sum_nonneg fun y inside => low y (List.mem_cons_of_mem x inside)⟩
      · exact .inr ⟨high x List.mem_cons_self,
          sumNonpositive fun y inside => high y (List.mem_cons_of_mem x inside)⟩
    rw [List.foldl_cons, ih later (clampFits _), List.sum_cons]
    simp only [Fits, clamp, lowest, highest] at fits ⊢
    omega

end Amount

theorem totalOfSided {ts : List Term} (sided : Amount.OneSided (ts.map Term.signedSum)) :
    Outcome.totalOf ts = Amount.clamp (ts.map Term.signedSum).sum := by
  have fits : Amount.Fits 0 := by decide
  rw [totalOfSums, Amount.sidedSum sided fits, Int.zero_add]

theorem totalOfValid (before ts : List Term) :
    Outcome.totalOf (before ++ ts) = Outcome.totalOf (before ++ ts.filter (!·.isInvalid)) := by
  induction ts generalizing before with
  | nil => rfl
  | cons t rest ih =>
    cases t with
    | invalid i =>
      rw [totalOfNeutral rfl before rest, ih before]
      rfl
    | dice d =>
      rw [List.filter_cons_of_pos rfl, List.append_cons, ih, ← List.append_cons]
    | modifier m =>
      rw [List.filter_cons_of_pos rfl, List.append_cons, ih, ← List.append_cons]

theorem totalOfPerm {ts others : List Term} (same : others.Perm ts)
    (small : (Amount.magnitude (ts.map Term.signedSum) : Int) ≤ Amount.highest) :
    Outcome.totalOf others = Outcome.totalOf ts := by
  have sums : (others.map Term.signedSum).Perm (ts.map Term.signedSum) := same.map _
  have also : Amount.magnitude (others.map Term.signedSum) =
      Amount.magnitude (ts.map Term.signedSum) := (sums.map _).sum_eq
  rw [totalOfExact (Amount.smallPrefixesFit small),
    totalOfExact (Amount.smallPrefixesFit (also ▸ small)), sums.sum_eq]

theorem signedSumsByKind (outcome : Outcome) :
    outcome.signedSums.sum = (outcome.diceTerms.map DiceTerm.signedSum).sum +
      (outcome.modifierTerms.map ModifierTerm.signedSum).sum := by
  have kinds := ((kindsPerm outcome.terms).map Term.signedSum).sum_eq
  have nothing : (outcome.invalidTerms.map InvalidTerm.signedSum).sum = 0 := by
    apply List.sum_eq_zero
    intro x member
    obtain ⟨i, _, rfl⟩ := List.mem_map.mp member
    rfl
  simp only [List.map_append, List.map_map, List.sum_append] at kinds
  change _ + (outcome.invalidTerms.map InvalidTerm.signedSum).sum = _ at kinds
  rw [nothing, Int.add_zero] at kinds
  exact kinds.symm

theorem totalExactOrAtEnd (outcome : Outcome) :
    Outcome.totalOf (outcome.terms.filter (!·.isInvalid)) = outcome.total ∧
    (Amount.PrefixesFit outcome.signedSums → outcome.total = outcome.signedSums.sum) ∧
    ((Amount.magnitude outcome.signedSums : Int) ≤ Amount.highest →
      outcome.total = (outcome.diceTerms.map DiceTerm.signedSum).sum +
        (outcome.modifierTerms.map ModifierTerm.signedSum).sum ∧
      ∀ others : List Term, others.Perm outcome.terms → Outcome.totalOf others = outcome.total) ∧
    ((∀ x ∈ outcome.signedSums, 0 ≤ x) →
      outcome.total = min outcome.signedSums.sum Amount.highest) ∧
    ((∀ x ∈ outcome.signedSums, x ≤ 0) →
      outcome.total = max outcome.signedSums.sum Amount.lowest) := by
  refine ⟨(totalOfValid [] outcome.terms).symm, totalExact, ?_, ?_, ?_⟩
  · intro small
    constructor
    · rw [totalExact (Amount.smallPrefixesFit small), signedSumsByKind]
    · intro others same
      exact totalOfPerm same small
  · intro positive
    have stopped : outcome.total = Amount.clamp outcome.signedSums.sum :=
      totalOfSided (.inl positive)
    have above : 0 ≤ outcome.signedSums.sum := List.sum_nonneg positive
    rw [stopped]
    simp only [Amount.clamp, Amount.lowest, Amount.highest]
    omega
  · intro negative
    have stopped : outcome.total = Amount.clamp outcome.signedSums.sum :=
      totalOfSided (.inr negative)
    have below : outcome.signedSums.sum ≤ 0 := Amount.sumNonpositive negative
    rw [stopped]
    simp only [Amount.clamp, Amount.lowest, Amount.highest]
    omega

theorem totalExactOrAtEndNearEnds :
    let r := Roller.stepping 1
    let mixed := (evaluate {} r "9223372036854775790 - x - 2d6 + 3".toList 3).outcome
    let rising := (evaluate {} r "9223372036854775807 + q + 2d6".toList 3).outcome
    let falling := (evaluate {} r "-9223372036854775807 - 2d6 - 4".toList 3).outcome
    Amount.PrefixesFit mixed.signedSums ∧
    (Amount.magnitude mixed.signedSums : Int) ≤ Amount.highest ∧
    (∀ x ∈ rising.signedSums, 0 ≤ x) ∧ (∀ x ∈ falling.signedSums, x ≤ 0) ∧
    mixed.total = 9223372036854775786 ∧ Outcome.totalOf mixed.terms.reverse = mixed.total ∧
    rising.total = 9223372036854775807 ∧ falling.total = -9223372036854775808 := by
  intro r mixed rising falling
  have fit : Amount.PrefixesFit mixed.signedSums := by decide
  have small : (Amount.magnitude mixed.signedSums : Int) ≤ Amount.highest := by decide
  have positive : ∀ x ∈ rising.signedSums, 0 ≤ x := by decide
  have negative : ∀ x ∈ falling.signedSums, x ≤ 0 := by decide
  obtain ⟨_, exactly, unordered, _, _⟩ := totalExactOrAtEnd mixed
  obtain ⟨_, _, _, above, _⟩ := totalExactOrAtEnd rising
  obtain ⟨_, _, _, _, below⟩ := totalExactOrAtEnd falling
  refine ⟨fit, small, positive, negative, (exactly fit).trans (by decide), ?_,
    (above positive).trans (by decide), (below negative).trans (by decide)⟩
  exact (unordered small).2 _ (List.reverse_perm mixed.terms)

end Tabletop
