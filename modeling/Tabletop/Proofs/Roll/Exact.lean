import Mathlib.Algebra.Order.BigOperators.Group.List
import Mathlib.Algebra.Order.Ring.Nat
import Tabletop.Proofs.Roll.Draws
import Tabletop.Settings

/-! The amounts of single terms under settings that were accepted. Their limit on the dice of one
term keeps the sum of those dice far from the ends of the range, so that no addition and no change
of sign leaves it. What remains is the total, which alone may have to stop at an end. -/
namespace Tabletop

namespace Amount

def add? (x y : Int) : Option Int := if Fits (x + y) then some (x + y) else none

def negate? (x : Int) : Option Int := if Fits (-x) then some (-x) else none

end Amount

namespace Sign

def applied? : Sign → Int → Option Int
  | positive, x => some x
  | negative, x => Amount.negate? x

def factor : Sign → Int
  | positive => 1
  | negative => -1

theorem applyExact (sign : Sign) {x : Int} (low : 0 ≤ x) (high : x ≤ Amount.highest) :
    sign.applied? x = some (sign.apply x) ∧ sign.apply x = sign.factor * x := by
  cases sign with
  | positive => exact ⟨rfl, (Int.one_mul x).symm⟩
  | negative =>
    have fits : Amount.Fits (-x) := by
      simp only [Amount.Fits, Amount.lowest, Amount.highest] at high ⊢
      omega
    have same : negative.apply x = -x := applyNegative fits
    rw [same]
    exact ⟨if_pos fits, Int.neg_eq_neg_one_mul x⟩

end Sign

def DiceTerm.sum? (d : DiceTerm) : Option Int :=
  d.outcomes.foldlM (fun (total : Int) (x : Nat) => Amount.add? total x) 0

namespace Term

/- `none` where an addition or a change of sign leaves the range. -/
def signedSum? : Term → Option Int
  | dice d => d.sum?.bind d.sign.applied?
  | modifier m => m.sign.applied? m.value
  | invalid _ => some 0

def exactSum : Term → Int
  | dice d => d.sign.factor * (d.outcomes.sum : Int)
  | modifier m => m.sign.factor * m.value
  | invalid _ => 0

end Term

namespace DiceTerm

theorem sumsFit {outcomes : List Nat} {start : Int} (low : 0 ≤ start)
    (high : start + (outcomes.sum : Int) ≤ Amount.highest) :
    outcomes.foldlM (fun (total : Int) (x : Nat) => Amount.add? total x) start =
      some (start + (outcomes.sum : Int)) ∧
    outcomes.foldl (fun (total : Int) (x : Nat) => Amount.wrap (total + x)) start =
      start + (outcomes.sum : Int) := by
  -- The dice still to come only add to the sum so far, so if the last sum fits they all do.
  induction outcomes generalizing start with
  | nil => simp
  | cons x rest ih =>
    rw [List.sum_cons, Int.natCast_add, ← Int.add_assoc] at high ⊢
    have fits : Amount.Fits (start + x) := by
      simp only [Amount.Fits, Amount.lowest, Amount.highest] at high ⊢
      omega
    have added : Amount.add? start x = some (start + x) := if_pos fits
    rw [List.foldlM_cons, List.foldl_cons, added, Amount.wrapOfFits fits]
    exact ih (Int.add_nonneg low (Int.natCast_nonneg x)) high

theorem sumExact {d : DiceTerm} (high : (d.outcomes.sum : Int) ≤ Amount.highest) :
    d.sum? = some d.sum ∧ d.sum = (d.outcomes.sum : Int) := by
  have fits : 0 + (d.outcomes.sum : Int) ≤ Amount.highest := by omega
  obtain ⟨checked, wrapped⟩ := sumsFit (Int.le_refl 0) fits
  rw [Int.zero_add] at checked wrapped
  exact ⟨checked.trans (congrArg some wrapped.symm), wrapped⟩

theorem outcomesSumLe {o : Options} {d : DiceTerm} (wellFormed : d.WellFormed o) :
    d.outcomes.sum ≤ d.count * d.faces := by
  have each : ∀ x ∈ d.outcomes, x ≤ d.faces := by
    intro x member
    obtain ⟨_, high⟩ := FaceRange.containsIff.mp (wellFormed.inRange x member)
    rw [wellFormed.numbered] at high
    exact Nat.le_trans high (Nat.sub_le _ _)
  have sum : d.outcomes.sum ≤ d.outcomes.length * d.faces := List.sum_le_card_nsmul _ _ each
  rwa [wellFormed.everyDie] at sum

def mostInRange : Nat := 0x80000000

theorem outcomesSumBelow {o : Options} {d : DiceTerm} (wellFormed : d.WellFormed o)
    (few : d.count ≤ mostInRange) : (d.outcomes.sum : Int) ≤ Amount.highest := by
  have most : d.outcomes.sum ≤ mostInRange * (UInt32.size - 1) :=
    Nat.le_trans (outcomesSumLe wellFormed)
      (Nat.mul_le_mul few (Nat.le_sub_one_of_lt wellFormed.faces.2))
  have room : ((mostInRange * (UInt32.size - 1) : Nat) : Int) ≤ Amount.highest := by decide
  exact Int.le_trans (Int.ofNat_le.mpr most) room

theorem outcomesSumFits {o : Options} {d : DiceTerm} (wellFormed : d.WellFormed o)
    (limit : o.maxDice ≤ maxDiceCeiling) : (d.outcomes.sum : Int) ≤ Amount.highest := by
  have dice : d.count ≤ maxDiceCeiling := Nat.le_trans wellFormed.count.2 limit
  exact outcomesSumBelow wellFormed (Nat.le_trans dice (by decide))

end DiceTerm

theorem Term.signedSumExact (t : Term)
    (dice : ∀ d, t = .dice d → (d.outcomes.sum : Int) ≤ Amount.highest)
    (modifier : ∀ m, t = .modifier m → (m.value : Int) ≤ Amount.highest) :
    t.signedSum? = some t.signedSum ∧ t.signedSum = t.exactSum := by
  cases t with
  | dice d =>
    obtain ⟨checked, sum⟩ := DiceTerm.sumExact (dice d rfl)
    have low : 0 ≤ d.sum := sum ▸ Int.natCast_nonneg _
    have high : d.sum ≤ Amount.highest := sum ▸ dice d rfl
    obtain ⟨applied, signed⟩ := d.sign.applyExact low high
    constructor
    · rw [signedSum?, checked]
      exact applied
    · rw [exactSum, ← sum]
      exact signed
  | modifier m => exact m.sign.applyExact (Int.natCast_nonneg _) (modifier m rfl)
  | invalid i => exact ⟨rfl, rfl⟩

namespace Settings

def Accepted (settings : Settings) : Prop :=
  settings = {} ∨ ∃ text, ofText text = .ok settings

theorem acceptedLimit {settings : Settings} (accepted : settings.Accepted) :
    settings.options.maxDice ≤ maxDiceCeiling := by
  rcases accepted with rfl | ⟨text, loaded⟩
  · decide
  · unfold ofText at loaded
    split at loaded
    · obtain ⟨rfl, _, limit⟩ := validateOk.mp loaded
      exact limit
    · contradiction

end Settings

namespace Evaluation
variable {σ : Type}

theorem termModifierRead (o : Options) (r : Roller σ) (segment : Segment) (s : σ) {m : ModifierTerm}
    (rolled : (term o r segment s).1 = .modifier m) :
    Text.signed64? segment.text = some (m.value : Int) :=
  Reading.ofTextRead (((termReads o r segment s).modifier m.value).mpr ⟨m, rolled, rfl⟩)

theorem modifiersRead (o : Options) (r : Roller σ) (segments : List Segment) (s : σ) :
    ∀ t ∈ (terms o r segments s).1, ∀ m, t = .modifier m →
      ∃ segment ∈ segments, Text.signed64? segment.text = some (m.value : Int) :=
  termsAll o r
    (fun segment member s _ rolled => ⟨segment, member, termModifierRead o r segment s rolled⟩) s

theorem modifiersFit (o : Options) (r : Roller σ) (segments : List Segment) (s : σ) :
    ∀ m, .modifier m ∈ (terms o r segments s).1 → (m.value : Int) ≤ Amount.highest := by
  intro m member
  obtain ⟨_, _, read⟩ := modifiersRead o r segments s _ member m rfl
  exact Int.le_of_lt_add_one (Text.signed64?Bound read)

end Evaluation

theorem acceptedSettingsKeepSumsExact {σ : Type} {settings : Settings}
    (accepted : settings.Accepted) {r : Roller σ} (within : r.Within) (input : Text) (s : σ) :
    let outcome := (evaluate settings.options r input s).outcome
    (∀ d ∈ outcome.diceTerms,
      d.sum? = some d.sum ∧ d.sum = (d.outcomes.sum : Int) ∧ 0 ≤ d.sum) ∧
    (∀ m ∈ outcome.modifierTerms, (m.value : Int) ≤ Amount.highest ∧
      ∃ segment ∈ segments input, Text.signed64? segment.text = some (m.value : Int)) ∧
    (∀ t ∈ outcome.terms, t.signedSum? = some t.signedSum ∧ t.signedSum = t.exactSum) ∧
    outcome.total =
      (outcome.terms.map Term.exactSum).foldl (fun total x => Amount.clamp (total + x)) 0 := by
  intro outcome
  have dice : ∀ d, .dice d ∈ outcome.terms → (d.outcomes.sum : Int) ≤ Amount.highest := by
    intro d member
    exact DiceTerm.outcomesSumFits
      (Evaluation.termsWellFormed settings.options within _ s _ member d rfl)
      (Settings.acceptedLimit accepted)
  have modifiers : ∀ m, .modifier m ∈ outcome.terms → (m.value : Int) ≤ Amount.highest ∧
      ∃ segment ∈ segments input, Text.signed64? segment.text = some (m.value : Int) := by
    intro m member
    obtain ⟨segment, inside, read⟩ :=
      Evaluation.modifiersRead settings.options r _ s _ member m rfl
    exact ⟨Int.le_of_lt_add_one (Text.signed64?Bound read), segment, inside, read⟩
  have sums : ∀ t ∈ outcome.terms, t.signedSum? = some t.signedSum ∧ t.signedSum = t.exactSum := by
    intro t member
    exact t.signedSumExact (fun d same => dice d (same ▸ member))
      (fun m same => (modifiers m (same ▸ member)).1)
  refine ⟨?_, ?_, sums, ?_⟩
  · intro d member
    obtain ⟨checked, sum⟩ := DiceTerm.sumExact (dice d (Outcome.diceTermIff.mp member))
    exact ⟨checked, sum, sum ▸ Int.natCast_nonneg _⟩
  · intro m member
    exact modifiers m (Outcome.modifierTermIff.mp member)
  · have exactly : outcome.terms.map Term.exactSum = outcome.terms.map Term.signedSum :=
      List.map_congr_left fun t member => (sums t member).2.symm
    rw [exactly, List.foldl_map]
    rfl

theorem acceptedSettingsKeepSumsExactAtCeiling :
    let settings : Settings := { maxDice := 100000 }
    let r := Roller.stepping 1
    let outcome := (evaluate settings.options r
      "9223372036854775807 + 2d4294967295 - 100001d6 - 3d6".toList 4294967295).outcome
    settings.Accepted ∧ r.Within ∧ (∀ t ∈ outcome.terms, t.signedSum? = some t.signedSum) ∧
    outcome.terms.map Term.exactSum = [9223372036854775807, 4294967296, 0, -12] ∧
    outcome.total = 9223372036854775795 := by
  intro settings r outcome
  have accepted : settings.Accepted := by
    have read : (Settings.ofText "max_dice = 100000\n".toList).toOption = some settings := by
      decide +kernel
    refine .inr ⟨"max_dice = 100000\n".toList, ?_⟩
    cases loaded : Settings.ofText "max_dice = 100000\n".toList with
    | error e =>
      rw [loaded] at read
      contradiction
    | ok found =>
      rw [loaded] at read
      exact congrArg Except.ok (Option.some.inj read)
  have within : r.Within := Roller.steppingWithin 1
  obtain ⟨_, _, sums, total⟩ := acceptedSettingsKeepSumsExact accepted within
    "9223372036854775807 + 2d4294967295 - 100001d6 - 3d6".toList 4294967295
  have exactly : outcome.terms.map Term.exactSum = [9223372036854775807, 4294967296, 0, -12] := by
    decide
  refine ⟨accepted, within, fun t member => (sums t member).1, exactly, ?_⟩
  calc outcome.total
      = (outcome.terms.map Term.exactSum).foldl (fun total x => Amount.clamp (total + x)) 0 := total
    _ = 9223372036854775795 := by
      rw [exactly]
      decide

end Tabletop
