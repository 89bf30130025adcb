import Tabletop.Proofs.Expression.Whole
import Tabletop.Proofs.Roll.Exact

/-! The texts that are read as flat numbers. A sign may stand before the digits, but what is read
is never below zero: after a minus there are only zeros. The text of a segment holds no sign, so
there the digits are all of it. -/
namespace Tabletop.Reading
open Text (Decimal Written)

inductive Flat : Text → Nat → Prop where
  | bare {s : Text} {n : Nat} (decimal : Decimal s n) (fits : (n : Int) ≤ Amount.highest) :
      Flat s n
  | plus {s : Text} {n : Nat} (decimal : Decimal s n) (fits : (n : Int) ≤ Amount.highest) :
      Flat ('+' :: s) n
  | minus {s : Text} (nonempty : s ≠ []) (zeros : ∀ c ∈ s, c = '0') : Flat ('-' :: s) 0

theorem naturalFits {n : Nat} : Amount.Fits n ↔ (n : Int) ≤ Amount.highest := by
  have low : Amount.lowest ≤ n := Int.le_trans (by decide) (Int.natCast_nonneg n)
  exact ⟨And.right, And.intro low⟩

/- The one number that may be written with a minus is zero. -/
theorem flatWritten {s : Text} {n : Nat} : Flat s n ↔ Written s n ∧ Amount.Fits n := by
  constructor
  · intro flat
    cases flat with
    | bare decimal fits => exact ⟨.bare decimal, naturalFits.mpr fits⟩
    | plus decimal fits => exact ⟨.plus decimal, naturalFits.mpr fits⟩
    | minus nonempty zeros =>
      exact ⟨.minus (Text.decimalZero.mpr ⟨nonempty, zeros⟩), by decide⟩
  · rintro ⟨written, fits⟩
    have room := naturalFits.mp fits
    generalize value : (n : Int) = x at written
    cases written with
    | bare decimal =>
      cases Int.ofNat.inj value
      exact .bare decimal room
    | plus decimal =>
      cases Int.ofNat.inj value
      exact .plus decimal room
    | @minus t m decimal =>
      obtain ⟨rfl, rfl⟩ : n = 0 ∧ m = 0 := by omega
      obtain ⟨nonempty, zeros⟩ := Text.decimalZero.mp decimal
      exact .minus nonempty zeros

theorem writtenUnmarked {s : Text} {x : Int} (written : Written s x) : Unmarked s := by
  intro c member
  rcases Text.writtenCharacters written c member with rfl | rfl | digit
  · rfl
  · rfl
  · exact digitNotMarker digit

theorem ofTextUnmarked (limit : Nat) {s : Text} (unmarked : Unmarked s) :
    ofText limit s = ofFlat s := by
  simp only [ofText, unmarkedIff.mpr unmarked]

theorem ofTextFlat {limit : Nat} {s : Text} {n : Nat} :
    ofText limit s = .modifier n ↔ Flat s n := by
  rw [flatWritten, ← Text.signed64?Written]
  constructor
  · exact ofTextRead
  · intro read
    have unmarked := writtenUnmarked (Text.signed64?Written.mp read).1
    rw [ofTextUnmarked limit unmarked, ofFlat, read]

theorem ofTextNegative (limit : Nat) {s : Text} {x : Int} (read : Text.signed64? s = some x)
    (negative : x < 0) : ofText limit s = .rejected .unrecognized := by
  have unmarked := writtenUnmarked (Text.signed64?Written.mp read).1
  rw [ofTextUnmarked limit unmarked, ofFlat, read]
  cases x with
  | ofNat n => exact absurd negative (Int.not_lt.mpr (Int.natCast_nonneg n))
  | negSucc n => rfl

theorem flatPlain {s : Text} {n : Nat} (plain : Token.Plain s) :
    Flat s n ↔ Decimal s n ∧ (n : Int) ≤ Amount.highest := by
  constructor
  · intro flat
    cases flat with
    | bare decimal fits => exact ⟨decimal, fits⟩
    | plus _ _ => exact absurd (plain '+' List.mem_cons_self) (by decide)
    | minus _ _ => exact absurd (plain '-' List.mem_cons_self) (by decide)
  · rintro ⟨decimal, fits⟩
    exact .bare decimal fits

theorem flatApplied {s : Text} {n : Nat} (flat : Flat s n) (sign : Sign) :
    sign.applied? n = some (sign.apply n) ∧ sign.apply n = sign.factor * n :=
  sign.applyExact (Int.natCast_nonneg n) (flatWritten.mp flat).2.2

theorem modifierGrammarExact (limit : Nat) (s input : Text) :
    (∀ n, ofText limit s = .modifier n ↔ Flat s n) ∧
    (∀ x, Text.signed64? s = some x → x < 0 → ofText limit s = .rejected .unrecognized) ∧
    ∀ segment ∈ segments input, ∀ n,
      (ofText limit segment.text = .modifier n ↔
        Decimal segment.text n ∧ (n : Int) ≤ Amount.highest) ∧
      (ofText limit segment.text = .modifier n → ∀ sign : Sign,
        sign.applied? n = some (sign.apply n) ∧ sign.apply n = sign.factor * n) := by
  refine ⟨fun _ => ofTextFlat, fun _ read negative => ofTextNegative limit read negative, ?_⟩
  intro segment member n
  have plain := (Segment.segmentTextsWhole input segment member).plain
  exact ⟨ofTextFlat.trans (flatPlain plain), fun read => flatApplied (ofTextFlat.mp read)⟩

example : ofText 0 "-00".toList = .modifier 0 ∧ ofText 0 "-01".toList = .rejected .unrecognized := by
  decide

end Tabletop.Reading
