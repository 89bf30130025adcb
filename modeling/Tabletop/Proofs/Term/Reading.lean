import Tabletop.Proofs.Text.Numeral
import Tabletop.Term

/-! What the text of a term must be like to be read as dice or as a flat number, and how a text
is read that is put together from numbers. -/
namespace Tabletop.Reading
open Text (Digits ofNat)

theorem ofFlatNotDice {s : Text} {count faces : Nat} : ofFlat s ≠ .dice count faces := by
  unfold ofFlat
  split <;> simp

theorem ofNumbersExact {limit c f count faces : Nat}
    (read : ofNumbers limit c f = .dice count faces) :
    (c = count ∧ f = faces) ∧ 0 < count ∧ 0 < faces ∧ count ≤ limit := by
  unfold ofNumbers at read
  split at read
  · contradiction
  · split at read
    · contradiction
    · split at read
      · contradiction
      · cases read
        omega

theorem ofTextDice {limit : Nat} {s : Text} {c f : Nat} (read : ofText limit s = .dice c f) :
    ∃ before after, splitMarker? s = some (before, after) ∧
      ofNumbers limit (count (Text.trim before)) (number (Text.trim after)) = .dice c f := by
  unfold ofText at read
  split at read
  · exact absurd read ofFlatNotDice
  · unfold ofDice at read
    split at read
    · split at read
      · rename_i before after found
        exact ⟨before, after, found, read⟩
      · contradiction
    · contradiction
  · contradiction

theorem ofTextBounds {limit : Nat} {s : Text} {count faces : Nat}
    (read : ofText limit s = .dice count faces) : 0 < count ∧ 0 < faces ∧ count ≤ limit := by
  obtain ⟨_, _, _, numbers⟩ := ofTextDice read
  exact (ofNumbersExact numbers).2

theorem numberWord (s : Text) : number s < UInt32.size := by
  unfold number
  cases read : Text.unsigned? UInt32.size s with
  | none => decide
  | some n => exact Text.unsigned?Bound read

theorem countWord (s : Text) : count s < UInt32.size := by
  unfold count
  split
  · decide
  · exact numberWord s

theorem ofTextWords {limit : Nat} {s : Text} {c f : Nat} (read : ofText limit s = .dice c f) :
    c < UInt32.size ∧ f < UInt32.size := by
  obtain ⟨before, after, _, numbers⟩ := ofTextDice read
  obtain ⟨⟨rfl, rfl⟩, _⟩ := ofNumbersExact numbers
  exact ⟨countWord _, numberWord _⟩

theorem ofFlatRead {s : Text} {value : Nat} (read : ofFlat s = .modifier value) :
    Text.signed64? s = some (value : Int) := by
  unfold ofFlat at read
  split at read
  · rename_i x found
    cases read
    exact found
  · contradiction

theorem ofDiceNotModifier {limit : Nat} {s : Text} {value : Nat} :
    ofDice limit s ≠ .modifier value := by
  unfold ofDice ofNumbers
  repeat' split
  all_goals simp

theorem ofTextRead {limit : Nat} {s : Text} {value : Nat}
    (read : ofText limit s = .modifier value) : Text.signed64? s = some (value : Int) := by
  unfold ofText at read
  split at read
  · exact ofFlatRead read
  · exact absurd read ofDiceNotModifier
  · contradiction

theorem ofTextModifier {limit : Nat} {s : Text} {value : Nat}
    (read : ofText limit s = .modifier value) : value < 0x8000000000000000 := by
  have bound := Text.signed64?Bound (ofTextRead read)
  omega

def Half (s : Text) : Prop := ∀ c ∈ s, isDiceCharacter c = true ∧ isMarker c = false

theorem digitNotMarker {c : Char} (digit : c.isDigit = true) : isMarker c = false := by
  have lower := Text.digitNe digit (d := 'd') rfl
  have upper := Text.digitNe digit (d := 'D') rfl
  simp [isMarker, lower, upper]

theorem halfDigits {s : Text} (digits : Digits s) : Half s := by
  intro c member
  have digit := digits c member
  exact ⟨by simp [isDiceCharacter, digit], digitNotMarker digit⟩

def Unmarked (s : Text) : Prop := ∀ c ∈ s, isMarker c = false

theorem halfUnmarked {s : Text} (half : Half s) : Unmarked s := fun c member => (half c member).2

theorem unmarkedIff {s : Text} : s.countP isMarker = 0 ↔ Unmarked s := by
  simp [List.countP_eq_zero, Unmarked]

theorem halfNoMarker {s : Text} (half : Half s) : s.countP isMarker = 0 :=
  unmarkedIff.mpr (halfUnmarked half)

theorem splitMarked {before after : Text} {m : Char} (marker : isMarker m = true)
    (first : Unmarked before) : splitMarker? (before ++ m :: after) = some (before, after) := by
  have passed : ∀ c ∈ before, (!isMarker c) = true := by
    intro c member
    rw [first c member]
    rfl
  unfold splitMarker?
  rw [List.dropWhile_append_of_pos passed, List.takeWhile_append_of_pos passed]
  simp [marker]

theorem ofTextMarked (limit : Nat) {before after : Text} {m : Char} (marker : isMarker m = true)
    (first : Half before) (second : Half after) :
    ofText limit (before ++ m :: after) =
      ofNumbers limit (count (Text.trim before)) (number (Text.trim after)) := by
  have markers : (before ++ m :: after).countP isMarker = 1 := by
    rw [List.countP_append, List.countP_cons, halfNoMarker first, halfNoMarker second, if_pos marker]
  have clean : (before ++ m :: after).filter (!isDiceCharacter ·) = [] := by
    apply List.filter_eq_nil_iff.mpr
    intro c member
    have allowed : isDiceCharacter c = true := by
      rcases List.mem_append.mp member with early | late
      · exact (first c early).1
      · rcases List.mem_cons.mp late with rfl | late
        · simp [isDiceCharacter, marker]
        · exact (second c late).1
    simp [allowed]
  rw [ofText, markers]
  change ofDice limit (before ++ m :: after) = _
  rw [ofDice, clean]
  simp only [splitMarked marker (halfUnmarked first)]

theorem numberOfNat {n : Nat} (fits : n < UInt32.size) : number (ofNat n) = n := by
  rw [number, Text.unsigned?OfNat fits]
  rfl

theorem countOfNat {n : Nat} (fits : n < UInt32.size) : count (ofNat n) = n := by
  rw [count, if_neg (Text.ofNatNonempty n), numberOfNat fits]

theorem ofTextNumerals {limit c f : Nat} (dice : 0 < c ∧ 0 < f ∧ c ≤ limit)
    (words : c < UInt32.size ∧ f < UInt32.size) :
    ofText limit (ofNat c ++ 'd' :: ofNat f) = .dice c f := by
  obtain ⟨some, real, most⟩ := dice
  have first := halfDigits (Text.digitsOfNat c)
  have second := halfDigits (Text.digitsOfNat f)
  rw [ofTextMarked limit rfl first second, Text.trimOfNat, Text.trimOfNat, countOfNat words.1,
    numberOfNat words.2]
  exact ofNumbersDice.mpr ⟨Nat.ne_of_gt some, Nat.ne_of_gt real, most⟩

theorem ofTextOfNat (limit : Nat) {n : Nat} (fits : n < 0x8000000000000000) :
    ofText limit (ofNat n) = .modifier n := by
  rw [ofText, halfNoMarker (halfDigits (Text.digitsOfNat n))]
  change ofFlat (ofNat n) = _
  rw [ofFlat, Text.signed64?OfNat fits]

end Tabletop.Reading
