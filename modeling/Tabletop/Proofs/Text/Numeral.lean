import Mathlib.Data.List.Induction
import Mathlib.Data.Nat.Digits.Defs
import Tabletop.Amount
import Tabletop.Proofs.Text.Trim

/-! Numerals that are written are read again, by every reader with room for the number. A text of
digits alone has no sign, so that readers that allow one agree on it with those that do not. -/
namespace Tabletop.Text

def Digits (s : Text) : Prop := ∀ c ∈ s, c.isDigit = true

theorem digitCode {c : Char} (digit : c.isDigit = true) : 48 ≤ c.toNat ∧ c.toNat ≤ 57 := by
  simpa [Char.isDigit, UInt32.le_iff_toNat_le] using digit

theorem digitNe {c d : Char} (digit : c.isDigit = true) (other : d.isDigit = false) : c ≠ d := by
  rintro rfl
  rw [digit] at other
  contradiction

theorem digitNotBlank {c : Char} (digit : c.isDigit = true) : isBlank c = false := by
  obtain ⟨low, high⟩ := digitCode digit
  simp only [isBlank, blankRanges, List.any_cons, List.any_nil, Bool.or_false, Bool.or_eq_false_iff,
    Bool.and_eq_false_iff, decide_eq_false_iff_not]
  omega

theorem digitsOfNat (n : Nat) : Digits (ofNat n) := by
  intro c member
  exact Nat.isDigit_of_mem_toDigits (by decide) (by decide) member

theorem ofNatNonempty (n : Nat) : ofNat n ≠ [] := Nat.toDigits_ne_nil

theorem ofNatNotMember {c : Char} (other : c.isDigit = false) (n : Nat) : c ∉ ofNat n := by
  intro member
  exact digitNe (digitsOfNat n c member) other rfl

theorem trimDigits {s : Text} (digits : Digits s) : trim s = s := by
  apply trimSelf.mpr
  constructor
  · intro c member
    exact digitNotBlank (digits c (List.mem_of_mem_head? member))
  · intro c member
    exact digitNotBlank (digits c (List.mem_of_mem_getLast? member))

theorem trimOfNat (n : Nat) : trim (ofNat n) = ofNat n := trimDigits (digitsOfNat n)

theorem digitsValueOfNat (n : Nat) : digitsValue 0 (ofNat n) = n := by
  have read : Nat.ofDigitChars 10 (ofNat n) 0 = n := Nat.ofDigitChars_ten_toDigits
  rw [Nat.ofDigitChars_eq_foldl] at read
  exact read

theorem ofNatInjective {m n : Nat} (same : ofNat m = ofNat n) : m = n := by
  rw [← digitsValueOfNat m, same, digitsValueOfNat]

theorem nat?OfNat (n : Nat) : nat? (ofNat n) = some n :=
  nat?Some.mpr ⟨ofNatNonempty n, digitsOfNat n, digitsValueOfNat n⟩

theorem unsigned?Plain (bound : Nat) {s : Text} (plain : '+' ∉ s) :
    unsigned? bound s = (nat? s).filter (· < bound) := by
  unfold unsigned?
  split
  · exact absurd List.mem_cons_self plain
  · rfl

theorem signed64?Digits {s : Text} (digits : Digits s) :
    signed64? s = ((nat? s).map Int.ofNat).filter fun x =>
      -0x8000000000000000 ≤ x && x < 0x8000000000000000 := by
  unfold signed64?
  split
  · exact absurd rfl (digitNe (digits '-' (by simp)) rfl)
  · exact absurd rfl (digitNe (digits '+' (by simp)) rfl)
  · rfl

theorem unsigned?OfNat {bound n : Nat} (fits : n < bound) :
    unsigned? bound (ofNat n) = some n := by
  rw [unsigned?Plain bound (ofNatNotMember rfl n), nat?OfNat]
  simp [fits]

theorem signed64?OfNat {n : Nat} (fits : n < 0x8000000000000000) :
    signed64? (ofNat n) = some (Int.ofNat n) := by
  rw [signed64?Digits (digitsOfNat n), nat?OfNat]
  simp only [Option.map_some, Option.filter_some, Int.ofNat_eq_natCast]
  rw [if_pos]
  simp only [Bool.and_eq_true, decide_eq_true_eq]
  omega

theorem unsigned?Bound {bound n : Nat} {s : Text} (read : unsigned? bound s = some n) :
    n < bound := by
  obtain ⟨_, fits⟩ := Option.filter_eq_some_iff.mp read
  exact of_decide_eq_true fits

theorem signed64?Bound {x : Int} {s : Text} (read : signed64? s = some x) :
    x < 0x8000000000000000 := by
  obtain ⟨_, fits⟩ := Option.filter_eq_some_iff.mp read
  exact of_decide_eq_true (Bool.and_eq_true_iff.mp fits).2

theorem ofIntCharacters (x : Int) : ∀ c ∈ ofInt x, c = '-' ∨ c.isDigit = true := by
  intro c member
  cases x with
  | ofNat n => exact .inr (digitsOfNat n c member)
  | negSucc n =>
    rcases List.mem_cons.mp member with sign | digit
    · exact .inl sign
    · exact .inr (digitsOfNat (n + 1) c digit)

/-! Which texts are numbers. A text stands for the sum of its digits, each times the power of ten
of its place; the readers compute that sum from the left, and they read nothing but such texts. -/

structure Decimal (s : Text) (n : Nat) : Prop where
  nonempty : s ≠ []
  digits : Digits s
  value : Nat.ofDigits 10 (s.reverse.map digitValue) = n

theorem digitsValuePlaces (s : Text) :
    digitsValue 0 s = Nat.ofDigits 10 (s.reverse.map digitValue) := by
  induction s using List.reverseRecOn with
  | nil => rfl
  | append_singleton s c ih =>
    rw [digitsValueAppend, ih, List.reverse_append, List.reverse_singleton, List.singleton_append,
      List.map_cons, Nat.ofDigits_cons, Nat.add_comm]
    rfl

theorem nat?Decimal {s : Text} {n : Nat} : nat? s = some n ↔ Decimal s n := by
  rw [nat?Some, digitsValuePlaces]
  constructor
  · rintro ⟨nonempty, digits, value⟩
    exact ⟨nonempty, digits, value⟩
  · rintro ⟨nonempty, digits, value⟩
    exact ⟨nonempty, digits, value⟩

theorem unsigned?Decimal {bound : Nat} {s : Text} (plain : '+' ∉ s) {n : Nat} :
    unsigned? bound s = some n ↔ Decimal s n ∧ n < bound := by
  rw [unsigned?Plain bound plain, Option.filter_eq_some_iff, nat?Decimal, decide_eq_true_iff]

inductive Written : Text → Int → Prop where
  | bare {s : Text} {n : Nat} (decimal : Decimal s n) : Written s n
  | plus {s : Text} {n : Nat} (decimal : Decimal s n) : Written ('+' :: s) n
  | minus {s : Text} {n : Nat} (decimal : Decimal s n) : Written ('-' :: s) (-n)

theorem writtenCharacters {s : Text} {x : Int} (written : Written s x) :
    ∀ c ∈ s, c = '+' ∨ c = '-' ∨ c.isDigit = true := by
  intro c member
  cases written with
  | bare decimal => exact .inr (.inr (decimal.digits c member))
  | plus decimal =>
    rcases List.mem_cons.mp member with rfl | inside
    · exact .inl rfl
    · exact .inr (.inr (decimal.digits c inside))
  | minus decimal =>
    rcases List.mem_cons.mp member with rfl | inside
    · exact .inr (.inl rfl)
    · exact .inr (.inr (decimal.digits c inside))

theorem decimalZero {s : Text} : Decimal s 0 ↔ s ≠ [] ∧ ∀ c ∈ s, c = '0' := by
  constructor
  · intro decimal
    refine ⟨decimal.nonempty, ?_⟩
    intro c member
    have place : digitValue c ∈ s.reverse.map digitValue :=
      List.mem_map_of_mem (List.mem_reverse.mpr member)
    have nothing := Nat.digits_zero_of_eq_zero (by decide) decimal.value _ place
    obtain ⟨low, _⟩ := digitCode (decimal.digits c member)
    apply Char.toNat_inj.mp
    unfold digitValue at nothing
    change c.toNat = 48
    omega
  · rintro ⟨nonempty, zeros⟩
    refine ⟨nonempty, ?_, ?_⟩
    · intro c member
      rw [zeros c member]
      rfl
    · have places : s.reverse.map digitValue = List.replicate s.length 0 := by
        apply List.eq_replicate_iff.mpr
        refine ⟨by simp, ?_⟩
        intro place member
        obtain ⟨c, inside, rfl⟩ := List.mem_map.mp member
        rw [zeros c (List.mem_reverse.mp inside)]
        rfl
      rw [places, Nat.ofDigits_replicate_zero]

theorem fitsIff {x : Int} :
    (decide (-0x8000000000000000 ≤ x) && decide (x < 0x8000000000000000)) = true ↔
      Amount.Fits x := by
  simp only [Bool.and_eq_true, decide_eq_true_eq, Amount.Fits, Amount.lowest, Amount.highest]
  omega

theorem signed64?Written {s : Text} {x : Int} :
    signed64? s = some x ↔ Written s x ∧ Amount.Fits x := by
  constructor
  · intro read
    obtain ⟨value, fits⟩ := Option.filter_eq_some_iff.mp read
    refine ⟨?_, fitsIff.mp fits⟩
    split at value
    · obtain ⟨n, digits, rfl⟩ := Option.map_eq_some_iff.mp value
      exact .minus (nat?Decimal.mp digits)
    · obtain ⟨n, digits, rfl⟩ := Option.map_eq_some_iff.mp value
      exact .plus (nat?Decimal.mp digits)
    · obtain ⟨n, digits, rfl⟩ := Option.map_eq_some_iff.mp value
      exact .bare (nat?Decimal.mp digits)
  · rintro ⟨written, fits⟩
    cases written with
    | bare decimal =>
      rw [signed64?Digits decimal.digits, nat?Decimal.mpr decimal]
      exact Option.filter_eq_some_iff.mpr ⟨rfl, fitsIff.mpr fits⟩
    | plus decimal =>
      apply Option.filter_eq_some_iff.mpr
      refine ⟨?_, fitsIff.mpr fits⟩
      exact Option.map_eq_some_iff.mpr ⟨_, nat?Decimal.mpr decimal, rfl⟩
    | minus decimal =>
      apply Option.filter_eq_some_iff.mpr
      refine ⟨?_, fitsIff.mpr fits⟩
      exact Option.map_eq_some_iff.mpr ⟨_, nat?Decimal.mpr decimal, rfl⟩

theorem trimPadded {w v s : Text} (before : Blanks w) (after : Blanks v) (trimmed : trim s = s) :
    trim (w ++ s ++ v) = s := by
  rw [trimBlanksRight after, trimBlanksLeft before, trimmed]

end Tabletop.Text
