import Tabletop.Proofs.Term.Grammar

/-! Why a text is rejected. Each cause is a property of the text alone, and several can hold at
once; the one that is reported is the first in a fixed order, whatever else the text holds. -/
namespace Tabletop

namespace Rejection.Kind

def rank : Kind → Nat
  | manyMarkers => 0
  | badCharacters => 1
  | badCount => 2
  | badSize => 3
  | tooManyDice => 4
  | unrecognized => 5

theorem rankInjective {one two : Kind} (same : one.rank = two.rank) : one = two := by
  cases one <;> cases two <;> simp_all [rank]

end Rejection.Kind

namespace Reading
open Text (Decimal trim)
open Rejection (Kind)

def Applies (limit : Nat) (s : Text) : Kind → Prop
  | .manyMarkers => 2 ≤ s.countP isMarker
  | .badCharacters => s.countP isMarker = 1 ∧ ∃ c ∈ s, isDiceCharacter c = false
  | .badCount => ∃ before after, Parts s before after ∧ ¬ ∃ n, Counted (trim before) n ∧ Possible n
  | .badSize => ∃ before after, Parts s before after ∧ ¬ ∃ n, Decimal (trim after) n ∧ Possible n
  | .tooManyDice => ∃ before after, Parts s before after ∧ ∃ n, Counted (trim before) n ∧ limit < n
  | .unrecognized => s.countP isMarker = 0 ∧ ∀ value, ofText limit s ≠ .modifier value

structure FirstCause (limit : Nat) (s : Text) (kind : Kind) : Prop where
  applies : Applies limit s kind
  first : ∀ other, other.rank < kind.rank → ¬ Applies limit s other

def report (limit : Nat) (s : Text) : Kind → Rejection
  | .manyMarkers => .manyMarkers
  | .badCharacters => .badCharacters (s.filter (!isDiceCharacter ·))
  | .badCount => .badCount
  | .badSize => .badSize
  | .tooManyDice => .tooManyDice limit
  | .unrecognized => .unrecognized

theorem firstCauseUnique {limit : Nat} {s : Text} {one two : Kind}
    (first : FirstCause limit s one) (second : FirstCause limit s two) : one = two := by
  apply Kind.rankInjective
  apply Nat.le_antisymm
  · exact Nat.le_of_not_lt fun before => first.first two before second.applies
  · exact Nat.le_of_not_lt fun before => second.first one before first.applies

theorem zeroIff {read : Nat} {spelled : Nat → Prop}
    (reads : ∀ n, 0 < n → (read = n ↔ spelled n ∧ n < UInt32.size)) :
    read = 0 ↔ ¬ ∃ n, spelled n ∧ Possible n := by
  constructor
  · rintro none ⟨n, said, some, word⟩
    have same := (reads n some).mpr ⟨said, word⟩
    omega
  · intro never
    apply Nat.eq_zero_of_not_pos
    intro some
    obtain ⟨said, word⟩ := (reads read some).mp rfl
    exact never ⟨read, said, some, word⟩

theorem countNone {s : Text} (half : Half s) : count s = 0 ↔ ¬ ∃ n, Counted s n ∧ Possible n :=
  zeroIff fun _ some => countIff half some

theorem numberNone {s : Text} (half : Half s) : number s = 0 ↔ ¬ ∃ n, Decimal s n ∧ Possible n :=
  zeroIff fun _ some => numberIff half some

theorem cleanIff {s : Text} :
    s.filter (!isDiceCharacter ·) = [] ↔ ¬ ∃ c ∈ s, isDiceCharacter c = false := by
  simp [List.filter_eq_nil_iff]

theorem partsProperty {s before after : Text} (parts : Parts s before after)
    {holds : Text → Text → Prop} :
    (∃ b a, Parts s b a ∧ holds b a) ↔ holds before after := by
  constructor
  · rintro ⟨b, a, others, property⟩
    obtain ⟨rfl, rfl⟩ := partsUnique parts others
    exact property
  · intro property
    exact ⟨before, after, parts, property⟩

theorem decimalUnique {s : Text} {m n : Nat} (first : Decimal s m) (second : Decimal s n) : m = n :=
  first.value.symm.trans second.value

theorem countedUnique {s : Text} {m n : Nat} (first : Counted s m) (second : Counted s n) : m = n := by
  rcases first with ⟨empty, rfl⟩ | first
  · rcases second with ⟨_, rfl⟩ | second
    · rfl
    · exact absurd empty second.nonempty
  · rcases second with ⟨empty, _⟩ | second
    · exact absurd empty first.nonempty
    · exact decimalUnique first second

theorem flatCause {limit : Nat} {s : Text} {kind : Kind} (none : s.countP isMarker = 0)
    (applies : Applies limit s kind) : kind = .unrecognized := by
  have noParts : ∀ before after, ¬ Parts s before after := by
    intro before after parts
    have one := partsOne parts
    omega
  cases kind with
  | manyMarkers => exact absurd (none ▸ applies : 2 ≤ 0) (by decide)
  | badCharacters => exact absurd (none ▸ applies.1 : 0 = 1) (by decide)
  | badCount =>
    obtain ⟨_, _, parts, _⟩ := applies
    exact absurd parts (noParts _ _)
  | badSize =>
    obtain ⟨_, _, parts, _⟩ := applies
    exact absurd parts (noParts _ _)
  | tooManyDice =>
    obtain ⟨_, _, parts, _⟩ := applies
    exact absurd parts (noParts _ _)
  | unrecognized => rfl

theorem notBadCharacters {limit : Nat} {s : Text} (clean : s.filter (!isDiceCharacter ·) = []) :
    ¬ Applies limit s .badCharacters :=
  fun strange => cleanIff.mp clean strange.2

section Parted
variable {limit : Nat} {s before after : Text} (parts : Parts s before after)
  (clean : s.filter (!isDiceCharacter ·) = [])
include parts

theorem notManyMarkers : ¬ Applies limit s .manyMarkers := by
  intro many
  exact absurd (partsOne parts ▸ many : 2 ≤ 1) (by decide)

theorem notUnrecognized : ¬ Applies limit s .unrecognized := by
  intro flat
  exact absurd (partsOne parts ▸ flat.1 : 1 = 0) (by decide)

include clean

theorem badCountIff : Applies limit s .badCount ↔ count (trim before) = 0 :=
  (partsProperty parts).trans (countNone (trimHalf (partsHalves parts clean).1)).symm

theorem badSizeIff : Applies limit s .badSize ↔ number (trim after) = 0 :=
  (partsProperty parts).trans (numberNone (trimHalf (partsHalves parts clean).2)).symm

theorem tooManyDiceIff (some : count (trim before) ≠ 0) :
    Applies limit s .tooManyDice ↔ limit < count (trim before) := by
  have half := trimHalf (partsHalves parts clean).1
  obtain ⟨counted, _⟩ := (countIff half (Nat.pos_of_ne_zero some)).mp rfl
  apply (partsProperty parts).trans
  constructor
  · rintro ⟨n, said, many⟩
    exact countedUnique said counted ▸ many
  · intro many
    exact ⟨_, counted, many⟩

theorem numbersFirstCause {reason : Rejection}
    (read : ofNumbers limit (count (trim before)) (number (trim after)) = .rejected reason) :
    ∃ kind, FirstCause limit s kind ∧ reason = report limit s kind := by
  have markers : ¬ Applies limit s .manyMarkers := notManyMarkers parts
  have characters : ¬ Applies limit s .badCharacters := notBadCharacters clean
  unfold ofNumbers at read
  split at read
  · rename_i none
    refine ⟨.badCount, ⟨(badCountIff parts clean).mpr none, ?_⟩, (Reading.rejected.inj read).symm⟩
    intro other earlier
    cases other with
    | manyMarkers => exact markers
    | badCharacters => exact characters
    | _ => exact absurd earlier (by decide)
  · rename_i some
    have counted : ¬ Applies limit s .badCount := mt (badCountIff parts clean).mp some
    split at read
    · rename_i none
      refine ⟨.badSize, ⟨(badSizeIff parts clean).mpr none, ?_⟩, (Reading.rejected.inj read).symm⟩
      intro other earlier
      cases other with
      | manyMarkers => exact markers
      | badCharacters => exact characters
      | badCount => exact counted
      | _ => exact absurd earlier (by decide)
    · rename_i real
      have faced : ¬ Applies limit s .badSize := mt (badSizeIff parts clean).mp real
      split at read
      · rename_i many
        refine ⟨.tooManyDice, ⟨(tooManyDiceIff parts clean some).mpr many, ?_⟩,
          (Reading.rejected.inj read).symm⟩
        intro other earlier
        cases other with
        | manyMarkers => exact markers
        | badCharacters => exact characters
        | badCount => exact counted
        | badSize => exact faced
        | _ => exact absurd earlier (by decide)
      · contradiction

theorem numbersRejected {kind : Kind} (applies : Applies limit s kind) :
    ∃ reason, ofNumbers limit (count (trim before)) (number (trim after)) = .rejected reason := by
  unfold ofNumbers
  split
  · exact ⟨_, rfl⟩
  · rename_i some
    split
    · exact ⟨_, rfl⟩
    · rename_i real
      split
      · exact ⟨_, rfl⟩
      · rename_i most
        cases kind with
        | manyMarkers => exact absurd applies (notManyMarkers parts)
        | badCharacters => exact absurd applies (notBadCharacters clean)
        | badCount => exact absurd ((badCountIff parts clean).mp applies) some
        | badSize => exact absurd ((badSizeIff parts clean).mp applies) real
        | tooManyDice => exact absurd ((tooManyDiceIff parts clean some).mp applies) most
        | unrecognized => exact absurd applies (notUnrecognized parts)

end Parted

theorem ofFlatRejected {s : Text} {reason : Rejection} (read : ofFlat s = .rejected reason) :
    reason = .unrecognized := by
  unfold ofFlat at read
  split at read
  · contradiction
  · exact (Reading.rejected.inj read).symm

theorem rejectedFirstCause {limit : Nat} {s : Text} {reason : Rejection}
    (read : ofText limit s = .rejected reason) :
    ∃ kind, FirstCause limit s kind ∧ reason = report limit s kind := by
  rcases ofTextCases limit s with ⟨many, rejected⟩ | ⟨none, flat⟩ | ⟨one, strange, rejected⟩ |
    ⟨before, after, parts, clean, numbers⟩
  · refine ⟨.manyMarkers, ⟨many, ?_⟩, Reading.rejected.inj (read.symm.trans rejected)⟩
    intro other earlier
    exact absurd earlier (Nat.not_lt_zero _)
  · have unread : ∀ value, ofText limit s ≠ .modifier value := by
      intro value other
      cases read.symm.trans other
    refine ⟨.unrecognized, ⟨⟨none, unread⟩, ?_⟩, ofFlatRejected (flat.symm.trans read)⟩
    intro other earlier applies
    exact absurd (congrArg Kind.rank (flatCause none applies)) (Nat.ne_of_lt earlier)
  · refine ⟨.badCharacters, ⟨⟨one, Classical.not_not.mp (mt cleanIff.mpr strange)⟩, ?_⟩,
      Reading.rejected.inj (read.symm.trans rejected)⟩
    intro other earlier
    cases other with
    | manyMarkers =>
      intro many
      exact absurd (one ▸ many : 2 ≤ 1) (by decide)
    | _ => exact absurd earlier (by decide)
  · exact numbersFirstCause parts clean (numbers.symm.trans read)

theorem causeRejected {limit : Nat} {s : Text} {kind : Kind} (applies : Applies limit s kind) :
    ∃ reason, ofText limit s = .rejected reason := by
  rcases ofTextCases limit s with ⟨_, rejected⟩ | ⟨none, flat⟩ | ⟨_, _, rejected⟩ |
    ⟨before, after, parts, clean, numbers⟩
  · exact ⟨_, rejected⟩
  · cases flatCause none applies
    cases read : ofText limit s with
    | dice c f => exact absurd (flat.symm.trans read) ofFlatNotDice
    | modifier value => exact absurd read (applies.2 value)
    | rejected reason => exact ⟨reason, rfl⟩
  · exact ⟨_, rejected⟩
  · rw [numbers]
    exact numbersRejected parts clean applies

theorem rejectedIff {limit : Nat} {s : Text} {reason : Rejection} :
    ofText limit s = .rejected reason ↔
      ∃ kind, FirstCause limit s kind ∧ reason = report limit s kind := by
  constructor
  · exact rejectedFirstCause
  · rintro ⟨kind, first, rfl⟩
    obtain ⟨reason, read⟩ := causeRejected first.applies
    obtain ⟨other, same, rfl⟩ := rejectedFirstCause read
    rw [read, firstCauseUnique same first]

theorem rejectedCharacters {limit : Nat} {s characters : Text}
    (read : ofText limit s = .rejected (.badCharacters characters)) : characters ≠ [] := by
  obtain ⟨kind, first, said⟩ := rejectedFirstCause read
  cases kind with
  | badCharacters =>
    cases said
    exact fun clean => notBadCharacters clean first.applies
  | _ => contradiction

theorem rejectedUnrecognized {limit : Nat} {s : Text} :
    ofText limit s = .rejected .unrecognized ↔ Applies limit s .unrecognized := by
  constructor
  · intro read
    obtain ⟨kind, first, said⟩ := rejectedFirstCause read
    cases kind with
    | unrecognized => exact first.applies
    | _ => contradiction
  · intro applies
    obtain ⟨reason, read⟩ := causeRejected applies
    obtain ⟨kind, first, rfl⟩ := rejectedFirstCause read
    rw [read, flatCause applies.1 first.applies, report]

/- A text is cut in two only where it has exactly one marker, so that it always can be cut. -/
theorem rejectionIsFirstCause (limit : Nat) (s : Text) :
    (∀ reason, ofText limit s = .rejected reason ↔
      ∃ kind, FirstCause limit s kind ∧ reason = report limit s kind) ∧
    (∀ characters, ofText limit s = .rejected (.badCharacters characters) → characters ≠ []) ∧
    (ofText limit s = .rejected .unrecognized ↔
      s.countP isMarker = 0 ∧ ∀ value, ofText limit s ≠ .modifier value) ∧
    (s.countP isMarker = 1 → ∃ before after, splitMarker? s = some (before, after) ∧
      Parts s before after) := by
  refine ⟨fun _ => rejectedIff, fun _ => rejectedCharacters, rejectedUnrecognized, ?_⟩
  intro one
  obtain ⟨before, after, parts⟩ := partsIff.mp one
  exact ⟨before, after, partsSplit parts, parts⟩

example : ofText 10 "2x 3d6.0".toList = .rejected (.badCharacters ['x', '.']) := by decide

end Reading
end Tabletop
