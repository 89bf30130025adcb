import Tabletop.Proofs.Term.Reading

/-! The texts that are read as dice. A text with one die marker has a part on either side of it;
both are read without the blanks around them, the count may be left out, and nothing but blanks
and digits is allowed. -/
namespace Tabletop.Reading
open Text (Blanks Decimal Digits trim)

structure Parts (s before after : Text) : Prop where
  cut : ∃ m, isMarker m = true ∧ s = before ++ m :: after
  before : Unmarked before
  after : Unmarked after

def Possible (n : Nat) : Prop := 1 ≤ n ∧ n < UInt32.size

def Counted (s : Text) (n : Nat) : Prop := s = [] ∧ n = 1 ∨ Decimal s n

theorem partsSplit {s before after : Text} (parts : Parts s before after) :
    splitMarker? s = some (before, after) := by
  obtain ⟨m, marker, rfl⟩ := parts.cut
  exact splitMarked marker parts.before

theorem partsUnique {s before after b a : Text} (parts : Parts s before after)
    (others : Parts s b a) : b = before ∧ a = after := by
  have same := (partsSplit others).symm.trans (partsSplit parts)
  exact Prod.mk.inj (Option.some.inj same)

theorem partsAround {before after : Text} {m : Char} (marker : isMarker m = true)
    (one : (before ++ m :: after).countP isMarker = 1) :
    Parts (before ++ m :: after) before after := by
  rw [List.countP_append, List.countP_cons_of_pos marker] at one
  exact ⟨⟨m, marker, rfl⟩, unmarkedIff.mp (by omega), unmarkedIff.mp (by omega)⟩

theorem partsIff {s : Text} : s.countP isMarker = 1 ↔ ∃ before after, Parts s before after := by
  constructor
  · intro one
    have some : 0 < s.countP isMarker := one ▸ Nat.one_pos
    obtain ⟨m, member, marker⟩ := List.countP_pos_iff.mp some
    obtain ⟨before, after, rfl⟩ := List.append_of_mem member
    exact ⟨before, after, partsAround marker one⟩
  · rintro ⟨before, after, ⟨m, marker, rfl⟩, first, second⟩
    rw [List.countP_append, List.countP_cons_of_pos marker, unmarkedIff.mpr first,
      unmarkedIff.mpr second]

theorem partsOne {s before after : Text} (parts : Parts s before after) : s.countP isMarker = 1 :=
  partsIff.mpr ⟨before, after, parts⟩

theorem partsHalves {s before after : Text} (parts : Parts s before after)
    (clean : s.filter (!isDiceCharacter ·) = []) : Half before ∧ Half after := by
  obtain ⟨m, _, rfl⟩ := parts.cut
  have allowed : ∀ c ∈ before ++ m :: after, isDiceCharacter c = true := by
    simpa using List.filter_eq_nil_iff.mp clean
  constructor
  · intro c member
    exact ⟨allowed c (List.mem_append_left _ member), parts.before c member⟩
  · intro c member
    exact ⟨allowed c (List.mem_append_right _ (List.mem_cons_of_mem m member)), parts.after c member⟩

theorem ofTextCases (limit : Nat) (s : Text) :
    2 ≤ s.countP isMarker ∧ ofText limit s = .rejected .manyMarkers ∨
    s.countP isMarker = 0 ∧ ofText limit s = ofFlat s ∨
    s.countP isMarker = 1 ∧ s.filter (!isDiceCharacter ·) ≠ [] ∧
      ofText limit s = .rejected (.badCharacters (s.filter (!isDiceCharacter ·))) ∨
    ∃ before after, Parts s before after ∧ s.filter (!isDiceCharacter ·) = [] ∧
      ofText limit s = ofNumbers limit (count (trim before)) (number (trim after)) := by
  rcases Nat.lt_or_ge 1 (s.countP isMarker) with many | few
  · left
    refine ⟨many, ?_⟩
    unfold ofText
    split
    · omega
    · omega
    · rfl
  · right
    rcases Nat.eq_zero_or_pos (s.countP isMarker) with none | some
    · left
      refine ⟨none, ?_⟩
      simp only [ofText, none]
    · right
      have one : s.countP isMarker = 1 := Nat.le_antisymm few some
      have read : ofText limit s = ofDice limit s := by simp only [ofText, one]
      by_cases clean : s.filter (!isDiceCharacter ·) = []
      · right
        obtain ⟨before, after, parts⟩ := partsIff.mp one
        refine ⟨before, after, parts, clean, ?_⟩
        rw [read, ofDice, clean]
        simp only [partsSplit parts]
      · left
        refine ⟨one, clean, ?_⟩
        rw [read]
        unfold ofDice
        split
        · contradiction
        · rfl

theorem halfPlain {s : Text} (half : Half s) : '+' ∉ s := by
  intro member
  have allowed := (half '+' member).1
  contradiction

theorem trimHalf {s : Text} (half : Half s) : Half (trim s) :=
  fun c member => half c (Text.trimMember member)

/- Zero is no number of dice or faces, so it can stand for every text that is none. -/
theorem numberIff {s : Text} (half : Half s) {n : Nat} (some : 0 < n) :
    number s = n ↔ Decimal s n ∧ n < UInt32.size := by
  rw [← Text.unsigned?Decimal (halfPlain half), number]
  cases Text.unsigned? UInt32.size s with
  | none =>
    simp only [Option.getD_none, reduceCtorEq, iff_false]
    omega
  | some m => simp only [Option.getD_some, Option.some.injEq]

theorem countIff {s : Text} (half : Half s) {n : Nat} (some : 0 < n) :
    count s = n ↔ Counted s n ∧ n < UInt32.size := by
  unfold count Counted
  split
  · rename_i empty
    have noNumber : ¬ Decimal s n := fun decimal => decimal.nonempty empty
    constructor
    · rintro rfl
      exact ⟨.inl ⟨empty, rfl⟩, by decide⟩
    · rintro ⟨⟨_, rfl⟩ | decimal, _⟩
      · rfl
      · exact absurd decimal noNumber
  · rename_i nonempty
    rw [numberIff half some]
    simp only [nonempty, false_and, false_or]

structure Spells (s : Text) (c f : Nat) : Prop where
  text : ∃ w₁ counted w₂ m w₃ faced w₄, s = w₁ ++ counted ++ w₂ ++ m :: (w₃ ++ faced ++ w₄) ∧
    Blanks w₁ ∧ Blanks w₂ ∧ Blanks w₃ ∧ Blanks w₄ ∧ (m = 'd' ∨ m = 'D') ∧
    Counted counted c ∧ Decimal faced f
  count : Possible c
  faces : Possible f

theorem countedDigits {s : Text} {n : Nat} (counted : Counted s n) : Digits s := by
  rcases counted with ⟨rfl, _⟩ | decimal
  · intro c member
    contradiction
  · exact decimal.digits

theorem markerIff {m : Char} : isMarker m = true ↔ m = 'd' ∨ m = 'D' := by
  simp [isMarker]

theorem blankNotMarker {c : Char} (blank : Text.isBlank c = true) : isMarker c = false := by
  apply Bool.eq_false_iff.mpr
  intro marker
  rcases markerIff.mp marker with rfl | rfl
  · exact absurd blank (by decide)
  · exact absurd blank (by decide)

theorem halfBlanks {s : Text} (blanks : Blanks s) : Half s := by
  intro c member
  have blank := blanks c member
  exact ⟨by simp [isDiceCharacter, blank], blankNotMarker blank⟩

theorem blanksUnmarked {s : Text} (blanks : Blanks s) : Unmarked s :=
  halfUnmarked (halfBlanks blanks)

theorem halfAppend {s t : Text} (first : Half s) (second : Half t) : Half (s ++ t) := by
  intro c member
  rcases List.mem_append.mp member with early | late
  · exact first c early
  · exact second c late

theorem halfPadded {w s v : Text} (before : Blanks w) (digits : Digits s) (after : Blanks v) :
    Half (w ++ s ++ v) :=
  halfAppend (halfAppend (halfBlanks before) (halfDigits digits)) (halfBlanks after)

theorem spellsRead {s : Text} {c f : Nat} (spells : Spells s c f) (limit : Nat) :
    ofText limit s = ofNumbers limit c f := by
  obtain ⟨w₁, counted, w₂, m, w₃, faced, w₄, rfl, b₁, b₂, b₃, b₄, marker, number, decimal⟩ :=
    spells.text
  have first := countedDigits number
  rw [ofTextMarked limit (markerIff.mpr marker) (halfPadded b₁ first b₂)
    (halfPadded b₃ decimal.digits b₄), Text.trimPadded b₁ b₂ (Text.trimDigits first),
    Text.trimPadded b₃ b₄ (Text.trimDigits decimal.digits),
    (countIff (halfDigits first) spells.count.1).mpr ⟨number, spells.count.2⟩,
    (numberIff (halfDigits decimal.digits) spells.faces.1).mpr ⟨decimal, spells.faces.2⟩]

theorem readSpells {limit : Nat} {s : Text} {c f : Nat} (read : ofText limit s = .dice c f) :
    Spells s c f := by
  have words := ofTextWords read
  have bounds := ofTextBounds read
  rcases ofTextCases limit s with ⟨_, many⟩ | ⟨_, flat⟩ | ⟨_, _, strange⟩ |
    ⟨before, after, parts, clean, numbers⟩
  · rw [many] at read
    contradiction
  · exact absurd (flat.symm.trans read) ofFlatNotDice
  · rw [strange] at read
    contradiction
  · obtain ⟨⟨counted, faced⟩, _⟩ := ofNumbersExact (numbers.symm.trans read)
    obtain ⟨first, second⟩ := partsHalves parts clean
    have count : Counted (trim before) c := ((countIff (trimHalf first) bounds.1).mp counted).1
    have faces : Decimal (trim after) f := ((numberIff (trimHalf second) bounds.2.1).mp faced).1
    obtain ⟨m, marker, cut⟩ := parts.cut
    obtain ⟨w₁, w₂, b₁, b₂, left⟩ := Text.trimParts before
    obtain ⟨w₃, w₄, b₃, b₄, right⟩ := Text.trimParts after
    have padded : s = w₁ ++ trim before ++ w₂ ++ m :: (w₃ ++ trim after ++ w₄) := by
      rw [← left, ← right]
      exact cut
    exact {
      text := ⟨w₁, trim before, w₂, m, w₃, trim after, w₄, padded, b₁, b₂, b₃, b₄,
        markerIff.mp marker, count, faces⟩
      count := ⟨bounds.1, words.1⟩
      faces := ⟨bounds.2.1, words.2⟩ }

theorem diceGrammarExact (limit : Nat) (s : Text) (c f : Nat) :
    ofText limit s = .dice c f ↔ Spells s c f ∧ c ≤ limit := by
  constructor
  · intro read
    exact ⟨readSpells read, (ofTextBounds read).2.2⟩
  · rintro ⟨spells, most⟩
    rw [spellsRead spells limit]
    exact ofNumbersDice.mpr ⟨Nat.ne_of_gt spells.count.1, Nat.ne_of_gt spells.faces.1, most⟩

end Tabletop.Reading
