import Tabletop.Proofs.Term.Grammar

/-! Texts that every limit reads alike. A text with a die marker is read from three things alone:
how many markers it has, which other characters do not belong, and the two parts beside its only
marker without the blanks around them. -/
namespace Tabletop.Reading
open Text (trim)

structure Alike (s t : Text) : Prop where
  markers : t.countP isMarker = s.countP isMarker
  strange : t.filter (!isDiceCharacter ·) = s.filter (!isDiceCharacter ·)
  parts : ∀ {before after}, Parts s before after →
    ∃ b a, Parts t b a ∧ trim b = trim before ∧ trim a = trim after

theorem ofDiceAlike {s t : Text} (alike : Alike s t) (one : s.countP isMarker = 1) (limit : Nat) :
    ofDice limit t = ofDice limit s := by
  obtain ⟨before, after, parts⟩ := partsIff.mp one
  obtain ⟨b, a, others, left, right⟩ := alike.parts parts
  unfold ofDice
  rw [alike.strange, partsSplit parts, partsSplit others]
  simp only [left, right]

/- A text without a marker is a flat number or nothing, and there every character counts. -/
theorem ofTextAlike {s t : Text} (alike : Alike s t) (marked : s.countP isMarker ≠ 0)
    (limit : Nat) : ofText limit t = ofText limit s := by
  unfold ofText
  rw [alike.markers]
  split
  · contradiction
  · rename_i one
    exact ofDiceAlike alike one limit
  · rfl

end Tabletop.Reading

/-! Die markers in the other case. Changing them at any places changes no other character, and the
two cases are told apart by nothing that reads a term. -/
namespace Tabletop.Reading
open Text (isBlank trim)

def otherCase : Char → Char
  | 'd' => 'D'
  | 'D' => 'd'
  | c => c

def recaseAt (chosen : Nat → Bool) (i : Nat) (c : Char) : Char :=
  if chosen i then otherCase c else c

def recase (chosen : Nat → Bool) (s : Text) : Text := s.mapIdx (recaseAt chosen)

def later (chosen : Nat → Bool) (skipped : Nat) : Nat → Bool := fun i => chosen (i + skipped)

theorem recaseAtKeeps {p : Char → Bool} (both : p 'd' = p 'D') (chosen : Nat → Bool) (i : Nat)
    (c : Char) : p (recaseAt chosen i c) = p c := by
  unfold recaseAt otherCase
  split
  · split
    · exact both.symm
    · exact both
    · rfl
  · rfl

theorem recaseAtUnmarked (chosen : Nat → Bool) (i : Nat) {c : Char} (plain : isMarker c = false) :
    recaseAt chosen i c = c := by
  unfold recaseAt otherCase
  split
  · split
    · contradiction
    · contradiction
    · rfl
  · rfl

theorem recaseCons (chosen : Nat → Bool) (c : Char) (rest : Text) :
    recase chosen (c :: rest) = recaseAt chosen 0 c :: recase (later chosen 1) rest :=
  List.mapIdx_cons

theorem recaseAppend (chosen : Nat → Bool) (s t : Text) :
    recase chosen (s ++ t) = recase chosen s ++ recase (later chosen s.length) t :=
  List.mapIdx_append

theorem recaseUnmarked (chosen : Nat → Bool) {s : Text} (plain : Unmarked s) :
    recase chosen s = s := by
  induction s generalizing chosen with
  | nil => rfl
  | cons c rest ih =>
    rw [recaseCons, recaseAtUnmarked chosen 0 (plain c List.mem_cons_self),
      ih (later chosen 1) fun d inside => plain d (List.mem_cons_of_mem c inside)]

theorem recaseMarked (chosen : Nat → Bool) {before after : Text} {m : Char}
    (first : Unmarked before) (second : Unmarked after) :
    recase chosen (before ++ m :: after) =
      before ++ recaseAt (later chosen before.length) 0 m :: after := by
  rw [recaseAppend, recaseCons, recaseUnmarked _ first, recaseUnmarked _ second]

theorem recaseAlike (chosen : Nat → Bool) (s : Text) : Alike s (recase chosen s) where
  markers := by
    induction s generalizing chosen with
    | nil => rfl
    | cons c rest ih =>
      have same : isMarker (recaseAt chosen 0 c) = isMarker c := recaseAtKeeps rfl chosen 0 c
      rw [recaseCons, List.countP_cons, List.countP_cons, ih, same]
  strange := by
    induction s generalizing chosen with
    | nil => rfl
    | cons c rest ih =>
      have same : isDiceCharacter (recaseAt chosen 0 c) = isDiceCharacter c :=
        recaseAtKeeps rfl chosen 0 c
      rw [recaseCons, List.filter_cons, List.filter_cons, ih, same]
      split
      · rename_i strange
        have plain : isMarker c = false := by
          simp_all [isDiceCharacter]
        rw [recaseAtUnmarked chosen 0 plain]
      · rfl
  parts := by
    intro before after parts
    obtain ⟨m, marker, rfl⟩ := parts.cut
    refine ⟨before, after, ⟨⟨_, ?_, recaseMarked chosen parts.before parts.after⟩,
      parts.before, parts.after⟩, rfl, rfl⟩
    exact (recaseAtKeeps rfl _ _ m).trans marker

theorem recaseRead (chosen : Nat → Bool) (s : Text) (limit : Nat) :
    ofText limit (recase chosen s) = ofText limit s := by
  by_cases marked : s.countP isMarker = 0
  · rw [recaseUnmarked chosen (unmarkedIff.mp marked)]
  · exact ofTextAlike (recaseAlike chosen s) marked limit

end Tabletop.Reading

/-! Blanks in the text of one term. Beside the die marker and at the ends they are not seen, because
both parts are trimmed and a blank is neither a marker nor a character that does not belong. -/
namespace Tabletop.Reading
open Text (Blanks Padded Seam Spaced trim)

theorem unmarkedAppend {s t : Text} (first : Unmarked s) (second : Unmarked t) :
    Unmarked (s ++ t) := by
  intro c member
  rcases List.mem_append.mp member with early | late
  · exact first c early
  · exact second c late

theorem seamParts {a b w before after : Text} (seam : Seam isMarker a b) (blank : Blanks w)
    (parts : Parts (a ++ b) before after) :
    Parts (a ++ w ++ b) (w ++ before) after ∨ Parts (a ++ w ++ b) (before ++ w) after ∨
    Parts (a ++ w ++ b) before (w ++ after) ∨ Parts (a ++ w ++ b) before (after ++ w) := by
  have unmarked : Unmarked w := blanksUnmarked blank
  obtain ⟨m, marker, cut⟩ := parts.cut
  cases seam with
  | start b =>
    left
    refine ⟨⟨m, marker, ?_⟩, unmarkedAppend unmarked parts.before, parts.after⟩
    simpa using cut
  | finish a =>
    right; right; right
    refine ⟨⟨m, marker, ?_⟩, parts.before, unmarkedAppend parts.after unmarked⟩
    rw [List.append_nil] at cut ⊢
    simp [cut]
  | @behind a c found b =>
    right; right; left
    rw [List.append_assoc, List.singleton_append] at parts
    obtain ⟨rfl, rfl⟩ := partsUnique parts (partsAround found (partsOne parts))
    refine ⟨⟨c, found, ?_⟩, parts.before, unmarkedAppend unmarked parts.after⟩
    simp
  | @before a c found b =>
    right; left
    obtain ⟨rfl, rfl⟩ := partsUnique parts (partsAround found (partsOne parts))
    exact ⟨⟨c, found, rfl⟩, unmarkedAppend parts.before unmarked, parts.after⟩

theorem paddedAlike {s t : Text} (padded : Padded isMarker s t) : Alike s t := by
  cases padded with
  | @put a w b seam blank =>
    refine ⟨?_, ?_, ?_⟩
    · have none : w.countP isMarker = 0 := unmarkedIff.mpr (blanksUnmarked blank)
      simp [none]
    · have none : w.filter (!isDiceCharacter ·) = [] :=
        List.filter_eq_nil_iff.mpr fun c member => by simp [isDiceCharacter, blank c member]
      simp [none]
    · intro before after parts
      rcases seamParts seam blank parts with others | others | others | others
      · exact ⟨_, _, others, Text.trimBlanksLeft blank before, rfl⟩
      · exact ⟨_, _, others, Text.trimBlanksRight blank before, rfl⟩
      · exact ⟨_, _, others, rfl, Text.trimBlanksLeft blank after⟩
      · exact ⟨_, _, others, rfl, Text.trimBlanksRight blank after⟩

theorem spacedMarkers {s t : Text} (spaced : Spaced isMarker s t) :
    t.countP isMarker = s.countP isMarker := by
  induction spaced with
  | refl => rfl
  | tail _ padded ih => exact (paddedAlike padded).markers.trans ih

theorem spacedRead {s t : Text} (spaced : Spaced isMarker s t) (marked : t.countP isMarker ≠ 0)
    (limit : Nat) : ofText limit t = ofText limit s := by
  induction spaced with
  | refl => rfl
  | tail _ padded ih =>
    have alike := paddedAlike padded
    have before := alike.markers ▸ marked
    exact (ofTextAlike alike before limit).trans (ih before)

theorem trimRead {s : Text} (marked : s.countP isMarker ≠ 0) (limit : Nat) :
    ofText limit (trim s) = ofText limit s :=
  (spacedRead (Text.trimSpaced isMarker s) marked limit).symm

end Tabletop.Reading
