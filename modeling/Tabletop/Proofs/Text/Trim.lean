import Mathlib.Logic.Relation
import Tabletop.Text

/-! Trimming removes the blanks at both ends. Blanks added at an end are therefore never seen in
a trimmed text, and a text is its trimmed form between two runs of blanks. -/
namespace Tabletop.Text

def Blanks (w : Text) : Prop := ∀ c ∈ w, isBlank c = true

instance (w : Text) : Decidable (Blanks w) := List.decidableBAll (isBlank · = true) w

theorem trimStartBlanks {w : Text} (blank : Blanks w) (s : Text) :
    trimStart (w ++ s) = trimStart s :=
  List.dropWhile_append_of_pos blank

theorem trimEndBlanks {w : Text} (blank : Blanks w) (s : Text) : trimEnd (s ++ w) = trimEnd s := by
  have reversed : ∀ c ∈ w.reverse, isBlank c = true := by
    intro c member
    exact blank c (List.mem_reverse.mp member)
  unfold trimEnd
  rw [List.reverse_append, List.dropWhile_append_of_pos reversed]

theorem trimBlanksLeft {w : Text} (blank : Blanks w) (s : Text) : trim (w ++ s) = trim s := by
  unfold trim
  rw [trimStartBlanks blank]

theorem trimBlanksRight {w : Text} (blank : Blanks w) (s : Text) : trim (s ++ w) = trim s := by
  have alone : trimStart w = [] := by
    simpa [trimStart] using trimStartBlanks blank []
  -- A text of blanks alone is used up before the added ones are reached.
  cases h : trimStart s with
  | nil =>
    have both : trimStart (s ++ w) = [] := by
      rw [trimStart, List.dropWhile_append, ← trimStart, h]
      exact alone
    rw [trim, trim, both, h]
  | cons c rest =>
    have kept : trimStart (s ++ w) = trimStart s ++ w := by
      rw [trimStart, List.dropWhile_append, ← trimStart, h]
      rfl
    rw [trim, kept, trimEndBlanks blank, trim]

theorem trimParts (s : Text) :
    ∃ before after, Blanks before ∧ Blanks after ∧ s = before ++ trim s ++ after := by
  have start : s = s.takeWhile isBlank ++ trimStart s := List.takeWhile_append_dropWhile.symm
  have finish : trimStart s =
      trimEnd (trimStart s) ++ ((trimStart s).reverse.takeWhile isBlank).reverse := by
    unfold trimEnd
    rw [← List.reverse_append, List.takeWhile_append_dropWhile, List.reverse_reverse]
  refine ⟨s.takeWhile isBlank, ((trimStart s).reverse.takeWhile isBlank).reverse, ?_, ?_, ?_⟩
  · intro c member
    exact List.all_eq_true.mp List.all_takeWhile c member
  · intro c member
    exact List.all_eq_true.mp List.all_takeWhile c (List.mem_reverse.mp member)
  · rw [List.append_assoc, trim, ← finish]
    exact start

theorem trimTrim (s : Text) : trim (trim s) = trim s := by
  obtain ⟨before, after, early, late, parts⟩ := trimParts s
  calc trim (trim s)
      = trim (before ++ trim s) := (trimBlanksLeft early _).symm
    _ = trim (before ++ trim s ++ after) := (trimBlanksRight late _).symm
    _ = trim s := by rw [← parts]

theorem trimMember {s : Text} {c : Char} (member : c ∈ trim s) : c ∈ s := by
  obtain ⟨before, after, _, _, parts⟩ := trimParts s
  rw [parts]
  exact List.mem_append_left after (List.mem_append_right before member)

theorem trimLength (s : Text) : (trim s).length ≤ s.length := by
  obtain ⟨before, after, _, _, parts⟩ := trimParts s
  have lengths := congrArg List.length parts
  simp only [List.length_append] at lengths
  omega

theorem dropWhileNone {p : Char → Bool} {s : Text} (first : ∀ c ∈ s.head?, p c = false) :
    s.dropWhile p = s := by
  cases s with
  | nil => rfl
  | cons c rest => exact List.dropWhile_cons_of_neg (by simp [first c rfl])

theorem trimSelf {s : Text} :
    trim s = s ↔ (∀ c ∈ s.head?, isBlank c = false) ∧ ∀ c ∈ s.getLast?, isBlank c = false := by
  constructor
  · intro trimmed
    -- A blank at an end would be cut off, and the trimmed text would be shorter.
    constructor
    · intro c member
      obtain ⟨rest, rfl⟩ := List.head?_eq_some_iff.mp member
      apply Bool.eq_false_iff.mpr
      intro blank
      have cut : trim (c :: rest) = trim rest := by
        simpa using trimBlanksLeft (w := [c]) (by simpa [Blanks] using blank) rest
      have shorter := trimLength rest
      rw [← cut, trimmed, List.length_cons] at shorter
      omega
    · intro c member
      obtain ⟨rest, rfl⟩ := List.getLast?_eq_some_iff.mp member
      apply Bool.eq_false_iff.mpr
      intro blank
      have cut : trim (rest ++ [c]) = trim rest :=
        trimBlanksRight (by simpa [Blanks] using blank) rest
      have shorter := trimLength rest
      rw [← cut, trimmed, List.length_append, List.length_singleton] at shorter
      omega
  · rintro ⟨first, last⟩
    have start : trimStart s = s := dropWhileNone first
    have finish : s.reverse.dropWhile isBlank = s.reverse := by
      apply dropWhileNone
      rw [List.head?_reverse]
      exact last
    rw [trim, start, trimEnd, finish, List.reverse_reverse]

/-! Blanks put into a text at chosen places: at its ends, and beside characters of some kind. One
insertion is one run of blanks at one place; any number of places is reached by one insertion after
the other. What is left of a text without its blanks never changes. -/

inductive Seam (beside : Char → Bool) : Text → Text → Prop where
  | start (b : Text) : Seam beside [] b
  | finish (a : Text) : Seam beside a []
  | behind (a : Text) {c : Char} (found : beside c = true) (b : Text) : Seam beside (a ++ [c]) b
  | before (a : Text) {c : Char} (found : beside c = true) (b : Text) : Seam beside a (c :: b)

inductive Padded (beside : Char → Bool) : Text → Text → Prop where
  | put {a w b : Text} (seam : Seam beside a b) (blank : Blanks w) :
      Padded beside (a ++ b) (a ++ w ++ b)

def Spaced (beside : Char → Bool) : Text → Text → Prop := Relation.ReflTransGen (Padded beside)

def solid (s : Text) : Text := s.filter (!isBlank ·)

theorem trimSpaced (beside : Char → Bool) (s : Text) : Spaced beside (trim s) s := by
  obtain ⟨before, after, early, late, parts⟩ := trimParts s
  have left : Padded beside (trim s) (before ++ trim s) := by
    simpa using Padded.put (.start (trim s)) early
  have right : Padded beside (before ++ trim s) s := by
    simpa [← parts] using Padded.put (.finish (before ++ trim s)) late
  exact .tail (.single left) right

theorem solidPadded {beside : Char → Bool} {s t : Text} (padded : Padded beside s t) :
    solid t = solid s := by
  cases padded with
  | @put a w b _ blank =>
    have nothing : w.filter (!isBlank ·) = [] :=
      List.filter_eq_nil_iff.mpr fun c member => by simp [blank c member]
    simp [solid, nothing]

theorem solidSpaced {beside : Char → Bool} {s t : Text} (spaced : Spaced beside s t) :
    solid t = solid s := by
  induction spaced with
  | refl => rfl
  | tail _ padded ih => rw [solidPadded padded, ih]

theorem solidTrim (s : Text) : solid (trim s) = solid s :=
  (solidSpaced (trimSpaced (fun _ => false) s)).symm

end Tabletop.Text
