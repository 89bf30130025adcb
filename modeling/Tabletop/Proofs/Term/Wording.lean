import Tabletop.Proofs.Text.Numeral
import Tabletop.Proofs.Text.Separator
import Tabletop.Term

/-! The wording of rejections. The first words of a message tell its kind, and the rest tells what
the rejection holds. Listed characters are not quoted and may be commas and blanks themselves, but
each of them has a place of its own. -/
namespace Tabletop.Rejection

def announcement (characters : Text) : Text :=
  if characters.length = 1 then "invalid character: ".toList else "invalid characters: ".toList

theorem charactersWritten (characters : Text) :
    charactersMessage characters =
      announcement characters ++ Text.join ", ".toList (characters.map ([·])) := by
  unfold charactersMessage announcement
  split
  · rfl
  · rename_i several
    have notOne : characters.length ≠ 1 := by
      intro one
      obtain ⟨c, alone⟩ := List.length_eq_one_iff.mp one
      exact several c alone
    rw [if_neg notOne]

/- A colon stands where the plural has its last letter. -/
theorem announcementsApart {xs ys s t : Text}
    (same : announcement xs ++ s = announcement ys ++ t) : announcement xs = announcement ys := by
  have long : ∀ zs, 18 ≤ (announcement zs).length := by
    intro zs
    unfold announcement
    split <;> decide
  have starts := congrArg (List.take 18) same
  rw [List.take_append_of_le_length (long xs), List.take_append_of_le_length (long ys)] at starts
  revert starts
  unfold announcement
  split <;> split <;> decide

theorem charactersInjective {xs ys : Text} (same : charactersMessage xs = charactersMessage ys) :
    xs = ys := by
  rw [charactersWritten, charactersWritten] at same
  rw [announcementsApart same] at same
  exact Text.singlesInjective (List.append_cancel_left same)

/- A start that a message shares with the label of its kind, long enough for all kinds to differ. -/
def opening (text : Text) : Text := text.take 9

theorem openingAppend {text : Text} (long : 9 ≤ text.length) (rest : Text) :
    opening (text ++ rest) = opening text :=
  List.take_append_of_le_length long

theorem announcementOpening (characters : Text) :
    9 ≤ (announcement characters).length ∧
      opening (announcement characters) = opening (Kind.label .badCharacters) := by
  unfold announcement
  split <;> decide

theorem messageOpening (reason : Rejection) :
    opening reason.message = opening reason.kind.label := by
  cases reason with
  | badCharacters characters =>
    obtain ⟨long, same⟩ := announcementOpening characters
    calc opening (charactersMessage characters)
        = opening (announcement characters ++ Text.join ", ".toList (characters.map ([·]))) := by
          rw [charactersWritten]
      _ = opening (announcement characters) := openingAppend long _
      _ = opening (Kind.label .badCharacters) := same
  | tooManyDice limit =>
    have long : 9 ≤ "too many dice (limit ".toList.length := by decide
    calc opening ("too many dice (limit ".toList ++ Text.ofNat limit ++ ")".toList)
        = opening "too many dice (limit ".toList := by rw [List.append_assoc, openingAppend long]
      _ = opening (Kind.label .tooManyDice) := by decide
  | manyMarkers => rfl
  | badCount => rfl
  | badSize => rfl
  | unrecognized => rfl

theorem kindOfOpening {k l : Kind} (same : opening k.label = opening l.label) : k = l := by
  cases k <;> cases l <;> revert same <;> decide

theorem messageKind {first second : Rejection} (same : first.message = second.message) :
    first.kind = second.kind := by
  apply kindOfOpening
  rw [← messageOpening, ← messageOpening, same]

theorem limitInjective {m n : Nat} (same : message (.tooManyDice m) = message (.tooManyDice n)) :
    m = n :=
  Text.ofNatInjective (List.append_cancel_left (List.append_cancel_right same))

theorem messageTellsRejection (first second : Rejection) :
    first.message = second.message ↔ first = second := by
  constructor
  · intro same
    have kinds := messageKind same
    cases first with
    | badCharacters xs =>
      cases second with
      | badCharacters ys => rw [charactersInjective same]
      | _ => contradiction
    | tooManyDice m =>
      cases second with
      | tooManyDice n => rw [limitInjective same]
      | _ => contradiction
    | manyMarkers => cases second <;> trivial
    | badCount => cases second <;> trivial
    | badSize => cases second <;> trivial
    | unrecognized => cases second <;> trivial
  · exact congrArg message

example : message (.badCharacters [',', ' ', ',']) = "invalid characters: ,,  , ,".toList := by
  decide

end Tabletop.Rejection
