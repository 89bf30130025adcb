import Tabletop.Proofs.Expression.Whole

/-! An expression read one segment at a time. A reader forgets the sign in force between two calls,
but it only ever stops before an operator or at the end, where no sign is in force that could still
be used. So the calls give the segments one after the other, and what is left can be read at once
at any time. -/
namespace Tabletop
open Token (isOperator Lexes)

/- No text waits for the sign that was in force before it. -/
def Token.Stop (unread : Text) : Prop := ∀ c ∈ unread.head?, isOperator c = true

namespace Segment
open Token (Stop)

theorem stopUnsigned {unread : Text} (stop : Stop unread) (sign other : Sign) :
    split sign unread = split other unread := by
  have nothing : leading unread = [] := by
    cases unread with
    | nil => rfl
    | cons c rest => exact List.takeWhile_cons_of_neg (by simp [stop c rfl])
  have blank : Text.Blanks (leading unread) := by
    rw [nothing]
    exact fun _ member => absurd member List.not_mem_nil
  exact splitUnsigned blank sign other

end Segment

namespace Reader
open Token (Stop)

structure Holds (input : Text) (r : Reader) (unread : Text) : Prop where
  suffix : unread <:+ Text.trim input
  lexed : Lexes unread r.unread

theorem ofTextHolds (input : Text) : Holds input (ofText input) (Text.trim input) :=
  ⟨List.suffix_rfl, Token.lexesScan (Text.trim input)⟩

theorem nextFromStops {s : Text} {tokens : List Token} (lexed : Lexes s tokens) (sign : Sign) :
    ∃ unread, unread <:+ s ∧ Lexes unread (nextFrom sign tokens).2 ∧ Stop unread := by
  induction lexed generalizing sign with
  | done => exact ⟨[], List.suffix_rfl, .done, by simp [Stop]⟩
  | @operator next rest tokens _ ih =>
    obtain ⟨unread, suffix, left, stop⟩ := ih next
    exact ⟨unread, suffix.trans (List.suffix_cons _ _), left, stop⟩
  | @text run rest tokens nonempty plain longest later ih =>
    by_cases blank : Text.trim run = []
    · obtain ⟨unread, suffix, left, stop⟩ := ih sign
      rw [nextFrom, if_pos blank]
      exact ⟨unread, suffix.trans (List.suffix_append run rest), left, stop⟩
    · rw [nextFrom, if_neg blank]
      exact ⟨rest, List.suffix_append run rest, later, longest⟩

theorem nextHolds {input unread : Text} {r : Reader} (holds : Holds input r unread) :
    ∃ left, Holds input r.next.2 left ∧ Stop left := by
  obtain ⟨left, suffix, lexed, stop⟩ := nextFromStops holds.lexed .positive
  exact ⟨left, ⟨suffix.trans holds.suffix, lexed⟩, stop⟩

theorem takeHolds {input unread : Text} {r : Reader} (holds : Holds input r unread) (calls : Nat) :
    ∃ left, Holds input (r.take calls).2 left ∧ (calls ≠ 0 ∨ Stop unread → Stop left) := by
  induction calls generalizing r unread with
  | zero => exact ⟨unread, holds, fun stop => stop.resolve_left (absurd rfl)⟩
  | succ calls ih =>
    obtain ⟨between, held, stop⟩ := nextHolds holds
    obtain ⟨left, kept, stops⟩ := ih held
    exact ⟨left, kept, fun _ => stops (.inr stop)⟩

theorem nextFromRest (sign : Sign) (tokens : List Token) :
    (nextFrom sign tokens).1 = (Segment.ofTokens sign tokens).head? ∧
    Segment.ofTokens .positive (nextFrom sign tokens).2 = (Segment.ofTokens sign tokens).tail := by
  induction tokens generalizing sign with
  | nil => exact ⟨rfl, rfl⟩
  | cons token rest ih =>
    cases token with
    | operator next => exact ih next
    | text run =>
      by_cases blank : Text.trim run = []
      · rw [nextFrom, if_pos blank, Segment.ofTokensBlank blank]
        exact ih sign
      · rw [nextFrom, if_neg blank, Segment.ofTokensText blank]
        exact ⟨rfl, rfl⟩

theorem nextRest (r : Reader) : r.next.1 = r.rest.head? ∧ r.next.2.rest = r.rest.tail :=
  nextFromRest .positive r.unread

theorem takeRest (r : Reader) (calls : Nat) :
    (r.take calls).1 =
      (r.rest.take calls).map some ++ List.replicate (calls - r.rest.length) none ∧
    (r.take calls).2.rest = r.rest.drop calls := by
  induction calls generalizing r with
  | zero => simp [take]
  | succ calls ih =>
    obtain ⟨answer, after⟩ := nextRest r
    obtain ⟨answers, left⟩ := ih r.next.2
    have step : r.take (calls + 1) =
        (r.next.1 :: (r.next.2.take calls).1, (r.next.2.take calls).2) := rfl
    rw [step, answer, answers, left, after]
    cases r.rest with
    | nil => simp [List.replicate_succ]
    | cons segment rest => simp

end Reader

theorem pulledSegmentsAgree (input : Text) (calls : Nat) :
    let pulled := (Reader.ofText input).take calls
    pulled.1 = ((segments input).take calls).map some ++
      List.replicate (calls - (segments input).length) none ∧
    pulled.2.rest = (segments input).drop calls ∧
    ∃ unread, Reader.Holds input pulled.2 unread ∧
      (calls ≠ 0 → Token.Stop unread ∧
        ∀ sign, Segment.split sign unread = (segments input).drop calls) := by
  intro pulled
  obtain ⟨answers, rest⟩ := (Reader.ofText input).takeRest calls
  rw [Reader.restOfText] at answers rest
  obtain ⟨unread, holds, stops⟩ := Reader.takeHolds (Reader.ofTextHolds input) calls
  refine ⟨answers, rest, unread, holds, ?_⟩
  intro some
  have stop : Token.Stop unread := stops (.inl some)
  refine ⟨stop, ?_⟩
  intro sign
  rw [Segment.stopUnsigned stop sign .positive, ← Segment.ofTokensSplit holds.lexed]
  exact rest

example : ((Reader.ofText "2 - + 3 -".toList).take 3).1 =
    [some ⟨.positive, ['2']⟩, some ⟨.positive, ['3']⟩, none] := by
  decide

end Tabletop
