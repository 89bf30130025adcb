import Tabletop.Proofs.Roll.Terms

/-! The limit on the dice of one term. What a text says is settled without it; the limit only stands
guard over dice that were read, and it is the last thing to be asked. -/
namespace Tabletop.Reading
open Text (trim)

def allowed (c f limit : Nat) : Reading :=
  if limit < c then .rejected (.tooManyDice limit) else .dice c f

theorem allowedMost {c limit : Nat} (most : c ≤ limit) (f : Nat) : allowed c f limit = .dice c f :=
  if_neg (Nat.not_lt.mpr most)

theorem allowedMore {c limit : Nat} (more : limit < c) (f : Nat) :
    allowed c f limit = .rejected (.tooManyDice limit) :=
  if_pos more

inductive Guarded : (Nat → Reading) → Prop where
  | always {reading : Reading} (regular : ∀ limit, reading ≠ .rejected (.tooManyDice limit)) :
      Guarded fun _ => reading
  | dice (c f : Nat) : Guarded (allowed c f)

theorem flatGuarded (s : Text) : Guarded fun _ => ofFlat s := by
  refine .always fun limit => ?_
  unfold ofFlat
  split <;> simp

theorem numbersGuarded (c f : Nat) : Guarded (ofNumbers · c f) := by
  by_cases none : c = 0
  · have same : (ofNumbers · c f) = fun _ => .rejected .badCount := by
      funext limit
      rw [ofNumbers, if_pos none]
    rw [same]
    exact .always (by simp)
  · by_cases flat : f = 0
    · have same : (ofNumbers · c f) = fun _ => .rejected .badSize := by
        funext limit
        rw [ofNumbers, if_neg none, if_pos flat]
      rw [same]
      exact .always (by simp)
    · have same : (ofNumbers · c f) = allowed c f := by
        funext limit
        rw [ofNumbers, if_neg none, if_neg flat, allowed]
      rw [same]
      exact .dice c f

theorem diceGuarded (s : Text) : Guarded (ofDice · s) := by
  unfold ofDice
  cases s.filter (!isDiceCharacter ·) with
  | nil =>
    cases splitMarker? s with
    | none => exact .always (by simp)
    | some parts => exact numbersGuarded (count (trim parts.1)) (number (trim parts.2))
  | cons c rest => exact .always (by simp)

theorem textGuarded (s : Text) : Guarded (ofText · s) := by
  unfold ofText
  match s.countP isMarker with
  | 0 => exact flatGuarded s
  | 1 => exact diceGuarded s
  | _ + 2 => exact .always (by simp)

theorem raisedKeeps {read : Nat → Reading} (guarded : Guarded read) {m n : Nat} (raised : m ≤ n)
    (regular : read m ≠ .rejected (.tooManyDice m)) : read n = read m := by
  cases guarded with
  | always _ => rfl
  | dice c f =>
    have most : c ≤ m := Nat.le_of_not_lt fun more => regular (allowedMore more f)
    rw [allowedMost most, allowedMost (Nat.le_trans most raised)]

theorem raisedRefused {read : Nat → Reading} (guarded : Guarded read) {m : Nat}
    (refused : read m = .rejected (.tooManyDice m)) (n : Nat) :
    (∃ c f, read n = .dice c f ∧ m < c ∧ c ≤ n) ∨ read n = .rejected (.tooManyDice n) := by
  cases guarded with
  | always regular => exact absurd refused (regular m)
  | dice c f =>
    have more : m < c := by
      apply Nat.lt_of_not_le
      intro most
      rw [allowedMost most] at refused
      contradiction
    rcases Nat.lt_or_ge n c with still | most
    · exact .inr (allowedMore still f)
    · exact .inl ⟨c, f, allowedMost most f, more, most⟩

end Tabletop.Reading

/-! A roll under a higher limit on the dice of one term. Every term that was not refused for its
number of dice stays what it is and where it is, whatever falls this time; a term that was refused
for it is rolled if its dice are no longer too many. -/
namespace Tabletop

namespace Term

def TooMany (limit : Nat) (t : Term) : Prop :=
  ∃ raw sign, t = .invalid ⟨raw, sign, .tooManyDice limit⟩

inductive Raised (m n : Nat) : Term → Term → Prop where
  | kept {t u : Term} (regular : ¬ t.TooMany m) (same : u.unrolled = t.unrolled) : Raised m n t u
  | rolled (raw : Text) {sign : Sign} {d : DiceTerm} (same : d.sign = sign) (more : m < d.count)
      (most : d.count ≤ n) : Raised m n (.invalid ⟨raw, sign, .tooManyDice m⟩) (.dice d)
  | refused (raw : Text) (sign : Sign) :
      Raised m n (.invalid ⟨raw, sign, .tooManyDice m⟩) (.invalid ⟨raw, sign, .tooManyDice n⟩)

theorem readsRejected {limit : Nat} {segment : Segment} {t : Term} {reason : Rejection}
    (reads : t.Reads limit segment)
    (read : Reading.ofText limit segment.text = .rejected reason) :
    t = .invalid ⟨segment.text, segment.sign, reason⟩ := by
  obtain ⟨⟨raw, sign, cause⟩, rfl, rfl, rfl⟩ := (reads.invalid reason).mp read
  cases reads.sign
  rfl

theorem readsTooMany {limit : Nat} {segment : Segment} {t : Term} (reads : t.Reads limit segment)
    (many : t.TooMany limit) :
    Reading.ofText limit segment.text = .rejected (.tooManyDice limit) := by
  obtain ⟨raw, sign, rfl⟩ := many
  cases read : Reading.ofText limit segment.text with
  | dice count faces =>
    obtain ⟨d, other, _⟩ := (reads.dice count faces).mp read
    contradiction
  | modifier value =>
    obtain ⟨m, other, _⟩ := (reads.modifier value).mp read
    contradiction
  | rejected reason =>
    cases readsRejected reads read
    rfl

theorem readsSame {m n : Nat} {segment : Segment} {t : Term} (reads : t.Reads n segment)
    (same : Reading.ofText n segment.text = Reading.ofText m segment.text) :
    t.Reads m segment where
  sign := reads.sign
  dice := same ▸ reads.dice
  modifier := same ▸ reads.modifier
  invalid := same ▸ reads.invalid

theorem readsRaised {m n : Nat} (raised : m ≤ n) {segment : Segment} {t u : Term}
    (first : t.Reads m segment) (second : u.Reads n segment) : Raised m n t u := by
  have guarded := Reading.textGuarded segment.text
  by_cases refused : Reading.ofText m segment.text = .rejected (.tooManyDice m)
  · cases readsRejected first refused
    rcases Reading.raisedRefused guarded refused n with ⟨c, f, read, more, most⟩ | still
    · obtain ⟨d, rfl, rfl, rfl⟩ := (second.dice c f).mp read
      exact .rolled segment.text second.sign more most
    · cases readsRejected second still
      exact .refused segment.text segment.sign
  · have regular : ¬ t.TooMany m := fun many => refused (readsTooMany first many)
    have same := Reading.raisedKeeps guarded raised refused
    exact .kept regular (readsUnrolled (readsSame second same) first)

theorem allReadsRaised {m n : Nat} (raised : m ≤ n) {segments : List Segment} {ts us : List Term}
    (first : List.Forall₂ (Reads m) segments ts) (second : List.Forall₂ (Reads n) segments us) :
    List.Forall₂ (Raised m n) ts us := by
  induction first generalizing us with
  | nil =>
    cases second
    exact .nil
  | cons head _ ih =>
    cases second with
    | cons other others => exact .cons (readsRaised raised head other) (ih others)

end Term

/- The roller and its state may be others, because the dice that are let in move a roller on. -/
theorem limitOnlyGuards {m n : Nat} (raised : m ≤ n) :
    (∀ text, (Reading.ofText m text ≠ .rejected (.tooManyDice m) →
        Reading.ofText n text = Reading.ofText m text) ∧
      (Reading.ofText m text = .rejected (.tooManyDice m) →
        (∃ c f, Reading.ofText n text = .dice c f ∧ m < c ∧ c ≤ n) ∨
        Reading.ofText n text = .rejected (.tooManyDice n))) ∧
    ∀ (σ τ : Type) (o : Options) (r : Roller σ) (other : Roller τ) (input : Text) (s : σ)
      (start : τ), List.Forall₂ (Term.Raised m n)
        (evaluate (o.withMaxDice m) r input s).outcome.terms
        (evaluate (o.withMaxDice n) other input start).outcome.terms := by
  constructor
  · intro text
    have guarded := Reading.textGuarded text
    exact ⟨Reading.raisedKeeps guarded raised,
      fun refused => Reading.raisedRefused guarded refused n⟩
  · intro σ τ o r other input s start
    exact Term.allReadsRaised raised (evaluateRead (o.withMaxDice m) r input s)
      (evaluateRead (o.withMaxDice n) other input start)

theorem limitOnlyGuardsMixed :
    let r := Roller.stepping 1
    let input := "2d6 - 15d6 + 30d6 - 5 + 0d6 + 12dx".toList
    let low := (evaluate (({} : Options).withMaxDice 10) r input 3).outcome
    let high := (evaluate (({} : Options).withMaxDice 20) r input 3).outcome
    10 ≤ 20 ∧ List.Forall₂ (Term.Raised 10 20) low.terms high.terms ∧
    low.diceTerms.map DiceTerm.count = [2] ∧ high.diceTerms.map DiceTerm.count = [2, 15] ∧
    low.invalidTerms.map InvalidTerm.reason =
      [.tooManyDice 10, .tooManyDice 10, .badCount, .badCharacters ['x']] ∧
    high.invalidTerms.map InvalidTerm.reason =
      [.tooManyDice 20, .badCount, .badCharacters ['x']] := by
  intro r input low high
  have raised : 10 ≤ 20 := by decide
  obtain ⟨_, terms⟩ := limitOnlyGuards raised
  exact ⟨raised, terms Nat Nat {} r r input 3 3, by decide, by decide, by decide, by decide⟩

end Tabletop
