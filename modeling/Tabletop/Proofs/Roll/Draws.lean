import Tabletop.Proofs.Dice.Words
import Tabletop.Proofs.Roll.Terms
import Tabletop.Proofs.Term.Reading

/-! Which dice an evaluation asks for. The questions are known before any die falls: every valid
dice term asks for each of its dice, in source order, and nothing else asks for any. The answers
are the outcomes up to the numbering, and the roller is left where they leave it. -/
namespace Tabletop

def Segment.draws (limit : Nat) (segment : Segment) : List Nat :=
  match Reading.ofText limit segment.text with
  | .dice count faces => List.replicate count faces
  | _ => []

def DiceTerm.draws (d : DiceTerm) : List Nat := List.replicate d.count d.faces

theorem segmentDrawsReal {limit : Nat} {segment : Segment} :
    ∀ faces ∈ segment.draws limit, 0 < faces := by
  intro asked member
  unfold Segment.draws at member
  split at member
  · rename_i count faces read
    rw [List.eq_of_mem_replicate member]
    exact (Reading.ofTextBounds read).2.1
  · contradiction

namespace Evaluation
variable {σ : Type} (o : Options) (r : Roller σ)

theorem termDraws (segment : Segment) (s : σ) :
    let asked := segment.draws o.maxDice
    let t := (term o r segment s).1
    t.dice?.toList.flatMap DiceTerm.draws = asked ∧
    t.dice?.toList.flatMap DiceTerm.outcomes = r.shown o.numbering asked s ∧
    (term o r segment s).2.2 = (r.answers asked s).2 := by
  cases read : Reading.ofText o.maxDice segment.text with
  | dice count faces =>
    have asked : segment.draws o.maxDice = List.replicate count faces := by
      rw [Segment.draws, read]
    rw [termDice s read, asked, Roller.outcomesAnswers]
    simp [Term.dice?, DiceTerm.draws]
  | modifier value =>
    have nothing : segment.draws o.maxDice = [] := by rw [Segment.draws, read]
    rw [termModifier s read, nothing]
    exact ⟨rfl, rfl, rfl⟩
  | rejected reason =>
    have nothing : segment.draws o.maxDice = [] := by rw [Segment.draws, read]
    rw [termRejected s read, nothing]
    exact ⟨rfl, rfl, rfl⟩

theorem termsDraw (segments : List Segment) (s : σ) :
    let asked := segments.flatMap (Segment.draws o.maxDice)
    let dice := (terms o r segments s).1.filterMap Term.dice?
    dice.flatMap DiceTerm.draws = asked ∧
    dice.flatMap DiceTerm.outcomes = r.shown o.numbering asked s ∧
    (terms o r segments s).2.2 = (r.answers asked s).2 := by
  -- The questions of the first segment are answered before those of the others, so the state
  -- between them is the one after its answers.
  induction segments generalizing s with
  | nil => exact ⟨rfl, rfl, rfl⟩
  | cons segment rest ih =>
    obtain ⟨headAsked, headShown, between⟩ := termDraws o r segment s
    obtain ⟨restAsked, restShown, after⟩ := ih (term o r segment s).2.2
    rw [between] at restAsked restShown after
    have parts : ((term o r segment s).1 ::
          (terms o r rest (r.answers (segment.draws o.maxDice) s).2).1).filterMap Term.dice? =
        (term o r segment s).1.dice?.toList ++
          (terms o r rest (r.answers (segment.draws o.maxDice) s).2).1.filterMap Term.dice? := by
      cases (term o r segment s).1 <;> rfl
    simp only [termsCons, between, parts, List.flatMap_cons, List.flatMap_append]
    refine ⟨?_, ?_, ?_⟩
    · rw [headAsked, restAsked]
    · rw [headShown, restShown, Roller.shownAppend]
    · rw [after, Roller.answersAppend]

theorem termsRolled (segments : List Segment) (s : σ) :
    ∀ t ∈ (terms o r segments s).1, ∀ d, t = .dice d →
      ∃ before, d.outcomes = (r.outcomes o.numbering d.count d.faces before).1 :=
  termsAll o r
    (fun _ _ s _ rolled => ⟨s, congrArg DiceTerm.outcomes (termRolled rolled).2⟩) s

theorem termRecording (segment : Segment) (s : σ) (log : List Nat) :
    term o r.recording segment (s, log) =
      ((term o r segment s).1, (term o r segment s).2.1, (term o r segment s).2.2,
        log ++ segment.draws o.maxDice) := by
  cases read : Reading.ofText o.maxDice segment.text with
  | dice count faces =>
    rw [termDice _ read, termDice s read, Roller.outcomesRecording, Segment.draws, read]
  | modifier value =>
    rw [termModifier _ read, termModifier s read, Segment.draws, read, List.append_nil]
  | rejected reason =>
    rw [termRejected _ read, termRejected s read, Segment.draws, read, List.append_nil]

theorem termsRecording (segments : List Segment) (s : σ) (log : List Nat) :
    terms o r.recording segments (s, log) =
      ((terms o r segments s).1, (terms o r segments s).2.1, (terms o r segments s).2.2,
        log ++ segments.flatMap (Segment.draws o.maxDice)) := by
  induction segments generalizing s log with
  | nil => rw [List.flatMap_nil, List.append_nil]; rfl
  | cons segment rest ih =>
    rw [termsCons, termRecording, ih, termsCons, List.flatMap_cons, List.append_assoc]

end Evaluation

theorem evaluateRecording {σ : Type} (o : Options) (r : Roller σ) (input : Text) (s : σ) :
    evaluate o r.recording input (s, []) =
      ⟨(evaluate o r input s).outcome, (evaluate o r input s).log, (evaluate o r input s).after,
        (segments input).flatMap (Segment.draws o.maxDice)⟩ := by
  simp only [evaluate, Evaluation.termsRecording, List.nil_append]
  rfl

theorem drawsInSourceOrder {σ : Type} (o : Options) {r : Roller σ} (positive : r.Positive)
    (input : Text) (s : σ) :
    let run := evaluate o r input s
    let asked := run.outcome.diceTerms.flatMap DiceTerm.draws
    let answered := r.answers asked s
    asked = (segments input).flatMap (Segment.draws o.maxDice) ∧
    evaluate o r.recording input (s, []) = ⟨run.outcome, run.log, run.after, asked⟩ ∧
    (∀ face ∈ answered.1, 1 ≤ face) ∧
    run.outcome.diceTerms.flatMap DiceTerm.outcomes =
      List.zipWith o.numbering.shown asked answered.1 ∧
    run.after = answered.2 := by
  intro run asked answered
  obtain ⟨known, shown, after⟩ := Evaluation.termsDraw o r (segments input) s
  have same : asked = (segments input).flatMap (Segment.draws o.maxDice) := known
  have real : ∀ faces ∈ asked, 0 < faces := by
    intro faces member
    rw [same] at member
    obtain ⟨segment, _, inside⟩ := List.mem_flatMap.mp member
    exact segmentDrawsReal faces inside
  have answer : answered = r.answers ((segments input).flatMap (Segment.draws o.maxDice)) s :=
    congrArg (r.answers · s) same
  refine ⟨same, ?_, Roller.answersPositive positive real s, ?_, ?_⟩
  · rw [same]
    exact evaluateRecording o r input s
  · rw [same, answer]
    exact shown
  · rw [answer]
    exact after

theorem drawsInSourceOrderMixed :
    let o : Options := ⟨⟨true, false⟩, 1000⟩
    let r := Roller.stepping 1
    let input := "2d10 + x - 3 + 2000d6 + d100".toList
    r.Positive ∧ (evaluate o r.recording input (9, [])).after = (12, [10, 10, 100]) ∧
    (evaluate o r input 9).outcome.diceTerms.flatMap DiceTerm.outcomes = [8, 9, 11] := by
  intro o r input
  have positive : r.Positive := fun current faces _ => Nat.le_add_left 1 ((current - 1) % faces)
  obtain ⟨_, recorded, _, shown, _⟩ := drawsInSourceOrder o positive input 9
  exact ⟨positive, (congrArg Evaluation.after recorded).trans (by decide), shown.trans (by decide)⟩

/-! The answers of the roller behind each dice term. A term keeps what is shown of the answers; the
answers themselves are found again by asking the roller for the dice of one term after the other. -/

def Roller.thrown {σ : Type} (r : Roller σ) : List DiceTerm → σ → List (List Nat) × σ
  | [], s => ([], s)
  | d :: rest, s =>
    let (answered, between) := r.answers d.draws s
    let (others, after) := r.thrown rest between
    (answered :: others, after)

structure DiceTerm.Answered (n : Numbering) (d : DiceTerm) (answered : List Nat) : Prop where
  outcomes : d.outcomes = answered.map (n.shown d.faces)
  range : d.range = n.range d.faces
  within : ∀ face ∈ answered, 1 ≤ face ∧ face ≤ d.faces

namespace Roller
variable {σ : Type}

theorem thrownCons (r : Roller σ) (d : DiceTerm) (rest : List DiceTerm) (s : σ) :
    r.thrown (d :: rest) s =
      ((r.answers d.draws s).1 :: (r.thrown rest (r.answers d.draws s).2).1,
        (r.thrown rest (r.answers d.draws s).2).2) := rfl

theorem answersWithin {r : Roller σ} (within : r.Within) {faces : Nat} (real : 0 < faces)
    (word : faces < UInt32.size) (count : Nat) (s : σ) :
    ∀ face ∈ (r.answers (List.replicate count faces) s).1, 1 ≤ face ∧ face ≤ faces := by
  induction count generalizing s with
  | zero => simp [answers]
  | succ count ih =>
    intro face member
    rw [List.replicate_succ, answersCons] at member
    rcases List.mem_cons.mp member with rfl | later
    · exact within s faces real word
    · exact ih _ face later

end Roller

namespace Evaluation
variable {σ : Type}

theorem termAnswered (o : Options) {r : Roller σ} (within : r.Within) {segment : Segment}
    {count faces : Nat} (read : Reading.ofText o.maxDice segment.text = .dice count faces) (s : σ) :
    ∃ d : DiceTerm, term o r segment s = (.dice d, [], (r.answers d.draws s).2) ∧
      d.Answered o.numbering (r.answers d.draws s).1 := by
  obtain ⟨_, real, _⟩ := Reading.ofTextBounds read
  obtain ⟨_, word⟩ := Reading.ofTextWords read
  have outcomes : r.outcomes o.numbering count faces s =
      ((r.answers (List.replicate count faces) s).1.map (o.numbering.shown faces),
        (r.answers (List.replicate count faces) s).2) := by
    rw [Roller.outcomesAnswers, Roller.shownReplicate]
  refine ⟨⟨count, faces, o.numbering.isZeroBased faces, (r.outcomes o.numbering count faces s).1,
    segment.sign⟩, ?_, ?_⟩
  · rw [termDice s read, outcomes]
    rfl
  · exact {
      outcomes := congrArg Prod.fst outcomes
      range := DiceTerm.rangeNumbering rfl real
      within := Roller.answersWithin within real word count s }

theorem termsAnswered (o : Options) {r : Roller σ} (within : r.Within) (segments : List Segment)
    (s : σ) :
    let dice := (terms o r segments s).1.filterMap Term.dice?
    List.Forall₂ (DiceTerm.Answered o.numbering) dice (r.thrown dice s).1 ∧
    (terms o r segments s).2.2 = (r.thrown dice s).2 := by
  -- Only dice terms ask the roller, so the state before a term is the one that the dice terms
  -- before it have left.
  induction segments generalizing s with
  | nil => exact ⟨.nil, rfl⟩
  | cons segment rest ih =>
    cases read : Reading.ofText o.maxDice segment.text with
    | dice count faces =>
      obtain ⟨d, rolled, answered⟩ := termAnswered o within read s
      obtain ⟨others, after⟩ := ih (r.answers d.draws s).2
      simp only [termsCons, rolled, List.filterMap_cons, Term.dice?, Roller.thrownCons]
      exact ⟨.cons answered others, after⟩
    | modifier value =>
      simp only [termsCons, termModifier s read, List.filterMap_cons, Term.dice?]
      exact ih s
    | rejected reason =>
      simp only [termsCons, termRejected s read, List.filterMap_cons, Term.dice?]
      exact ih s

end Evaluation

theorem evaluateAnswered {σ : Type} (o : Options) {r : Roller σ} (within : r.Within) (input : Text)
    (s : σ) :
    let run := evaluate o r input s
    let thrown := r.thrown run.outcome.diceTerms s
    List.Forall₂ (DiceTerm.Answered o.numbering) run.outcome.diceTerms thrown.1 ∧
    run.after = thrown.2 :=
  Evaluation.termsAnswered o within (segments input) s

/-! The dice terms of an evaluation are well formed: as many outcomes as dice, all of them in the
one range that the term and the numbering agree on. From an answer of the roller to that range no
step of the arithmetic leaves the 32-bit words. -/

structure DiceTerm.WellFormed (o : Options) (d : DiceTerm) : Prop where
  count : 1 ≤ d.count ∧ d.count ≤ o.maxDice
  faces : 1 ≤ d.faces ∧ d.faces < UInt32.size
  everyDie : d.outcomes.length = d.count
  inRange : ∀ x ∈ d.outcomes, d.range.contains x = true
  numbered : d.range = o.numbering.range d.faces
  lowered : d.range =
    if d.faces = 10 ∧ o.numbering.zeroBasedTen = true ∨
      d.faces = 100 ∧ o.numbering.zeroBasedHundred = true
    then ⟨0, d.faces - 1⟩ else ⟨1, d.faces⟩
  words : d.range? = some d.range ∧ o.numbering.range? d.faces = some d.range

namespace Evaluation
variable {σ : Type}

theorem termWellFormed (o : Options) {r : Roller σ} (within : r.Within) (segment : Segment) (s : σ)
    {d : DiceTerm} (rolled : (term o r segment s).1 = .dice d) : d.WellFormed o := by
  obtain ⟨read, kept⟩ := termRolled rolled
  obtain ⟨dice, real, most⟩ := Reading.ofTextBounds read
  obtain ⟨_, word⟩ := Reading.ofTextWords read
  have outcomes : d.outcomes = (r.outcomes o.numbering d.count d.faces s).1 :=
    congrArg DiceTerm.outcomes kept
  have numbered : d.range = o.numbering.range d.faces :=
    DiceTerm.rangeNumbering (congrArg DiceTerm.zeroBased kept) real
  have inRange := Roller.outcomesInRange within o.numbering d.count real word s
  exact {
    count := ⟨dice, most⟩
    faces := ⟨real, word⟩
    everyDie := outcomes ▸ r.outcomesLength o.numbering d.count d.faces s
    inRange := by rwa [outcomes, numbered]
    numbered := numbered
    lowered := numbered.trans (o.numbering.rangeCases d.faces)
    words := ⟨DiceTerm.rangeWords real word, numbered ▸ o.numbering.rangeWords real⟩ }

theorem termsWellFormed (o : Options) {r : Roller σ} (within : r.Within) (segments : List Segment)
    (s : σ) : ∀ t ∈ (terms o r segments s).1, ∀ d, t = .dice d → d.WellFormed o :=
  termsAll o r (fun segment _ s _ => termWellFormed o within segment s) s

end Evaluation

theorem diceTermsWellFormed {σ : Type} (o : Options) {r : Roller σ} (within : r.Within)
    (input : Text) (s : σ) :
    let outcome := (evaluate o r input s).outcome
    let asked := outcome.diceTerms.flatMap DiceTerm.draws
    (∀ d ∈ outcome.diceTerms, d.WellFormed o) ∧
    (r.rolls asked s).mapM (fun roll => Word.sub? roll.2 (o.numbering.offset roll.1)) =
      some (outcome.diceTerms.flatMap DiceTerm.outcomes) := by
  intro outcome asked
  have wellFormed : ∀ d ∈ outcome.diceTerms, d.WellFormed o := by
    intro d member
    exact Evaluation.termsWellFormed o within (segments input) s _
      (Outcome.diceTermIff.mp member) d rfl
  have real : ∀ faces ∈ asked, 0 < faces ∧ faces < UInt32.size := by
    intro faces member
    obtain ⟨d, inside, drawn⟩ := List.mem_flatMap.mp member
    cases List.eq_of_mem_replicate drawn
    exact (wellFormed d inside).faces
  obtain ⟨known, shown, _⟩ := Evaluation.termsDraw o r (segments input) s
  refine ⟨wellFormed, ?_⟩
  have words := Roller.rollsWords o.numbering fun roll inside =>
    (Roller.rollsWithin within real s roll inside).1
  rw [words]
  exact congrArg some ((congrArg (r.shown o.numbering · s) known).trans shown.symm)

theorem diceTermsWellFormedZeroBased :
    let o : Options := ⟨⟨true, false⟩, 3⟩
    let r := Roller.stepping 1
    let outcome := (evaluate o r "3d10 - d4294967295 + 4d6 + d100".toList 9).outcome
    r.Within ∧ outcome.diceTerms.map DiceTerm.outcomes = [[8, 9, 0], [12], [13]] ∧
    (∀ d ∈ outcome.diceTerms, d.WellFormed o) ∧
    outcome.diceTerms.map DiceTerm.range? =
      [some ⟨0, 9⟩, some ⟨1, 4294967295⟩, some ⟨1, 100⟩] := by
  intro o r outcome
  have within : r.Within := Roller.steppingWithin 1
  obtain ⟨wellFormed, _⟩ :=
    diceTermsWellFormed o within "3d10 - d4294967295 + 4d6 + d100".toList 9
  exact ⟨within, by decide, wellFormed, by decide⟩

end Tabletop
