import Tabletop.Proofs.Roll.Exact

/-! One expression under two numberings. The roller is asked the same questions and gives the same
answers; only what is shown of them differs, in the dice that one of the numberings counts from
zero and the other does not. Each of these shows one less, so it is known how far apart the two
totals are. Where each numbering lowers some dice, the differences work against each other. -/
namespace Tabletop

namespace Numbering

def lowers (n m : Numbering) (faces : Nat) : Bool := n.isZeroBased faces && !m.isZeroBased faces

def differs (n m : Numbering) (faces : Nat) : Bool := n.isZeroBased faces != m.isZeroBased faces

theorem lowersIff {n m : Numbering} {faces : Nat} :
    n.lowers m faces = true ↔ n.isZeroBased faces = true ∧ m.isZeroBased faces = false := by
  simp [lowers]

theorem differsEither (n m : Numbering) (faces : Nat) :
    n.differs m faces = (n.lowers m faces || m.lowers n faces) := by
  unfold differs lowers
  cases n.isZeroBased faces <;> cases m.isZeroBased faces <;> rfl

theorem lowersAsymm {n m : Numbering} {faces : Nat} (only : n.lowers m faces = true) :
    m.lowers n faces = false := by
  obtain ⟨zero, one⟩ := lowersIff.mp only
  rw [lowers, zero, one]
  rfl

theorem agreeIff {n m : Numbering} {faces : Nat} :
    n.differs m faces = false ↔ n.isZeroBased faces = m.isZeroBased faces := by
  simp [differs]

theorem lowersFew {n m : Numbering} {faces : Nat} (only : n.lowers m faces = true) :
    faces ≤ 100 := by
  rcases (n.isZeroBasedIff faces).mp (lowersIff.mp only).1 with ⟨ten, _⟩ | ⟨hundred, _⟩
  · omega
  · omega

end Numbering

structure DiceTerm.Below (d e : DiceTerm) : Prop where
  count : d.count = e.count
  faces : d.faces = e.faces
  sign : d.sign = e.sign
  outcomes : e.outcomes = d.outcomes.map (· + 1)
  low : e.range.low = d.range.low + 1
  high : e.range.high = d.range.high + 1

namespace Term

inductive Relabelled (n m : Numbering) : Term → Term → Prop where
  | same {t : Term} (agree : ∀ d, t = .dice d → n.differs m d.faces = false) : Relabelled n m t t
  | lower {d e : DiceTerm} (only : n.lowers m d.faces = true) (below : d.Below e) :
      Relabelled n m (.dice d) (.dice e)
  | higher {d e : DiceTerm} (only : m.lowers n d.faces = true) (above : e.Below d) :
      Relabelled n m (.dice d) (.dice e)

def signedCount (which : Nat → Bool) : Term → Int
  | .dice d => if which d.faces then d.sign.factor * (d.count : Int) else 0
  | _ => 0

structure Renumbered (n m : Numbering) (t u : Term) : Prop where
  relabelled : Relabelled n m t u
  amounts : u.signedSum + t.signedCount (m.lowers n) = t.signedSum + t.signedCount (n.lowers m)

theorem sameRenumbered {n m : Numbering} {t : Term}
    (agree : ∀ d, t = .dice d → n.differs m d.faces = false) : Renumbered n m t t where
  relabelled := .same agree
  amounts := by
    cases t with
    | dice d =>
      have neither := agree d rfl
      rw [Numbering.differsEither, Bool.or_eq_false_iff] at neither
      rw [signedCount, signedCount, neither.1, neither.2]
    | modifier m => rfl
    | invalid i => rfl

end Term

def Outcome.signedCount (which : Nat → Bool) (o : Outcome) : Int :=
  ((o.diceTerms.filter (which ·.faces)).map fun d => d.sign.factor * (d.count : Int)).sum

theorem Outcome.signedCountTerms (which : Nat → Bool) (o : Outcome) :
    o.signedCount which = (o.terms.map (Term.signedCount which)).sum := by
  obtain ⟨input, ts⟩ := o
  unfold signedCount diceTerms
  induction ts with
  | nil => rfl
  | cons t rest ih =>
    rw [List.map_cons, List.sum_cons, ← ih]
    cases t with
    | dice d => cases asked : which d.faces <;> simp [Term.dice?, Term.signedCount, asked]
    | modifier m => exact (Int.zero_add _).symm
    | invalid i => exact (Int.zero_add _).symm

theorem Outcome.signedCountOneWay {n m : Numbering} {o : Outcome}
    (never : ∀ d ∈ o.diceTerms, m.lowers n d.faces = false) :
    o.signedCount (m.lowers n) = 0 ∧ o.signedCount (n.lowers m) = o.signedCount (n.differs m) := by
  constructor
  · have none : o.diceTerms.filter (m.lowers n ·.faces) = [] := by
      simpa [List.filter_eq_nil_iff] using never
    rw [signedCount, none]
    rfl
  · have same :
        o.diceTerms.filter (n.lowers m ·.faces) = o.diceTerms.filter (n.differs m ·.faces) := by
      apply List.filter_congr
      intro d member
      rw [Numbering.differsEither, never d member, Bool.or_false]
    rw [signedCount, same, signedCount]

namespace DiceTerm

theorem belowSum {d e : DiceTerm} (below : d.Below e) (everyDie : d.outcomes.length = d.count)
    (high : (e.outcomes.sum : Int) ≤ Amount.highest) :
    e.signedSum = d.signedSum + d.sign.factor * (d.count : Int) := by
  have sums : e.outcomes.sum = d.outcomes.sum + d.count := by
    rw [below.outcomes, List.sum_map_add, ← everyDie]
    simp
  have less : (d.outcomes.sum : Int) ≤ Amount.highest := by omega
  obtain ⟨_, lower⟩ := (Term.dice d).signedSumExact
    (by intro _ same; cases same; exact less) (by intro _ same; cases same)
  obtain ⟨_, upper⟩ := (Term.dice e).signedSumExact
    (by intro _ same; cases same; exact high) (by intro _ same; cases same)
  have exactly :
      (Term.dice e).exactSum = (Term.dice d).exactSum + d.sign.factor * (d.count : Int) := by
    rw [Term.exactSum, Term.exactSum, sums, below.sign, Int.natCast_add, Int.mul_add]
  exact upper.trans (exactly.trans (congrArg (· + d.sign.factor * (d.count : Int)) lower.symm))

end DiceTerm

namespace Roller
variable {σ : Type}

def dice (r : Roller σ) (n : Numbering) (count faces : Nat) (sign : Sign) (s : σ) : DiceTerm :=
  ⟨count, faces, n.isZeroBased faces, (r.outcomes n count faces s).1, sign⟩

theorem outcomesAgree (r : Roller σ) {n m : Numbering} {faces : Nat}
    (agree : n.isZeroBased faces = m.isZeroBased faces) (count : Nat) (s : σ) :
    r.outcomes n count faces s = r.outcomes m count faces s := by
  have same : n.offset faces = m.offset faces := congrArg Bool.toNat agree
  rw [outcomes, outcomes, same]

/- No answer is below one, so that one less than it is one less also in unsigned words. -/
theorem outcomesLowered {r : Roller σ} (within : r.Within) {n m : Numbering} {faces : Nat}
    (only : n.lowers m faces = true) (count : Nat) (real : 0 < faces) (word : faces < UInt32.size)
    (s : σ) :
    (r.outcomes m count faces s).1 = (r.outcomes n count faces s).1.map (· + 1) := by
  obtain ⟨zero, one⟩ := Numbering.lowersIff.mp only
  have lowered : n.offset faces = 1 := congrArg Bool.toNat zero
  have plain : m.offset faces = 0 := congrArg Bool.toNat one
  have inRange := outcomesInRange within m count real word s
  rw [Numbering.range, plain] at inRange
  rw [outcomes, plain] at inRange ⊢
  rw [outcomes, lowered, List.map_map]
  apply List.map_congr_left
  intro face member
  have low : 1 ≤ face :=
    (FaceRange.containsIff.mp (inRange face (List.mem_map.mpr ⟨face, member, rfl⟩))).1
  simp only [Function.comp_apply]
  omega

theorem diceBelow {r : Roller σ} (within : r.Within) {n m : Numbering} {faces : Nat}
    (only : n.lowers m faces = true) (count : Nat) (real : 0 < faces) (word : faces < UInt32.size)
    (sign : Sign) (s : σ) :
    (r.dice n count faces sign s).Below (r.dice m count faces sign s) := by
  obtain ⟨zero, one⟩ := Numbering.lowersIff.mp only
  exact {
    count := rfl
    faces := rfl
    sign := rfl
    outcomes := outcomesLowered within only count real word s
    low := by simp [dice, DiceTerm.range, zero, one]
    high := by simp [dice, DiceTerm.range, zero, one] }

end Roller

namespace Evaluation
variable {σ : Type} {r : Roller σ} {n m : Numbering} {limit : Nat} {segment : Segment}

/- The number of dice is a 32-bit word whatever the limit is, so the sum of dice with few faces
never leaves the range. -/
theorem termBelow (within : r.Within) {count faces : Nat}
    (read : Reading.ofText limit segment.text = .dice count faces)
    (only : n.lowers m faces = true) (s : σ) :
    let d := r.dice n count faces segment.sign s
    let e := r.dice m count faces segment.sign s
    d.Below e ∧ e.signedSum = d.signedSum + d.sign.factor * (d.count : Int) := by
  intro d e
  obtain ⟨_, real, _⟩ := Reading.ofTextBounds read
  obtain ⟨some, word⟩ := Reading.ofTextWords read
  have below : d.Below e := Roller.diceBelow within only count real word segment.sign s
  have rolled : (term ⟨m, limit⟩ r segment s).1 = .dice e := congrArg Prod.fst (termDice s read)
  have most : e.outcomes.sum ≤ count * faces :=
    DiceTerm.outcomesSumLe (termWellFormed ⟨m, limit⟩ within segment s rolled)
  have few : count * faces ≤ UInt32.size * 100 :=
    Nat.mul_le_mul (Nat.le_of_lt some) (Numbering.lowersFew only)
  have room : ((UInt32.size * 100 : Nat) : Int) ≤ Amount.highest := by decide
  refine ⟨below, DiceTerm.belowSum below (r.outcomesLength n count faces s) ?_⟩
  exact Int.le_trans (Int.ofNat_le.mpr (Nat.le_trans most few)) room

theorem termRenumbered (within : r.Within) (n m : Numbering) (limit : Nat) (segment : Segment) :
    Paired ⟨n, limit⟩ ⟨m, limit⟩ r (Term.Renumbered n m) segment segment := by
  intro s
  cases read : Reading.ofText limit segment.text with
  | dice count faces =>
    rw [termDice (o := ⟨n, limit⟩) s read, termDice (o := ⟨m, limit⟩) s read]
    refine ⟨?_, rfl⟩
    cases lower : n.lowers m faces with
    | true =>
      obtain ⟨below, sums⟩ := termBelow within read lower s
      refine ⟨.lower lower below, ?_⟩
      simp only [Term.signedCount, Numbering.lowersAsymm lower, lower]
      exact (Int.add_zero _).trans sums
    | false =>
      cases higher : m.lowers n faces with
      | true =>
        obtain ⟨above, sums⟩ := termBelow within read higher s
        refine ⟨.higher higher above, ?_⟩
        simp only [Term.signedCount, higher, lower]
        exact sums.symm.trans (Int.add_zero _).symm
      | false =>
        have agree : n.differs m faces = false := by
          rw [Numbering.differsEither, lower, higher]
          rfl
        have equal : n.isZeroBased faces = m.isZeroBased faces := Numbering.agreeIff.mp agree
        simp only [equal, r.outcomesAgree equal]
        exact Term.sameRenumbered (by intro d same; cases same; exact agree)
  | modifier value =>
    rw [termModifier (o := ⟨n, limit⟩) s read, termModifier (o := ⟨m, limit⟩) s read]
    exact ⟨Term.sameRenumbered (by simp), rfl⟩
  | rejected reason =>
    rw [termRejected (o := ⟨n, limit⟩) s read, termRejected (o := ⟨m, limit⟩) s read]
    exact ⟨Term.sameRenumbered (by simp), rfl⟩

end Evaluation

theorem Term.renumberedSums {n m : Numbering} {ts us : List Term}
    (renumbered : List.Forall₂ (Renumbered n m) ts us) :
    (us.map signedSum).sum + (ts.map (signedCount (m.lowers n))).sum =
      (ts.map signedSum).sum + (ts.map (signedCount (n.lowers m))).sum := by
  induction renumbered with
  | nil => rfl
  | cons head _ ih =>
    have amounts := head.amounts
    simp only [List.map_cons, List.sum_cons]
    omega

theorem renumberingRelabels {σ : Type} (limit : Nat) (n m : Numbering) {r : Roller σ}
    (within : r.Within) (input : Text) (s : σ) :
    let first := evaluate ⟨n, limit⟩ r input s
    let second := evaluate ⟨m, limit⟩ r input s
    (evaluate ⟨n, limit⟩ r.recording input (s, [])).after =
      (evaluate ⟨m, limit⟩ r.recording input (s, [])).after ∧
    first.after = second.after ∧
    List.Forall₂ (Term.Relabelled n m) first.outcome.terms second.outcome.terms ∧
    (Amount.PrefixesFit first.outcome.signedSums → Amount.PrefixesFit second.outcome.signedSums →
      second.outcome.total - first.outcome.total =
        first.outcome.signedCount (n.lowers m) - first.outcome.signedCount (m.lowers n) ∧
      ((∀ d ∈ first.outcome.diceTerms, m.lowers n d.faces = false) →
        second.outcome.total - first.outcome.total = first.outcome.signedCount (n.differs m))) := by
  intro first second
  have paired : List.Forall₂ (Evaluation.Paired ⟨n, limit⟩ ⟨m, limit⟩ r (Term.Renumbered n m))
      (segments input) (segments input) :=
    List.forall₂_same.mpr fun segment _ => Evaluation.termRenumbered within n m limit segment
  obtain ⟨terms, after⟩ := Evaluation.termsPaired paired s
  have last : first.after = second.after := after
  refine ⟨?_, last, terms.imp fun _ _ renumbered => renumbered.relabelled, ?_⟩
  · rw [evaluateRecording, evaluateRecording]
    exact congrArg (·, (segments input).flatMap (Segment.draws limit)) last
  · intro firstFits secondFits
    have sums : second.outcome.signedSums.sum + first.outcome.signedCount (m.lowers n) =
        first.outcome.signedSums.sum + first.outcome.signedCount (n.lowers m) := by
      rw [Outcome.signedCountTerms, Outcome.signedCountTerms]
      exact Term.renumberedSums terms
    have apart : second.outcome.total - first.outcome.total =
        first.outcome.signedCount (n.lowers m) - first.outcome.signedCount (m.lowers n) := by
      rw [totalExact firstFits, totalExact secondFits]
      omega
    refine ⟨apart, ?_⟩
    intro never
    obtain ⟨nothing, all⟩ := Outcome.signedCountOneWay never
    rw [apart, nothing, Int.sub_zero, all]

theorem renumberingRelabelsBothKinds :
    let n : Numbering := ⟨true, true⟩
    let m : Numbering := {}
    let r := Roller.stepping 1
    let input := "2d10 - x - 3d100 + d6 + 4".toList
    let first := evaluate ⟨n, 1000⟩ r input 9
    let second := evaluate ⟨m, 1000⟩ r input 9
    r.Within ∧ Amount.PrefixesFit first.outcome.signedSums ∧
    Amount.PrefixesFit second.outcome.signedSums ∧
    (∀ d ∈ first.outcome.diceTerms, m.lowers n d.faces = false) ∧
    List.Forall₂ (Term.Relabelled n m) first.outcome.terms second.outcome.terms ∧
    first.outcome.diceTerms.map DiceTerm.outcomes = [[8, 9], [10, 11, 12], [2]] ∧
    second.outcome.total - first.outcome.total = -1 := by
  intro n m r input first second
  have within : r.Within := Roller.steppingWithin 1
  have firstFits : Amount.PrefixesFit first.outcome.signedSums := by decide
  have secondFits : Amount.PrefixesFit second.outcome.signedSums := by decide
  have never : ∀ d ∈ first.outcome.diceTerms, m.lowers n d.faces = false := by decide
  obtain ⟨_, _, relabelled, totals⟩ := renumberingRelabels 1000 n m within input 9
  refine ⟨within, firstFits, secondFits, never, relabelled, by decide, ?_⟩
  exact ((totals firstFits secondFits).2 never).trans (by decide)

theorem crossedNumberingsCancel :
    let n : Numbering := ⟨true, false⟩
    let m : Numbering := ⟨false, true⟩
    let r := Roller.stepping 0
    let first := (evaluate ⟨n, 1000⟩ r "d10+d100".toList 5).outcome
    let second := (evaluate ⟨m, 1000⟩ r "d10+d100".toList 5).outcome
    r.Within ∧ Amount.PrefixesFit first.signedSums ∧ Amount.PrefixesFit second.signedSums ∧
    first.signedCount (n.differs m) = 2 ∧ second.total - first.total = 0 := by
  intro n m r first second
  exact ⟨Roller.steppingWithin 0, by decide, by decide, by decide, by decide⟩

end Tabletop
