import Mathlib.Algebra.Ring.Int.Defs
import Mathlib.Data.List.Forall2
import Mathlib.Data.List.Induction
import Mathlib.Data.List.Infix
import Tabletop.Roll.Evaluate

/-! What an evaluation keeps of an expression. Each segment gives one term, in source order, and
the term says of it what the reading of its text says; only the rolled numbers depend on the
roller. The lists of one kind of term divide the terms between them. -/
namespace Tabletop

structure Term.Reads (limit : Nat) (segment : Segment) (t : Term) : Prop where
  sign : t.sign = segment.sign
  dice : ∀ count faces, Reading.ofText limit segment.text = .dice count faces ↔
    ∃ d, t = .dice d ∧ d.count = count ∧ d.faces = faces
  modifier : ∀ value, Reading.ofText limit segment.text = .modifier value ↔
    ∃ m, t = .modifier m ∧ m.value = value
  invalid : ∀ reason, Reading.ofText limit segment.text = .rejected reason ↔
    ∃ i, t = .invalid i ∧ i.raw = segment.text ∧ i.reason = reason

def Term.unrolled : Term → Term
  | .dice d => .dice { d with zeroBased := false, outcomes := [] }
  | .modifier m => .modifier m
  | .invalid i => .invalid i

structure Outcome.Partitioned (o : Outcome) : Prop where
  dice : (o.diceTerms.map Term.dice).Sublist o.terms
  modifier : (o.modifierTerms.map Term.modifier).Sublist o.terms
  invalid : (o.invalidTerms.map Term.invalid).Sublist o.terms
  all : (o.diceTerms.map Term.dice ++ o.modifierTerms.map Term.modifier ++
    o.invalidTerms.map Term.invalid).Perm o.terms
  lengths : o.diceTerms.length + o.modifierTerms.length + o.invalidTerms.length = o.terms.length
  errors : o.hasErrors = true ↔ o.invalidTerms ≠ []

namespace Evaluation
variable {σ : Type} {o : Options} {r : Roller σ} {segment : Segment}

theorem termDice {count faces : Nat} (s : σ)
    (read : Reading.ofText o.maxDice segment.text = .dice count faces) :
    term o r segment s =
      (.dice ⟨count, faces, o.numbering.isZeroBased faces,
          (r.outcomes o.numbering count faces s).1, segment.sign⟩,
        [], (r.outcomes o.numbering count faces s).2) := by
  rw [term, read]

theorem termModifier {value : Nat} (s : σ)
    (read : Reading.ofText o.maxDice segment.text = .modifier value) :
    term o r segment s = (.modifier ⟨value, segment.sign⟩, [], s) := by
  rw [term, read]

theorem termRejected {reason : Rejection} (s : σ)
    (read : Reading.ofText o.maxDice segment.text = .rejected reason) :
    term o r segment s =
      (.invalid ⟨segment.text, segment.sign, reason⟩, [.invalidTerm segment.text reason], s) := by
  rw [term, read]

theorem termRolled {s : σ} {d : DiceTerm} (rolled : (term o r segment s).1 = .dice d) :
    Reading.ofText o.maxDice segment.text = .dice d.count d.faces ∧
    d = ⟨d.count, d.faces, o.numbering.isZeroBased d.faces,
      (r.outcomes o.numbering d.count d.faces s).1, segment.sign⟩ := by
  cases read : Reading.ofText o.maxDice segment.text with
  | dice count faces =>
    rw [termDice s read] at rolled
    cases rolled
    exact ⟨rfl, rfl⟩
  | modifier value =>
    rw [termModifier s read] at rolled
    contradiction
  | rejected reason =>
    rw [termRejected s read] at rolled
    contradiction

theorem termsCons (o : Options) (r : Roller σ) (segment : Segment) (rest : List Segment) (s : σ) :
    terms o r (segment :: rest) s =
      ((term o r segment s).1 :: (terms o r rest (term o r segment s).2.2).1,
        (term o r segment s).2.1 ++ (terms o r rest (term o r segment s).2.2).2.1,
        (terms o r rest (term o r segment s).2.2).2.2) := rfl

theorem termsAll {P : Term → Prop} (o : Options) (r : Roller σ) {segments : List Segment}
    (each : ∀ segment ∈ segments, ∀ s, P (term o r segment s).1) (s : σ) :
    ∀ t ∈ (terms o r segments s).1, P t := by
  induction segments generalizing s with
  | nil => simp [terms]
  | cons segment rest ih =>
    intro t member
    rw [termsCons] at member
    rcases List.mem_cons.mp member with rfl | later
    · exact each segment List.mem_cons_self s
    · exact ih (fun other inside => each other (List.mem_cons_of_mem segment inside)) _ t later

theorem termReads (o : Options) (r : Roller σ) (segment : Segment) (s : σ) :
    Term.Reads o.maxDice segment (term o r segment s).1 := by
  cases read : Reading.ofText o.maxDice segment.text with
  | dice count faces =>
    rw [termDice s read]
    exact ⟨rfl, by simp [read], by simp [read], by simp [read]⟩
  | modifier value =>
    rw [termModifier s read]
    exact ⟨rfl, by simp [read], by simp [read], by simp [read]⟩
  | rejected reason =>
    rw [termRejected s read]
    exact ⟨rfl, by simp [read], by simp [read], by simp [read]⟩

theorem termsRead (o : Options) (r : Roller σ) (segments : List Segment) (s : σ) :
    List.Forall₂ (Term.Reads o.maxDice) segments (terms o r segments s).1 := by
  induction segments generalizing s with
  | nil => exact .nil
  | cons segment rest ih => exact .cons (termReads o r segment s) (ih _)

end Evaluation

theorem Term.readsUnrolled {limit : Nat} {segment : Segment} {t u : Term}
    (first : t.Reads limit segment) (second : u.Reads limit segment) :
    t.unrolled = u.unrolled := by
  have sign : t.sign = u.sign := first.sign.trans second.sign.symm
  cases read : Reading.ofText limit segment.text with
  | dice count faces =>
    obtain ⟨⟨_, _, _, _, _⟩, rfl, rfl, rfl⟩ := (first.dice count faces).mp read
    obtain ⟨⟨_, _, _, _, _⟩, rfl, rfl, rfl⟩ := (second.dice _ _).mp read
    cases sign
    rfl
  | modifier value =>
    obtain ⟨⟨_, _⟩, rfl, rfl⟩ := (first.modifier value).mp read
    obtain ⟨⟨_, _⟩, rfl, rfl⟩ := (second.modifier _).mp read
    cases sign
    rfl
  | rejected reason =>
    obtain ⟨⟨_, _, _⟩, rfl, firstRaw, rfl⟩ := (first.invalid reason).mp read
    obtain ⟨⟨_, _, _⟩, rfl, secondRaw, rfl⟩ := (second.invalid _).mp read
    cases sign
    cases firstRaw.trans secondRaw.symm
    rfl

theorem unrolledOfRead {limit : Nat} {segments : List Segment} {ts us : List Term}
    (first : List.Forall₂ (Term.Reads limit) segments ts)
    (second : List.Forall₂ (Term.Reads limit) segments us) :
    ts.map Term.unrolled = us.map Term.unrolled := by
  induction first generalizing us with
  | nil =>
    cases second
    rfl
  | cons head _ ih =>
    cases second with
    | cons head' tail' =>
      rw [List.map_cons, List.map_cons, Term.readsUnrolled head head', ih tail']

theorem kindSublist {α : Type} {kind? : Term → Option α} {back : α → Term}
    (inverse : ∀ t a, kind? t = some a → back a = t) (ts : List Term) :
    ((ts.filterMap kind?).map back).Sublist ts := by
  induction ts with
  | nil => exact .slnil
  | cons t rest ih =>
    cases kind : kind? t with
    | none =>
      rw [List.filterMap_cons_none kind]
      exact ih.cons t
    | some a =>
      rw [List.filterMap_cons_some kind, List.map_cons, inverse t a kind]
      exact ih.cons_cons t

theorem kindsPerm (ts : List Term) :
    ((ts.filterMap Term.dice?).map Term.dice ++ (ts.filterMap Term.modifier?).map Term.modifier ++
      (ts.filterMap Term.invalid?).map Term.invalid).Perm ts := by
  induction ts with
  | nil => exact .nil
  | cons t rest ih =>
    cases t with
    | dice d => exact ih.cons (.dice d)
    | modifier m =>
      have moved : ((rest.filterMap Term.dice?).map Term.dice ++
          .modifier m :: (rest.filterMap Term.modifier?).map Term.modifier).Perm
          (.modifier m :: ((rest.filterMap Term.dice?).map Term.dice ++
            (rest.filterMap Term.modifier?).map Term.modifier)) := List.perm_middle
      exact (moved.append_right _).trans (ih.cons _)
    | invalid i => exact List.perm_middle.trans (ih.cons _)

theorem kindMember {α : Type} {kind? : Term → Option α} {back : α → Term}
    (inverse : ∀ t a, kind? t = some a ↔ t = back a) {ts : List Term} {a : α} :
    a ∈ ts.filterMap kind? ↔ back a ∈ ts := by
  rw [List.mem_filterMap]
  constructor
  · rintro ⟨t, member, kind⟩
    exact (inverse t a).mp kind ▸ member
  · intro member
    exact ⟨back a, member, (inverse (back a) a).mpr rfl⟩

theorem Outcome.diceTermIff {o : Outcome} {d : DiceTerm} :
    d ∈ o.diceTerms ↔ Term.dice d ∈ o.terms :=
  kindMember (by intro t d; cases t <;> simp [Term.dice?])

theorem Outcome.modifierTermIff {o : Outcome} {m : ModifierTerm} :
    m ∈ o.modifierTerms ↔ Term.modifier m ∈ o.terms :=
  kindMember (by intro t m; cases t <;> simp [Term.modifier?])

theorem outcomePartitioned (o : Outcome) : o.Partitioned where
  dice := kindSublist (by intro t d kind; cases t <;> simp_all [Term.dice?]) o.terms
  modifier := kindSublist (by intro t m kind; cases t <;> simp_all [Term.modifier?]) o.terms
  invalid := kindSublist (by intro t i kind; cases t <;> simp_all [Term.invalid?]) o.terms
  all := kindsPerm o.terms
  lengths := by
    have total := (kindsPerm o.terms).length_eq
    simp only [List.length_append, List.length_map] at total
    exact total
  errors := by
    simp only [Outcome.hasErrors, Outcome.invalidTerms, List.any_eq_true, ne_eq,
      List.filterMap_eq_nil_iff, not_forall]
    constructor
    · rintro ⟨t, member, bad⟩
      refine ⟨t, member, ?_⟩
      cases t <;> simp_all [Term.isInvalid, Term.invalid?]
    · rintro ⟨t, member, bad⟩
      refine ⟨t, member, ?_⟩
      cases t <;> simp_all [Term.isInvalid, Term.invalid?]

theorem evaluateRead {σ : Type} (o : Options) (r : Roller σ) (input : Text) (s : σ) :
    List.Forall₂ (Term.Reads o.maxDice) (segments input) (evaluate o r input s).outcome.terms :=
  Evaluation.termsRead o r (segments input) s

/- The second evaluation shares only the text and the limit with the first. -/
theorem termsFollowSegments {σ τ : Type} (o : Options) (numbering : Numbering) (r : Roller σ)
    (other : Roller τ) (input : Text) (s : σ) (start : τ) :
    let outcome := (evaluate o r input s).outcome
    let again := (evaluate { o with numbering } other input start).outcome
    List.Forall₂ (Term.Reads o.maxDice) (segments input) outcome.terms ∧
    again.terms.map Term.unrolled = outcome.terms.map Term.unrolled ∧ outcome.Partitioned := by
  have first := Evaluation.termsRead o r (segments input) s
  have second := Evaluation.termsRead { o with numbering } other (segments input) start
  exact ⟨first, unrolledOfRead second first, outcomePartitioned _⟩

end Tabletop

/-! Two evaluations side by side. Where single terms are related and leave the roller in the same
state, the next terms start from the same state again, so whole runs are related. -/
namespace Tabletop.Evaluation
variable {σ : Type}

def Paired (o other : Options) (r : Roller σ) (related : Term → Term → Prop)
    (first second : Segment) : Prop :=
  ∀ s, related (term o r first s).1 (term other r second s).1 ∧
    (term o r first s).2.2 = (term other r second s).2.2

theorem termsPaired {o other : Options} {r : Roller σ} {related : Term → Term → Prop}
    {firsts seconds : List Segment}
    (paired : List.Forall₂ (Paired o other r related) firsts seconds) (s : σ) :
    List.Forall₂ related (terms o r firsts s).1 (terms other r seconds s).1 ∧
    (terms o r firsts s).2.2 = (terms other r seconds s).2.2 := by
  induction paired generalizing s with
  | nil => exact ⟨.nil, rfl⟩
  | @cons first second _ _ head _ ih =>
    obtain ⟨terms, between⟩ := head s
    obtain ⟨others, after⟩ := ih (term o r first s).2.2
    rw [termsCons, termsCons, ← between]
    exact ⟨.cons terms others, after⟩

end Tabletop.Evaluation

/-! When a total is the exact sum of its terms. The addition stops at the ends of the range at
every term, so the sums of the first terms count and not only the last one. -/
namespace Tabletop

def Amount.PrefixesFit (amounts : List Int) : Prop := ∀ first, first <+: amounts → Fits first.sum

theorem Amount.prefixesFitInits {amounts : List Int} :
    (∀ first ∈ amounts.inits, Fits first.sum) ↔ PrefixesFit amounts := by
  simp only [PrefixesFit, List.mem_inits]

instance (amounts : List Int) : Decidable (Amount.PrefixesFit amounts) :=
  decidable_of_iff _ Amount.prefixesFitInits

theorem Amount.prefixesFitLeft {first second : List Int} (fit : PrefixesFit (first ++ second)) :
    PrefixesFit first := by
  intro start inside
  exact fit start (inside.trans (List.prefix_append first second))

def Outcome.signedSums (o : Outcome) : List Int := o.terms.map Term.signedSum

theorem totalOfSums (ts : List Term) :
    Outcome.totalOf ts = (ts.map Term.signedSum).foldl (fun total x => Amount.clamp (total + x)) 0 := by
  rw [List.foldl_map]
  rfl

theorem totalOfExact {ts : List Term} (fit : Amount.PrefixesFit (ts.map Term.signedSum)) :
    Outcome.totalOf ts = (ts.map Term.signedSum).sum := by
  induction ts using List.reverseRecOn with
  | nil => rfl
  | append_singleton ts t ih =>
    have whole := fit _ (List.prefix_refl _)
    rw [List.map_append] at fit
    have before := ih (Amount.prefixesFitLeft fit)
    have step : Outcome.totalOf (ts ++ [t]) = Amount.clamp (Outcome.totalOf ts + t.signedSum) := by
      simp [Outcome.totalOf]
    have sum : ((ts ++ [t]).map Term.signedSum).sum =
        (ts.map Term.signedSum).sum + t.signedSum := by
      simp
    rw [sum] at whole
    rw [step, before, sum, Amount.clampOfFits whole]

theorem totalExact {o : Outcome} (fit : Amount.PrefixesFit o.signedSums) :
    o.total = o.signedSums.sum :=
  totalOfExact fit

end Tabletop
