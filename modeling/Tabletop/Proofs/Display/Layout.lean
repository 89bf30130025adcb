import Tabletop.Display
import Tabletop.Proofs.Expression.Whole
import Tabletop.Proofs.Roll.Terms
import Tabletop.Proofs.Term.Reading
import Tabletop.Proofs.Text.Separator

/-! Terms that are laid out are cut again at their operators. The first sign is written only when
it is negative and the others between blanks, but a reader of the text sees every sign and every
text as they were. -/
namespace Tabletop.Layout
open Segment (Whole split)
open Token (Plain)

def shown (text : Term → Text) (ts : List Term) : Text := terms (ts.map fun t => (t.sign, text t))

theorem mapMTexts (text : Term → Id Text) (ts : List Term) :
    Id.run (do
      let texts ← ts.mapM text
      pure (terms ((ts.map Term.sign).zip texts))) = shown (fun t => Id.run (text t)) ts := by
  simp [shown, List.zip_map']

theorem renderParts (r : Renderer Id) (o : Outcome) :
    Id.run (r.render o) =
      if o.terms = [] then Id.run (r.total o.total)
      else outcome (Id.run (r.terms o.terms)) (Id.run (r.total o.total)) := by
  unfold Renderer.render Outcome.isEmpty
  cases o.terms <;> rfl

theorem blanksOne : Text.Blanks [' '] := by decide

theorem splitRest (first : Sign) (text : Text) {rest : List (Sign × Text)}
    (whole : ∀ part ∈ rest, Whole part.2) :
    split first (text ++ rest.flatMap fun (sign, text) => operator sign ++ text) =
      split first text ++ rest.map fun (sign, text) => ⟨sign, text⟩ := by
  induction rest generalizing first text with
  | nil => simp
  | cons part others ih =>
    obtain ⟨sign, next⟩ := part
    have later : ∀ part ∈ others, Whole part.2 := by
      intro part member
      exact whole part (List.mem_cons_of_mem _ member)
    have apart : text ++ ((sign, next) :: others).flatMap (fun (sign, text) => operator sign ++ text) =
        (text ++ [' ']) ++ sign.operator ::
          ([' '] ++ (next ++ others.flatMap fun (sign, text) => operator sign ++ text)) := by
      simp [operator]
    rw [apart, Segment.splitAppend, Segment.splitBlanksRight blanksOne,
      Segment.splitBlanksLeft blanksOne, ih sign next later,
      Segment.splitWhole sign (whole (sign, next) List.mem_cons_self)]
    rfl

theorem segmentsTerms {parts : List (Sign × Text)} (whole : ∀ part ∈ parts, Whole part.2) :
    segments (terms parts) = parts.map fun (sign, text) => ⟨sign, text⟩ := by
  cases parts with
  | nil => rfl
  | cons part rest =>
    obtain ⟨sign, text⟩ := part
    have later : ∀ part ∈ rest, Whole part.2 := by
      intro part member
      exact whole part (List.mem_cons_of_mem _ member)
    have lead : terms ((sign, text) :: rest) =
        sign.lead ++ (text ++ rest.flatMap fun (sign, text) => operator sign ++ text) := by
      cases sign <;> simp [terms, Sign.lead, Sign.isNegative]
    rw [lead, Segment.segmentsLead, splitRest sign text later,
      Segment.splitWhole sign (whole (sign, text) List.mem_cons_self)]
    rfl

theorem segmentsShown {text : Term → Text} {ts : List Term}
    (whole : ∀ t ∈ ts, Whole (text t)) :
    segments (shown text ts) = ts.map fun t => ⟨t.sign, text t⟩ := by
  have parts : ∀ part ∈ ts.map fun t => (t.sign, text t), Whole part.2 := by
    intro part member
    obtain ⟨t, inside, rfl⟩ := List.mem_map.mp member
    exact whole t inside
  rw [shown, segmentsTerms parts, List.map_map]
  rfl

/- A segment has no other texts, so that no condition could be left out. -/
theorem segmentsShownIff {text : Term → Text} {ts : List Term} :
    segments (shown text ts) = ts.map (fun t => ⟨t.sign, text t⟩) ↔ ∀ t ∈ ts, Whole (text t) := by
  constructor
  · intro cut t member
    have segment : (⟨t.sign, text t⟩ : Segment) ∈ segments (shown text ts) := by
      rw [cut]
      exact List.mem_map_of_mem member
    exact Segment.segmentTextsWhole _ _ segment
  · exact segmentsShown

theorem diesPlain {dies : List Text} (plain : ∀ die ∈ dies, Plain die) :
    Plain (Text.join ", ".toList dies) := by
  intro c member
  rcases Text.joinMember member with gap | ⟨die, inside, found⟩
  · have gaps : Plain ", ".toList := by decide
    exact gaps c gap
  · exact plain die inside c found

theorem diceWhole (d : DiceTerm) {dies : List Text} (plain : ∀ die ∈ dies, Plain die) :
    Whole (dice d dies) := by
  have closing : Whole [')'] := ⟨by decide, by decide, by decide⟩
  have opening : Plain " (".toList := by decide
  have between := Segment.plainAppend
    (Segment.plainAppend (Segment.wholeNumeral d.faces).plain opening) (diesPlain plain)
  have whole := Segment.wholeBetween (Segment.wholeNumeral d.count) closing
    (Token.plainCons (c := 'd') rfl between)
  simpa [dice] using whole

end Tabletop.Layout

/-! The canonical text of an expression: dice without their outcomes, numbers in their shortest
form, rejected texts as they are. Evaluating it gives the same terms again up to what falls, so
that writing those gives the same text. -/
namespace Tabletop
open Segment (Whole)

def Renderer.canonical {m : Type → Type} [Monad m] : Renderer m where
  dice d := pure (Text.ofNat d.count ++ 'd' :: Text.ofNat d.faces)

namespace Term

def canonical : Term → Text
  | dice d => Text.ofNat d.count ++ 'd' :: Text.ofNat d.faces
  | modifier m => Text.ofNat m.value
  | invalid i => i.raw

theorem canonicalUnrolled (t : Term) : t.unrolled.canonical = t.canonical := by
  cases t <;> rfl

theorem signUnrolled (t : Term) : t.unrolled.sign = t.sign := by
  cases t <;> rfl

end Term

theorem canonicalTerms (ts : List Term) :
    Id.run (Renderer.canonical.terms ts) = Layout.shown Term.canonical ts := by
  have texts : (fun t => Id.run ((Renderer.canonical (m := Id)).term t)) = Term.canonical := by
    funext t
    cases t <;> rfl
  exact (Layout.mapMTexts _ ts).trans (congrArg (Layout.shown · ts) texts)

theorem shownUnrolled {ts us : List Term} (same : ts.map Term.unrolled = us.map Term.unrolled) :
    Layout.shown Term.canonical ts = Layout.shown Term.canonical us := by
  have parts : ∀ vs : List Term, Layout.shown Term.canonical vs =
      Layout.shown Term.canonical (vs.map Term.unrolled) := by
    intro vs
    simp [Layout.shown, Term.canonicalUnrolled, Term.signUnrolled, Function.comp_def]
  rw [parts ts, same, ← parts us]

theorem Term.canonicalReads {limit : Nat} {segment : Segment} {t : Term}
    (whole : Whole segment.text) (reads : t.Reads limit segment) :
    Whole t.canonical ∧ t.Reads limit ⟨t.sign, t.canonical⟩ := by
  cases read : Reading.ofText limit segment.text with
  | dice count faces =>
    obtain ⟨d, rfl, rfl, rfl⟩ := (reads.dice count faces).mp read
    have again : Reading.ofText limit (Term.dice d).canonical = .dice d.count d.faces :=
      Reading.ofTextNumerals (Reading.ofTextBounds read) (Reading.ofTextWords read)
    exact ⟨Segment.wholeDice d.count d.faces, rfl, by simp [again], by simp [again], by simp [again]⟩
  | modifier value =>
    obtain ⟨m, rfl, rfl⟩ := (reads.modifier value).mp read
    have again : Reading.ofText limit (Term.modifier m).canonical = .modifier m.value :=
      Reading.ofTextOfNat limit (Reading.ofTextModifier read)
    exact ⟨Segment.wholeNumeral m.value, rfl, by simp [again], by simp [again], by simp [again]⟩
  | rejected reason =>
    obtain ⟨i, rfl, raw, rfl⟩ := (reads.invalid reason).mp read
    have again : Reading.ofText limit i.raw = .rejected i.reason := by rw [raw, read]
    have kept : Whole i.raw := raw ▸ whole
    exact ⟨kept, rfl, by simp [Term.canonical, again], by simp [Term.canonical, again],
      by simp [Term.canonical, again]⟩

theorem canonicalTermsRead {limit : Nat} {segments : List Segment} {ts : List Term}
    (whole : ∀ segment ∈ segments, Whole segment.text)
    (read : List.Forall₂ (Term.Reads limit) segments ts) :
    (∀ t ∈ ts, Whole t.canonical) ∧
    List.Forall₂ (Term.Reads limit) (ts.map fun t => ⟨t.sign, t.canonical⟩) ts := by
  induction read with
  | nil => exact ⟨by simp, .nil⟩
  | @cons segment t rest ts head _ ih =>
    obtain ⟨first, again⟩ := Term.canonicalReads (whole segment List.mem_cons_self) head
    obtain ⟨others, reads⟩ := ih fun other inside => whole other (List.mem_cons_of_mem segment inside)
    exact ⟨List.forall_mem_cons.mpr ⟨first, others⟩, .cons again reads⟩

theorem canonicalTextIsFixed {σ τ : Type} (o : Options) (numbering : Numbering) (r : Roller σ)
    (other : Roller τ) (input : Text) (s : σ) (start : τ) :
    let terms := (evaluate o r input s).outcome.terms
    let text := Id.run (Renderer.canonical.terms terms)
    let again := (evaluate { o with numbering } other text start).outcome.terms
    again.map Term.unrolled = terms.map Term.unrolled ∧
    Id.run (Renderer.canonical.terms again) = text := by
  intro terms text again
  have read : List.Forall₂ (Term.Reads o.maxDice) (segments input) terms :=
    evaluateRead o r input s
  obtain ⟨whole, reads⟩ := canonicalTermsRead (Segment.segmentTextsWhole input) read
  have written : text = Layout.shown Term.canonical terms := canonicalTerms terms
  have cut : segments text = terms.map fun t => ⟨t.sign, t.canonical⟩ := by
    rw [written, Layout.segmentsShown whole]
  have second : List.Forall₂ (Term.Reads o.maxDice) (segments text) again :=
    evaluateRead { o with numbering } other text start
  rw [cut] at second
  have same : again.map Term.unrolled = terms.map Term.unrolled := unrolledOfRead second reads
  refine ⟨same, ?_⟩
  rw [canonicalTerms, shownUnrolled same, written]

end Tabletop
