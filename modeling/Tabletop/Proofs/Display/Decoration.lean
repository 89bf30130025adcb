import Tabletop.Proofs.Display.Markdown
import Tabletop.Proofs.Roll.Draws

/-! Markdown as decoration. Without its marks the markdown text of a roll is the plain one, and the
marks on a die say that the roller gave an extreme answer, whatever the numbering made of it. -/
namespace Tabletop
open Text (ofNat ofInt)

namespace Markdown

def isDecoration (c : Char) : Bool := c == '*' || c == '\x60'

def bare (s : Text) : Text := s.filter (!isDecoration ·)

theorem bareAppend (s t : Text) : bare (s ++ t) = bare s ++ bare t :=
  List.filter_append s t

theorem digitNotDecoration {c : Char} (digit : c.isDigit = true) : isDecoration c = false := by
  have star := Text.digitNe digit (d := '*') rfl
  have tick := Text.digitNe digit (d := '\x60') rfl
  simp [isDecoration, star, tick]

theorem bareSelf {s : Text} (free : ∀ c ∈ s, isDecoration c = false) : bare s = s := by
  apply List.filter_eq_self.mpr
  intro c member
  rw [free c member]
  rfl

theorem bareNat (n : Nat) : bare (ofNat n) = ofNat n :=
  bareSelf fun c member => digitNotDecoration (Text.digitsOfNat n c member)

theorem bareInt (x : Int) : bare (ofInt x) = ofInt x := by
  apply bareSelf
  intro c member
  rcases Text.ofIntCharacters x c member with rfl | digit
  · rfl
  · exact digitNotDecoration digit

theorem bareBold (s : Text) : bare (bold s) = bare s := by
  have stars : bare "**".toList = [] := by decide
  rw [bold, bareAppend, bareAppend, stars, List.nil_append, List.append_nil]

theorem bareCode (s : Text) : bare (code s) = bare s := by
  have tick : bare ['\x60'] = [] := by decide
  rw [code, bareAppend, tick, List.append_nil]
  rfl

theorem bareDie (d : DiceTerm) (value : Nat) : bare (die d value) = ofNat value := by
  unfold die
  split
  · rw [bareBold, bareNat]
  · exact bareNat value

theorem bareFlatMap {α : Type} (text : α → Text) (parts : List α) :
    bare (parts.flatMap text) = parts.flatMap fun part => bare (text part) :=
  List.filter_flatMap

theorem bareJoin {separator : Text} (free : bare separator = separator)
    (parts : List Text) :
    bare (Text.join separator parts) = Text.join separator (parts.map bare) := by
  cases parts with
  | nil => rfl
  | cons part rest =>
    simp only [Text.join, List.map_cons, List.flatMap_map, bareAppend, bareFlatMap, free]

theorem bareDice (d : DiceTerm) (dies : List Text) :
    bare (Layout.dice d dies) = Layout.dice d (dies.map bare) := by
  have gap : bare ", ".toList = ", ".toList := by decide
  have opening : bare " (".toList = " (".toList := by decide
  have closing : bare ")".toList = ")".toList := by decide
  have marker : ∀ s, bare ('d' :: s) = 'd' :: bare s := fun _ => rfl
  simp only [Layout.dice, bareAppend, marker, bareNat, bareJoin gap, opening, closing]

theorem bareOperator (sign : Sign) : bare (Layout.operator sign) = Layout.operator sign := by
  cases sign <;> decide

theorem bareTerms (parts : List (Sign × Text)) :
    bare (Layout.terms parts) =
      Layout.terms (parts.map fun (sign, text) => (sign, bare text)) := by
  cases parts with
  | nil => rfl
  | cons part rest =>
    obtain ⟨sign, text⟩ := part
    have minus : ∀ negative : Bool,
        bare (if negative then ['-'] else []) = if negative then ['-'] else [] := by decide
    simp only [Layout.terms, List.map_cons, List.flatMap_map, bareAppend, bareFlatMap,
      bareOperator, minus]

end Markdown

def Term.plain : Term → Text
  | dice d => Layout.dice d (d.outcomes.map ofNat)
  | modifier m => ofNat m.value
  | invalid i => i.raw

theorem Term.plainWritten (t : Term) : Id.run ((Renderer.plain (m := Id)).term t) = t.plain := by
  cases t with
  | dice d => exact congrArg (Layout.dice d) List.idRun_mapM
  | modifier m => rfl
  | invalid i => rfl

theorem plainTerms (ts : List Term) :
    Id.run ((Renderer.plain (m := Id)).terms ts) = Layout.shown Term.plain ts :=
  (Layout.mapMTexts _ ts).trans (congrArg (Layout.shown · ts) (funext Term.plainWritten))

theorem renderPlain (o : Outcome) :
    Format.breakdown.render o =
      if o.terms = [] then ofInt o.total
      else Layout.outcome (Layout.shown Term.plain o.terms) (ofInt o.total) := by
  have parts := Layout.renderParts Renderer.plain o
  rw [plainTerms] at parts
  exact parts

namespace Markdown

theorem bareTerm {t : Term} (valid : t.isInvalid = false) : bare (term t) = t.plain := by
  cases t with
  | dice d =>
    have dies : (d.outcomes.map (die d)).map bare = d.outcomes.map ofNat := by
      rw [List.map_map]
      exact List.map_congr_left fun value _ => bareDie d value
    rw [term, bareDice, dies, Term.plain]
  | modifier m => exact bareNat m.value
  | invalid i => contradiction

theorem bareShown {ts : List Term} (valid : ∀ t ∈ ts, t.isInvalid = false) :
    bare (Layout.shown term ts) = Layout.shown Term.plain ts := by
  have texts : ts.map (fun t => (t.sign, bare (term t))) = ts.map fun t => (t.sign, t.plain) :=
    List.map_congr_left fun t member => congrArg (t.sign, ·) (bareTerm (valid t member))
  rw [Layout.shown, bareTerms, List.map_map, Layout.shown, ← texts]
  rfl

theorem bareRender {o : Outcome} (valid : o.hasErrors = false) :
    bare (Format.markdown.render o) = Format.breakdown.render o := by
  have each : ∀ t ∈ o.terms, t.isInvalid = false := by
    intro t member
    exact Bool.eq_false_iff.mpr (List.any_eq_false.mp valid t member)
  have total : bare (code (ofInt o.total)) = ofInt o.total := by
    rw [bareCode, bareInt]
  rw [renderOutcome, renderPlain]
  split
  · exact total
  · have equals : bare " = ".toList = " = ".toList := by decide
    simp only [Layout.outcome, bareAppend, bareShown each, total, equals]

/- Shifting the answer and the range by the same number keeps their ends together. -/
theorem extremeAnswer {n : Numbering} {d : DiceTerm} {answered : List Nat}
    (kept : d.Answered n answered) {face : Nat} (member : face ∈ answered) :
    isExtreme d (n.shown d.faces face) = true ↔ 2 ≤ d.faces ∧ (face = 1 ∨ face = d.faces) := by
  obtain ⟨low, high⟩ := kept.within face member
  have shift : n.offset d.faces ≤ 1 := n.offsetLe d.faces
  simp only [isExtreme, kept.range, Numbering.range, ← n.subOffset, Bool.and_eq_true,
    Bool.or_eq_true, decide_eq_true_eq, beq_iff_eq]
  omega

def dieOfAnswer (n : Numbering) (faces face : Nat) : Text :=
  if 2 ≤ faces ∧ (face = 1 ∨ face = faces) then bold (ofNat (n.shown faces face))
  else ofNat (n.shown faces face)

theorem diceAnswered {n : Numbering} {d : DiceTerm} {answered : List Nat}
    (kept : d.Answered n answered) :
    term (.dice d) = Layout.dice d (answered.map (dieOfAnswer n d.faces)) := by
  have dies : d.outcomes.map (die d) = answered.map (dieOfAnswer n d.faces) := by
    rw [kept.outcomes, List.map_map]
    apply List.map_congr_left
    intro face member
    simp only [Function.comp_apply, die, dieOfAnswer, extremeAnswer kept member]
  rw [term, dies]

end Markdown

theorem markdownDecoratesPlain {σ : Type} (o : Options) {r : Roller σ} (within : r.Within)
    (input : Text) (s : σ) :
    let run := evaluate o r input s
    let outcome := run.outcome
    let total := Markdown.code (ofInt outcome.total)
    let thrown := r.thrown outcome.diceTerms s
    (outcome.hasErrors = false →
      Markdown.bare (Format.markdown.render outcome) = Format.breakdown.render outcome) ∧
    Format.markdown.render outcome =
      (if outcome.terms = [] then total
        else Layout.outcome (Layout.shown Markdown.term outcome.terms) total) ∧
    List.Forall₂ (fun d answered =>
        d.outcomes = answered.map (o.numbering.shown d.faces) ∧
        Markdown.term (.dice d) =
          Layout.dice d (answered.map (Markdown.dieOfAnswer o.numbering d.faces)))
      outcome.diceTerms thrown.1 ∧
    run.after = thrown.2 := by
  intro run outcome total thrown
  obtain ⟨answered, after⟩ := evaluateAnswered o within input s
  exact ⟨Markdown.bareRender, Markdown.renderOutcome outcome,
    answered.imp fun _ _ kept => ⟨kept.outcomes, Markdown.diceAnswered kept⟩, after⟩

theorem markdownDecoratesPlainZeroBased :
    let o : Options := ⟨⟨true, false⟩, 1000⟩
    let r := Roller.stepping 1
    let input := "d100 + 2d10 - d1 + 2".toList
    let run := evaluate o r input 100
    let thrown := r.thrown run.outcome.diceTerms 100
    r.Within ∧ run.outcome.hasErrors = false ∧ thrown.1 = [[100], [1, 2], [1]] ∧
    Format.markdown.render run.outcome =
      "1d100 (**100**) + 2d10 (**0**, 1) - 1d1 (1) + 2 = \x60102\x60".toList ∧
    Markdown.bare (Format.markdown.render run.outcome) = Format.breakdown.render run.outcome ∧
    run.after = thrown.2 := by
  intro o r input run thrown
  have within : r.Within := Roller.steppingWithin 1
  have valid : run.outcome.hasErrors = false := by decide
  obtain ⟨plain, _, _, after⟩ := markdownDecoratesPlain o within input 100
  exact ⟨within, valid, by decide, by decide, plain valid, after⟩

end Tabletop

/-! Terms that are written can be cut again. Whatever a renderer writes for one term, the layout of
the terms can be undone by a reader of expressions exactly when each of its texts is one that a
segment can have. Both styles write such texts for whatever an evaluation gives. -/
namespace Tabletop
open Segment (Whole)

/- A renderer with all that it writes for the single pieces, and the layout of the terms that every
renderer has unless it replaces it. -/
def Renderer.sharedLayout (r : Renderer Id) : Renderer Id where
  die := r.die
  modifier := r.modifier
  invalid := r.invalid
  total := r.total
  dice := r.dice
  term := r.term

theorem sharedTerms (r : Renderer Id) (ts : List Term) :
    Id.run (r.sharedLayout.terms ts) = Layout.shown (fun t => Id.run (r.term t)) ts :=
  Layout.mapMTexts r.term ts

theorem Term.plainWhole {o : Options} {t : Term} (settled : t.Settled o) : Whole t.plain := by
  cases t with
  | dice d =>
    apply Layout.diceWhole
    intro text member
    obtain ⟨value, _, rfl⟩ := List.mem_map.mp member
    exact (Segment.wholeNumeral value).plain
  | modifier m => exact Segment.wholeNumeral m.value
  | invalid i => exact settled.1

theorem styleWhole {style : Renderer Id} (known : style ∈ [Renderer.plain, Renderer.markdown])
    {o : Options} {t : Term} (settled : t.Settled o) : Whole (Id.run (style.term t)) := by
  simp only [List.mem_cons, List.not_mem_nil, or_false] at known
  rcases known with rfl | rfl
  · rw [Term.plainWritten]
    exact Term.plainWhole settled
  · rw [Markdown.termWritten]
    exact Markdown.termWhole settled

theorem styleLayout {style : Renderer Id} (known : style ∈ [Renderer.plain, Renderer.markdown]) :
    style.sharedLayout = style := by
  simp only [List.mem_cons, List.not_mem_nil, or_false] at known
  rcases known with rfl | rfl <;> rfl

theorem writtenTermsCutAgain (r : Renderer Id) (ts : List Term) {σ : Type} (o : Options)
    (roller : Roller σ) (input : Text) (s : σ) :
    let rolled := (evaluate o roller input s).outcome.terms
    (segments (Id.run (r.sharedLayout.terms ts)) = ts.map (fun t => ⟨t.sign, Id.run (r.term t)⟩) ↔
      ∀ t ∈ ts, Whole (Id.run (r.term t))) ∧
    ∀ style ∈ [Renderer.plain, Renderer.markdown (m := Id)], style.sharedLayout = style ∧
      (∀ t ∈ rolled, Whole (Id.run (style.term t))) ∧
      segments (Id.run (style.terms rolled)) =
        rolled.map fun t => ⟨t.sign, Id.run (style.term t)⟩ := by
  intro rolled
  constructor
  · rw [sharedTerms]
    exact Layout.segmentsShownIff
  · intro style known
    have whole : ∀ t ∈ rolled, Whole (Id.run (style.term t)) := by
      intro t member
      exact styleWhole known (evaluateSettled o roller input s t member)
    refine ⟨styleLayout known, whole, ?_⟩
    rw [← styleLayout known, sharedTerms]
    exact Layout.segmentsShown whole

end Tabletop
