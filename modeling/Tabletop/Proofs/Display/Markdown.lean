import Tabletop.Proofs.Display.Layout

/-! A roll can be told from its markdown text. The last equals sign stands before the total, the
operators stand between the terms, and the text of one term shows of which kind it is and what it
holds, whatever characters a rejected text has. -/
namespace Tabletop
open Segment (Whole)
open Text (ofNat)

/- What is settled before any die falls, besides the numbers and the sign: how dice are numbered and
why a text is rejected. -/
def Term.Settled (o : Options) : Term → Prop
  | .dice d => d.zeroBased = o.numbering.isZeroBased d.faces
  | .modifier _ => True
  | .invalid i => Whole i.raw ∧ Reading.ofText o.maxDice i.raw = .rejected i.reason

theorem Evaluation.termSettled {σ : Type} (o : Options) (r : Roller σ) {segment : Segment}
    (whole : Whole segment.text) (s : σ) : (term o r segment s).1.Settled o := by
  cases read : Reading.ofText o.maxDice segment.text with
  | dice count faces =>
    rw [termDice s read]
    exact rfl
  | modifier value =>
    rw [termModifier s read]
    exact trivial
  | rejected reason =>
    rw [termRejected s read]
    exact ⟨whole, read⟩

theorem evaluateSettled {σ : Type} (o : Options) (r : Roller σ) (input : Text) (s : σ) :
    ∀ t ∈ (evaluate o r input s).outcome.terms, t.Settled o :=
  Evaluation.termsAll o r
    (fun segment member s =>
      Evaluation.termSettled o r (Segment.segmentTextsWhole input segment member) s) s

namespace Markdown

def die (d : DiceTerm) (value : Nat) : Text :=
  if isExtreme d value then bold (ofNat value) else ofNat value

def term : Term → Text
  | .dice d => Layout.dice d (d.outcomes.map (die d))
  | .modifier m => ofNat m.value
  | .invalid i => struck i.raw

theorem termWritten (t : Term) : Id.run ((Renderer.markdown (m := Id)).term t) = term t := by
  cases t with
  | dice d => exact congrArg (Layout.dice d) List.idRun_mapM
  | modifier m => rfl
  | invalid i => rfl

theorem termsShown (ts : List Term) :
    Id.run ((Renderer.markdown (m := Id)).terms ts) = Layout.shown term ts :=
  (Layout.mapMTexts _ ts).trans (congrArg (Layout.shown · ts) (funext termWritten))

theorem renderOutcome (o : Outcome) :
    Format.markdown.render o =
      if o.terms = [] then code (Text.ofInt o.total)
      else Layout.outcome (Layout.shown term o.terms) (code (Text.ofInt o.total)) := by
  have parts := Layout.renderParts Renderer.markdown o
  rw [termsShown] at parts
  exact parts

theorem outcomeEquals (terms total : Text) :
    Layout.outcome terms total = terms ++ [' '] ++ '=' :: ' ' :: total := by
  simp [Layout.outcome]

theorem dieCharacters (d : DiceTerm) (value : Nat) :
    ∀ c ∈ die d value, c = '*' ∨ c.isDigit = true := by
  intro c member
  unfold die at member
  split at member
  · simp only [bold, List.mem_append] at member
    rcases member with (stars | digit) | stars
    · exact .inl (by simpa using stars)
    · exact .inr (Text.digitsOfNat value c digit)
    · exact .inl (by simpa using stars)
  · exact .inr (Text.digitsOfNat value c member)

theorem dieDigits (d : DiceTerm) (value : Nat) : (die d value).filter Char.isDigit = ofNat value := by
  have digits : (ofNat value).filter Char.isDigit = ofNat value :=
    List.filter_eq_self.mpr (Text.digitsOfNat value)
  have stars : "**".toList.filter Char.isDigit = [] := by decide
  unfold die
  split
  · rw [bold, List.filter_append, List.filter_append, digits, stars, List.nil_append, List.append_nil]
  · exact digits

theorem diePart (d : DiceTerm) (value : Nat) : Text.Part ',' (die d value) := by
  constructor
  · intro nothing
    have digits := dieDigits d value
    rw [nothing] at digits
    exact Text.ofNatNonempty value digits.symm
  · intro comma
    rcases dieCharacters d value _ comma with star | digit
    · contradiction
    · contradiction

theorem diesInjective {d e : DiceTerm}
    (same : d.outcomes.map (die d) = e.outcomes.map (die e)) : d.outcomes = e.outcomes := by
  have numerals : ∀ f : DiceTerm,
      (f.outcomes.map (die f)).map (List.filter Char.isDigit) = f.outcomes.map ofNat := by
    intro f
    rw [List.map_map]
    exact List.map_congr_left fun value _ => dieDigits f value
  have written : d.outcomes.map ofNat = e.outcomes.map ofNat := by
    rw [← numerals d, same, numerals e]
  exact List.map_injective_iff.mpr (fun _ _ => Text.ofNatInjective) written

theorem diceApart (d : DiceTerm) :
    term (.dice d) = ofNat d.count ++ 'd' :: (ofNat d.faces ++
      ' ' :: ('(' :: (Text.join ", ".toList (d.outcomes.map (die d)) ++ [')']))) := by
  simp [term, Layout.dice]

theorem diceInjective {d e : DiceTerm} (same : term (.dice d) = term (.dice e)) :
    d.count = e.count ∧ d.faces = e.faces ∧ d.outcomes = e.outcomes := by
  have noMarker := Text.ofNatNotMember (c := 'd') rfl
  have noBlank := Text.ofNatNotMember (c := ' ') rfl
  rw [diceApart, diceApart] at same
  obtain ⟨count, rest⟩ := Text.firstSeparator (noMarker _) (noMarker _) same
  obtain ⟨faces, dies⟩ := Text.firstSeparator (noBlank _) (noBlank _) rest
  have joined := List.append_cancel_right (List.cons.inj dies).2
  have each : ∀ f : DiceTerm, ∀ text ∈ f.outcomes.map (die f), Text.Part ',' text := by
    intro f text member
    obtain ⟨value, _, rfl⟩ := List.mem_map.mp member
    exact diePart f value
  have texts := Text.joinInjective (each d) (each e) joined
  exact ⟨Text.ofNatInjective count, Text.ofNatInjective faces, diesInjective texts⟩

/- The first character tells the struck terms from the others. -/
theorem numeralHead (n : Nat) (rest : Text) : (ofNat n ++ rest).head? ≠ some '~' := by
  rw [List.head?_append_of_ne_nil _ (Text.ofNatNonempty n)]
  intro tilde
  exact Text.ofNatNotMember rfl n (List.mem_of_mem_head? tilde)

theorem diceNotInvalid (d : DiceTerm) (i : InvalidTerm) : term (.dice d) ≠ term (.invalid i) := by
  intro same
  rw [diceApart] at same
  exact numeralHead _ _ (congrArg List.head? same)

theorem modifierNotInvalid (m : ModifierTerm) (i : InvalidTerm) :
    term (.modifier m) ≠ term (.invalid i) := by
  intro same
  have plain := numeralHead m.value []
  rw [List.append_nil] at plain
  exact plain (congrArg List.head? same)

theorem diceNotModifier (d : DiceTerm) (m : ModifierTerm) :
    term (.dice d) ≠ term (.modifier m) := by
  intro same
  have marker : 'd' ∈ term (.modifier m) := by
    rw [← same, diceApart]
    exact List.mem_append_right _ List.mem_cons_self
  exact Text.ofNatNotMember rfl m.value marker

theorem diePlain (d : DiceTerm) (value : Nat) : Token.Plain (die d value) := by
  intro c member
  rcases dieCharacters d value c member with rfl | digit
  · rfl
  · exact Segment.digitPlain digit

theorem termWhole {o : Options} {t : Term} (settled : t.Settled o) : Whole (term t) := by
  cases t with
  | dice d =>
    apply Layout.diceWhole
    intro text member
    obtain ⟨value, _, rfl⟩ := List.mem_map.mp member
    exact diePlain d value
  | modifier m => exact Segment.wholeNumeral m.value
  | invalid i =>
    have tildes : Whole "~~".toList := ⟨by decide, by decide, by decide⟩
    exact Segment.wholeBetween tildes tildes settled.1.plain

theorem termInjective {o : Options} {t u : Term} (first : t.Settled o) (second : u.Settled o)
    (sign : t.sign = u.sign) (same : term t = term u) : t = u := by
  cases t with
  | dice d =>
    cases u with
    | dice e =>
      obtain ⟨count, faces, outcomes⟩ := diceInjective same
      have zeroBased : d.zeroBased = e.zeroBased := by rw [first, second, faces]
      obtain ⟨_, _, _, _, _⟩ := d
      obtain ⟨_, _, _, _, _⟩ := e
      cases count
      cases faces
      cases zeroBased
      cases outcomes
      cases sign
      rfl
    | modifier m => exact absurd same (diceNotModifier d m)
    | invalid i => exact absurd same (diceNotInvalid d i)
  | modifier m =>
    cases u with
    | dice e => exact absurd same.symm (diceNotModifier e m)
    | modifier n =>
      have value : m.value = n.value := Text.ofNatInjective same
      obtain ⟨_, _⟩ := m
      obtain ⟨_, _⟩ := n
      cases value
      cases sign
      rfl
    | invalid i => exact absurd same (modifierNotInvalid m i)
  | invalid i =>
    cases u with
    | dice e => exact absurd same.symm (diceNotInvalid e i)
    | modifier n => exact absurd same.symm (modifierNotInvalid n i)
    | invalid j =>
      have raw : i.raw = j.raw := List.append_cancel_left (List.append_cancel_right same)
      have reason : i.reason = j.reason := by
        have read := first.2
        rw [raw, second.2] at read
        exact (Reading.rejected.inj read).symm
      obtain ⟨_, _, _⟩ := i
      obtain ⟨_, _, _⟩ := j
      cases raw
      cases reason
      cases sign
      rfl

theorem termsInjective {o : Options} {ts us : List Term} (first : ∀ t ∈ ts, t.Settled o)
    (second : ∀ u ∈ us, u.Settled o)
    (same : (ts.map fun t => (⟨t.sign, term t⟩ : Segment)) = us.map fun u => ⟨u.sign, term u⟩) :
    ts = us := by
  induction ts generalizing us with
  | nil => exact (List.map_eq_nil_iff.mp same.symm).symm
  | cons t rest ih =>
    cases us with
    | nil => contradiction
    | cons u others =>
      obtain ⟨head, tail⟩ := List.cons.inj same
      obtain ⟨sign, text⟩ := Segment.mk.inj head
      obtain ⟨settled, restSettled⟩ := List.forall_mem_cons.mp first
      obtain ⟨settled', othersSettled⟩ := List.forall_mem_cons.mp second
      rw [termInjective settled settled' sign text, ih restSettled othersSettled tail]

theorem codeNoEquals (x : Int) : '=' ∉ code (Text.ofInt x) := by
  intro member
  rcases List.mem_append.mp member with early | late
  · rcases List.mem_cons.mp early with tick | inside
    · contradiction
    · rcases Text.ofIntCharacters x _ inside with minus | digit
      · contradiction
      · contradiction
  · exact absurd late (by decide)

theorem renderInjective {o : Options} {first second : Outcome}
    (settled : ∀ t ∈ first.terms, t.Settled o) (settled' : ∀ t ∈ second.terms, t.Settled o)
    (same : Format.markdown.render first = Format.markdown.render second) :
    first.terms = second.terms := by
  have noEquals : ∀ x, '=' ∉ ' ' :: code (Text.ofInt x) := by
    intro x member
    rcases List.mem_cons.mp member with blank | inside
    · contradiction
    · exact codeNoEquals x inside
  rw [renderOutcome, renderOutcome] at same
  -- Only the text of a roll without terms has no equals sign.
  split at same
  · rename_i none
    split at same
    · rename_i none'
      rw [none, none']
    · exact absurd (by rw [same, outcomeEquals]; simp) (codeNoEquals first.total)
  · split at same
    · exact absurd (by rw [← same, outcomeEquals]; simp) (codeNoEquals second.total)
    · rw [outcomeEquals, outcomeEquals] at same
      obtain ⟨terms, _⟩ := Text.lastSeparator (noEquals _) (noEquals _) same
      have shown := List.append_cancel_right terms
      have cut := congrArg segments shown
      rw [Layout.segmentsShown fun t member => termWhole (settled t member),
        Layout.segmentsShown fun t member => termWhole (settled' t member)] at cut
      exact termsInjective settled settled' cut

end Markdown

theorem markdownUnambiguous {σ τ : Type} (o : Options) (r : Roller σ) (other : Roller τ)
    (input again : Text) (s : σ) (start : τ)
    (same : Format.markdown.render (evaluate o r input s).outcome =
      Format.markdown.render (evaluate o other again start).outcome) :
    (evaluate o r input s).outcome.terms = (evaluate o other again start).outcome.terms ∧
    (evaluate o r input s).outcome.total = (evaluate o other again start).outcome.total := by
  have terms := Markdown.renderInjective (evaluateSettled o r input s)
    (evaluateSettled o other again start) same
  exact ⟨terms, congrArg Outcome.totalOf terms⟩

theorem markdownUnambiguousStruck :
    let o : Options := ⟨⟨true, false⟩, 1000⟩
    let input := "D10 - 1 = `2` + 2d6".toList
    let again := "+1d010-1 = `2`+ 2 d 6 -".toList
    let first := (evaluate o (Roller.stepping 1) input 10).outcome
    let second := (evaluate o (Roller.cycling [9, 10, 11]) again []).outcome
    Format.markdown.render first = Format.markdown.render second ∧ first.input ≠ second.input ∧
    first.terms = second.terms ∧ first.total = second.total := by
  intro o input again first second
  have same : Format.markdown.render first = Format.markdown.render second := by decide
  exact ⟨same, by decide, markdownUnambiguous o _ _ input again 10 [] same⟩

end Tabletop
