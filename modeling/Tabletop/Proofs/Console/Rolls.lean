import Tabletop.Proofs.Console.Turns

/-! The expression lines of a session are rolled one after the other as if nothing stood between
them. A blank line and a command leave the roller where it is and the history is never asked, so
two sessions with the same expression lines show the same results and the same errors. -/
namespace Tabletop.Console
variable {σ : Type}

def isExpression (line : Text) : Bool :=
  decide (Text.trim line ∉ [[], ":history".toList, ":clear".toList])

def Turn.isRoll (t : Turn) : Bool := isExpression t.line

def expressions (lines : List Text) : List Text := (lines.filter isExpression).map Text.trim

theorem expressionsAppend (xs ys : List Text) :
    expressions (xs ++ ys) = expressions xs ++ expressions ys := by
  rw [expressions, List.filter_append, List.map_append]
  rfl

def Emission.isDiagnostic : Emission → Bool
  | diagnostic _ _ => true
  | _ => false

def diagnostics (o : Outcome) : List Emission :=
  o.invalidTerms.map fun term => .diagnostic term.raw term.reason

def rolls (o : Options) (r : Roller σ) : List Text → σ → List Outcome × σ
  | [], s => ([], s)
  | input :: rest, s =>
    ((evaluate o r input s).outcome :: (rolls o r rest (evaluate o r input s).after).1,
      (rolls o r rest (evaluate o r input s).after).2)

theorem rollsAppend (o : Options) (r : Roller σ) (xs ys : List Text) (s : σ) :
    rolls o r (xs ++ ys) s =
      ((rolls o r xs s).1 ++ (rolls o r ys (rolls o r xs s).2).1,
        (rolls o r ys (rolls o r xs s).2).2) := by
  induction xs generalizing s with
  | nil => rfl
  | cons input rest ih => rw [List.cons_append, rolls, ih, rolls, List.cons_append]

theorem lineCases (line : Text) :
    Text.trim line = [] ∨ Text.trim line = ":history".toList ∨ Text.trim line = ":clear".toList ∨
      isExpression line = true := by
  by_cases special : Text.trim line ∈ [[], ":history".toList, ":clear".toList]
  · simp only [List.mem_cons, List.not_mem_nil, or_false] at special
    rcases special with blank | history | clear
    · exact .inl blank
    · exact .inr (.inl history)
    · exact .inr (.inr (.inl clear))
  · exact .inr (.inr (.inr (decide_eq_true special)))

namespace Session
variable (settings : Settings) (r : Roller σ) (now : Time) (session : Session σ) {line : Text}

theorem answerBlank (blank : Text.trim line = []) :
    session.answer settings r now line = ([], session) := by
  simp [answer, Command.ofLine, blank]

theorem answerHistory (history : Text.trim line = ":history".toList) :
    session.answer settings r now line =
      (session.history.entries.flatMap (recalled settings.format), session) := by
  simp [answer, Command.ofLine, history]

theorem answerClear (clear : Text.trim line = ":clear".toList) :
    session.answer settings r now line =
      ([], { session with history := session.history.clear }) := by
  simp [answer, Command.ofLine, clear]

theorem answerExpression (expression : isExpression line = true) :
    session.answer settings r now line =
      (reported settings.format
          (evaluate settings.options r (Text.trim line) session.roller).outcome,
        ⟨(evaluate settings.options r (Text.trim line) session.roller).after,
          session.history.record
            ⟨now, (evaluate settings.options r (Text.trim line) session.roller).outcome⟩⟩) := by
  have outside : Text.trim line ∉ [[], ":history".toList, ":clear".toList] :=
    of_decide_eq_true expression
  simp only [List.mem_cons, List.not_mem_nil, or_false, not_or] at outside
  obtain ⟨blank, history, clear⟩ := outside
  have read : Command.ofLine line = .expression (Text.trim line) := by
    simp only [Command.ofLine, if_neg blank, if_neg history, if_neg clear]
  rw [answer, read]

theorem answerCommand (command : isExpression line = false) :
    (session.answer settings r now line).2.roller = session.roller ∧
    (session.answer settings r now line).1.filter Emission.isDiagnostic = [] := by
  rcases lineCases line with blank | history | clear | expression
  · rw [answerBlank settings r now session blank]
    exact ⟨rfl, rfl⟩
  · rw [answerHistory settings r now session history]
    simp [recalled, Emission.isDiagnostic, List.filter_flatMap]
  · rw [answerClear settings r now session clear]
    exact ⟨rfl, rfl⟩
  · rw [expression] at command
    contradiction

theorem reportedDiagnostics (format : Format) (o : Outcome) :
    (reported format o).filter Emission.isDiagnostic = diagnostics o := by
  have all : ∀ e ∈ diagnostics o, e.isDiagnostic = true := by
    intro e member
    obtain ⟨i, _, rfl⟩ := List.mem_map.mp member
    rfl
  have line : (reported format o).filter Emission.isDiagnostic =
      (diagnostics o).filter Emission.isDiagnostic := rfl
  rw [line, List.filter_eq_self.mpr all]

theorem turnRolls (line : Text) :
    let t : Turn := ⟨now, line, (session.answer settings r now line).1⟩
    let rolled := rolls settings.options r (expressions [line]) session.roller
    ([t].filter Turn.isRoll).map Turn.answer = rolled.1.map (reported settings.format) ∧
    t.answer.filter Emission.isDiagnostic = rolled.1.flatMap diagnostics ∧
    (session.answer settings r now line).2.roller = rolled.2 := by
  intro t rolled
  cases kind : isExpression line with
  | false =>
    have nothing : expressions [line] = [] := by simp [expressions, kind]
    have none : rolled = ([], session.roller) := by
      unfold rolled
      rw [nothing]
      rfl
    obtain ⟨still, quiet⟩ := answerCommand settings r now session kind
    rw [none]
    exact ⟨by simp [t, Turn.isRoll, kind], quiet, still⟩
  | true =>
    have one : expressions [line] = [Text.trim line] := by simp [expressions, kind]
    have some : rolled =
        ([(evaluate settings.options r (Text.trim line) session.roller).outcome],
          (evaluate settings.options r (Text.trim line) session.roller).after) := by
      unfold rolled
      rw [one]
      rfl
    have step := answerExpression settings r now session kind
    rw [some]
    refine ⟨?_, ?_, ?_⟩
    · simp [t, Turn.isRoll, kind, step]
    · simp [t, step, reportedDiagnostics]
    · rw [step]

theorem turnsRoll (lines : List (Time × Text)) :
    let ts := session.turns settings r lines
    let rolled := (rolls settings.options r (expressions (lines.map Prod.snd)) session.roller).1
    (ts.filter Turn.isRoll).map Turn.answer = rolled.map (reported settings.format) ∧
    (ts.flatMap Turn.emissions).filter Emission.isDiagnostic = rolled.flatMap diagnostics := by
  -- Each line is rolled from where those before it left the roller.
  induction lines generalizing session with
  | nil => exact ⟨rfl, rfl⟩
  | cons head rest ih =>
    obtain ⟨now, line⟩ := head
    obtain ⟨first, quiet, after⟩ := turnRolls settings r now session line
    obtain ⟨results, errors⟩ := ih (session.answer settings r now line).2
    have parts : expressions (((now, line) :: rest).map Prod.snd) =
        expressions [line] ++ expressions (rest.map Prod.snd) := by
      rw [← expressionsAppend]
      rfl
    have ahead : session.turns settings r ((now, line) :: rest) =
        [⟨now, line, (session.answer settings r now line).1⟩] ++
          (session.answer settings r now line).2.turns settings r rest := rfl
    rw [after] at results errors
    have one : ([⟨now, line, (session.answer settings r now line).1⟩].flatMap
        Turn.emissions).filter Emission.isDiagnostic =
        (rolls settings.options r (expressions [line]) session.roller).1.flatMap diagnostics := by
      rw [List.flatMap_singleton, Turn.emissions, List.filter_append, quiet]
      exact List.append_nil _
    rw [ahead, parts, rollsAppend]
    constructor
    · rw [List.filter_append, List.map_append, List.map_append, first, results]
    · rw [List.flatMap_append, List.filter_append, List.flatMap_append, one, errors]

end Session

def Transcript.results (t : Transcript) (lines : List (Time × Text)) : List (List Emission) :=
  ((t.turns lines).filter Turn.isRoll).map Turn.answer

def Transcript.diagnostics (t : Transcript) : List Emission :=
  t.emissions.filter Emission.isDiagnostic

theorem errorsDiagnostics (t : Transcript) : t.errors = t.diagnostics.flatMap Emission.errors := by
  unfold Transcript.errors Transcript.diagnostics
  induction t.emissions with
  | nil => rfl
  | cons e rest ih =>
    cases e with
    | prompt => exact ih
    | line text => exact ih
    | diagnostic raw reason => exact congrArg (Emission.errors (.diagnostic raw reason) ++ ·) ih

theorem runRolls (settings : Settings) (r : Roller σ) (s : σ) (arrivals : List Arrival) :
    let t := run settings r s arrivals
    let rolled := (rolls settings.options r (expressions ((heard arrivals).map Prod.snd)) s).1
    t.results (heard arrivals) = rolled.map (Session.reported settings.format) ∧
    t.diagnostics = rolled.flatMap diagnostics := by
  obtain ⟨results, errors⟩ :=
    Session.turnsRoll settings r (Session.start settings s) (heard arrivals)
  intro t rolled
  constructor
  · rw [Transcript.results, runTurns]
    exact results
  · exact (congrArg Transcript.diagnostics (runSession settings r s arrivals)).trans errors

theorem commandsLeaveDiceAlone (settings : Settings) (on : Bool) (r : Roller σ) (s : σ)
    {first second : List Arrival}
    (same : expressions ((heard first).map Prod.snd) = expressions ((heard second).map Prod.snd)) :
    let one := run settings r s first
    let two := run { settings with historyEnabled := on } r s second
    one.results (heard first) =
      (rolls settings.options r (expressions ((heard first).map Prod.snd)) s).1.map
        (Session.reported settings.format) ∧
    two.results (heard second) = one.results (heard first) ∧
    two.diagnostics = one.diagnostics ∧ two.errors = one.errors := by
  intro one two
  obtain ⟨results, errors⟩ := runRolls settings r s first
  obtain ⟨others, otherErrors⟩ := runRolls { settings with historyEnabled := on } r s second
  rw [← same] at others otherErrors
  have diagnostics : two.diagnostics = one.diagnostics := otherErrors.trans errors.symm
  refine ⟨results, others.trans results.symm, diagnostics, ?_⟩
  rw [errorsDiagnostics, errorsDiagnostics, diagnostics]

theorem commandsLeaveDiceAloneCleared :
    let settings : Settings := { historyEnabled := false }
    let r := Roller.stepping 1
    let first : List Arrival := ["2d6 + x", "", ":history", "d20"].map (⟨⟨0⟩, ·.toUTF8.data.toList⟩)
    let second : List Arrival :=
      [":clear", " 2d6 + x\t", ":history", " ", "d20", ":history "].map
        (⟨⟨7⟩, ·.toUTF8.data.toList⟩)
    let one := run settings r 10 first
    let two := run { settings with historyEnabled := true } r 10 second
    expressions ((heard first).map Prod.snd) = ["2d6 + x".toList, "d20".toList] ∧
    expressions ((heard first).map Prod.snd) = expressions ((heard second).map Prod.snd) ∧
    one.results (heard first) =
      [[.line "2d6 (4, 5) + x = 9".toList, .diagnostic ['x'] .unrecognized],
        [.line "1d20 (12) = 12".toList]] ∧
    two.results (heard second) = one.results (heard first) ∧
    two.diagnostics = [.diagnostic ['x'] .unrecognized] := by
  intro settings r first second one two
  have lines : expressions ((heard first).map Prod.snd) = ["2d6 + x".toList, "d20".toList] := by
    decide
  have same : expressions ((heard first).map Prod.snd) =
      expressions ((heard second).map Prod.snd) := by
    decide
  obtain ⟨results, others, errors, _⟩ := commandsLeaveDiceAlone settings true r 10 same
  refine ⟨lines, same, results.trans ?_, others, errors.trans ?_⟩
  · decide
  · decide

end Tabletop.Console
