import Tabletop.Proofs.Console.Rolls
import Tabletop.Proofs.History

/-! The history command shows again what the session has shown before. Every answer is described by
the turns before it alone: an expression is rolled from where the earlier ones left the roller, and
the history is the last fifty rolls since the last clearing, each as it was shown at its turn. -/
namespace Tabletop.Console
variable {σ : Type}

namespace Turn

def shown (t : Turn) : Text :=
  match t.answer with
  | .line text :: _ => text
  | _ => []

def replayed (t : Turn) : List Emission :=
  [.line (t.time.text ++ "  ".toList ++ Text.trim t.line), .line ("    ".toList ++ t.shown)]

def isClear (t : Turn) : Bool := Text.trim t.line == ":clear".toList

theorem rollNotClear {t : Turn} (roll : t.isRoll = true) : t.isClear = false := by
  have outside : Text.trim t.line ∉ [[], ":history".toList, ":clear".toList] :=
    of_decide_eq_true roll
  simp only [List.mem_cons, List.not_mem_nil, or_false, not_or] at outside
  exact beq_eq_false_iff_ne.mpr outside.2.2

end Turn

def sinceClear (before : List Turn) : List Turn :=
  (before.reverse.takeWhile (!·.isClear)).filter Turn.isRoll

structure Turn.Answered (settings : Settings) (r : Roller σ) (s : σ) (before : List Turn)
    (t : Turn) : Prop where
  blank : Text.trim t.line = [] → t.answer = []
  clear : Text.trim t.line = ":clear".toList → t.answer = []
  history : Text.trim t.line = ":history".toList → t.answer =
    if settings.historyEnabled then ((sinceClear before).take 50).flatMap Turn.replayed else []
  expression : isExpression t.line = true →
    let state := (rolls settings.options r (expressions (before.map Turn.line)) s).2
    let o := (evaluate settings.options r (Text.trim t.line) state).outcome
    t.answer = .line (settings.format.render o) ::
      o.invalidTerms.map fun term => .diagnostic term.raw term.reason

/- The log with the rolls that it would hold without a bound, each as it was shown. -/
def Kept (settings : Settings) (before : List Turn) (log : History Entry) : Prop :=
  ∃ kept : List Entry, log = ⟨kept.take 50, 50, settings.historyEnabled⟩ ∧
    kept.map (Session.recalled settings.format) =
      if settings.historyEnabled then (sinceClear before).map Turn.replayed else []

structure Session.Follows (settings : Settings) (r : Roller σ) (s : σ) (before : List Turn)
    (session : Session σ) : Prop where
  roller : session.roller = (rolls settings.options r (expressions (before.map Turn.line)) s).2
  history : Kept settings before session.history

section
variable {before : List Turn} {t : Turn}

theorem sinceClearClear (clear : t.isClear = true) : sinceClear (before ++ [t]) = [] := by
  simp [sinceClear, clear]

theorem sinceClearRoll (clear : t.isClear = false) (roll : t.isRoll = true) :
    sinceClear (before ++ [t]) = t :: sinceClear before := by
  simp [sinceClear, clear, roll]

theorem sinceClearOther (clear : t.isClear = false) (roll : t.isRoll = false) :
    sinceClear (before ++ [t]) = sinceClear before := by
  simp [sinceClear, clear, roll]

end

namespace Session
variable {settings : Settings} {r : Roller σ} {s : σ} {before : List Turn} {session : Session σ}

theorem startFollows (settings : Settings) (r : Roller σ) (s : σ) :
    (Session.start settings s).Follows settings r s [] where
  roller := rfl
  history := ⟨[], rfl, by cases settings.historyEnabled <;> rfl⟩

theorem keptListing {log : History Entry} (kept : Kept settings before log) :
    log.entries.flatMap (recalled settings.format) =
      if settings.historyEnabled then ((sinceClear before).take 50).flatMap Turn.replayed
      else [] := by
  obtain ⟨entries, rfl, shown⟩ := kept
  rw [List.flatMap_def, List.map_take, shown]
  cases settings.historyEnabled with
  | false => rfl
  | true => rw [if_pos rfl, if_pos rfl, ← List.map_take, List.flatMap_def]

theorem keptClear {log : History Entry} {t : Turn} (kept : Kept settings before log)
    (clear : t.isClear = true) : Kept settings (before ++ [t]) log.clear := by
  obtain ⟨entries, rfl, _⟩ := kept
  refine ⟨[], History.stepKept entries 50 settings.historyEnabled .clear, ?_⟩
  rw [sinceClearClear clear]
  cases settings.historyEnabled <;> rfl

theorem keptOther {log : History Entry} {t : Turn} (kept : Kept settings before log)
    (clear : t.isClear = false) (roll : t.isRoll = false) :
    Kept settings (before ++ [t]) log := by
  unfold Kept
  rw [sinceClearOther clear roll]
  exact kept

theorem keptRecord {log : History Entry} {t : Turn} {entry : Entry}
    (kept : Kept settings before log) (roll : t.isRoll = true)
    (shown : recalled settings.format entry = t.replayed) :
    Kept settings (before ++ [t]) (log.record entry) := by
  obtain ⟨entries, rfl, earlier⟩ := kept
  refine ⟨_, History.stepKept entries 50 settings.historyEnabled (.record entry), ?_⟩
  rw [sinceClearRoll (Turn.rollNotClear roll) roll]
  cases on : settings.historyEnabled with
  | false =>
    rw [on] at earlier
    exact earlier
  | true =>
    rw [on] at earlier
    have both : recalled settings.format entry :: entries.map (recalled settings.format) =
        t.replayed :: (sinceClear before).map Turn.replayed := by
      rw [shown, earlier, if_pos rfl]
    exact both

theorem followsAnswered (follows : session.Follows settings r s before) (now : Time)
    (line : Text) :
    Turn.Answered settings r s before ⟨now, line, (session.answer settings r now line).1⟩ where
  blank := fun blank => congrArg Prod.fst (answerBlank settings r now session blank)
  clear := fun clear => congrArg Prod.fst (answerClear settings r now session clear)
  history := by
    intro history
    have listing := congrArg Prod.fst (answerHistory settings r now session history)
    exact listing.trans (keptListing follows.history)
  expression := by
    intro expression state o
    have rolled := congrArg Prod.fst (answerExpression settings r now session expression)
    rw [follows.roller] at rolled
    exact rolled

theorem followsKept (follows : session.Follows settings r s before) (now : Time) (line : Text) :
    Kept settings (before ++ [⟨now, line, (session.answer settings r now line).1⟩])
      (session.answer settings r now line).2.history := by
  rcases lineCases line with blank | history | clear | expression
  · rw [answerBlank settings r now session blank]
    exact keptOther follows.history (by simp [Turn.isClear, blank])
      (by simp [Turn.isRoll, isExpression, blank])
  · rw [answerHistory settings r now session history]
    exact keptOther follows.history (by simp [Turn.isClear, history])
      (by simp [Turn.isRoll, isExpression, history])
  · rw [answerClear settings r now session clear]
    exact keptClear follows.history (beq_iff_eq.mpr clear)
  · rw [answerExpression settings r now session expression]
    exact keptRecord follows.history expression rfl

theorem followsAnswer (follows : session.Follows settings r s before) (now : Time) (line : Text) :
    (session.answer settings r now line).2.Follows settings r s
      (before ++ [⟨now, line, (session.answer settings r now line).1⟩]) where
  roller := by
    obtain ⟨_, _, after⟩ := turnRolls settings r now session line
    rw [after, follows.roller, List.map_append, expressionsAppend, rollsAppend]
    rfl
  history := followsKept follows now line

theorem turnsAnswered (follows : session.Follows settings r s before)
    (lines : List (Time × Text)) :
    ∀ early t late, session.turns settings r lines = early ++ t :: late →
      t.Answered settings r s (before ++ early) := by
  induction lines generalizing session before with
  | nil =>
    intro early t late none
    exact absurd none.symm (by simp [turns])
  | cons head rest ih =>
    intro early t late taken
    cases early with
    | nil =>
      obtain ⟨rfl, _⟩ := List.cons.inj taken
      rw [List.append_nil]
      exact followsAnswered follows head.1 head.2
    | cons first others =>
      obtain ⟨rfl, later⟩ := List.cons.inj taken
      -- The first turn is among those before `t`, and the session after it has followed it.
      have answered := ih (followsAnswer follows head.1 head.2) others t late later
      rwa [List.append_assoc] at answered

end Session

theorem historyReplaysTurns (settings : Settings) (r : Roller σ) (s : σ) {arrivals : List Arrival}
    {lines : List (Time × Text)} (unicode : arrivals.map Arrival.line? = lines.map some) :
    let transcript := run settings r s arrivals
    let turns := transcript.turns lines
    turns.map (fun t => (t.time, t.line)) = lines ∧
    transcript = ⟨.prompt :: turns.flatMap fun t => t.answer ++ [.prompt], true⟩ ∧
    ∀ before t after, turns = before ++ t :: after → t.Answered settings r s before := by
  intro transcript turns
  obtain ⟨rfl, complete⟩ := heardAll unicode
  have taken : turns = (Session.start settings s).turns settings r (heard arrivals) :=
    runTurns settings r s arrivals
  refine ⟨?_, ?_, ?_⟩
  · rw [taken]
    exact Session.turnsLines settings r _ _
  · rw [taken, ← complete]
    exact runSession settings r s arrivals
  · rw [taken]
    exact Session.turnsAnswered (Session.startFollows settings r s) (heard arrivals)

theorem historyReplaysTurnsCleared :
    let r := Roller.stepping 1
    let script : List (Nat × String) := [(0, "2d6 - q"), (1, ":history"), (2, ":clear"),
      (3, "d4\t"), (4, ""), (5, "7 + 2d"), (86399, " :history ")]
    let arrivals : List Arrival := script.map fun (second, line) =>
      ⟨⟨second⟩, line.toUTF8.data.toList⟩
    let lines : List (Time × Text) := script.map fun (second, line) => (⟨second⟩, line.toList)
    let turns := (run {} r 10 arrivals).turns lines
    let last : Turn := ⟨⟨86399⟩, " :history ".toList,
      [.line "00:00:05  7 + 2d".toList, .line "    7 + 2d = 7".toList,
        .line "00:00:03  d4".toList, .line "    1d4 (4) = 4".toList]⟩
    arrivals.map Arrival.line? = lines.map some ∧
    (run {} r 10 arrivals).emissions = .prompt :: turns.flatMap (fun t => t.answer ++ [.prompt]) ∧
    turns = turns.take 6 ++ [last] ∧ (sinceClear (turns.take 6)).length = 2 ∧
    last.answer = ((sinceClear (turns.take 6)).take 50).flatMap Turn.replayed := by
  intro r script arrivals lines turns last
  have unicode : arrivals.map Arrival.line? = lines.map some := by decide
  obtain ⟨_, whole, answered⟩ := historyReplaysTurns {} r 10 unicode
  have parts : turns = turns.take 6 ++ [last] := by decide
  exact ⟨unicode, congrArg Transcript.emissions whole, parts, by decide,
    ((answered (turns.take 6) last [] parts).history (by decide)).trans (if_pos rfl)⟩

end Tabletop.Console
