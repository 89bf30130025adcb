import Tabletop.Console.Session

/-! A session in turns: the lines that are read, each with what stands between the prompt before it
and the prompt after it. The turns can be told from the transcript, because no answer holds a
prompt, and the transcript is the first prompt and then one turn after the other. -/
namespace Tabletop.Console
variable {σ : Type}

def Arrival.line? (arrival : Arrival) : Option (Time × Text) :=
  (Text.decode? arrival.bytes).map (arrival.time, ·)

def heard : List Arrival → List (Time × Text)
  | [] => []
  | arrival :: rest =>
    match arrival.line? with
    | some line => line :: heard rest
    | none => []

structure Turn where
  time : Time
  line : Text
  answer : List Emission
  deriving DecidableEq, Repr

def Turn.emissions (t : Turn) : List Emission := t.answer ++ [.prompt]

namespace Transcript

/- The first piece stands before the first prompt and the last one behind the last. -/
def answers (t : Transcript) : List (List Emission) :=
  (t.emissions.splitOnP (· == .prompt)).tail.dropLast

def turns (t : Transcript) (lines : List (Time × Text)) : List Turn :=
  List.zipWith (fun line answer => ⟨line.1, line.2, answer⟩) lines t.answers

end Transcript

namespace Session
variable (settings : Settings) (r : Roller σ)

def turns : Session σ → List (Time × Text) → List Turn
  | _, [] => []
  | session, (time, line) :: rest =>
    ⟨time, line, (session.answer settings r time line).1⟩ ::
      turns (session.answer settings r time line).2 rest

theorem turnsLines (session : Session σ) (lines : List (Time × Text)) :
    (session.turns settings r lines).map (fun t => (t.time, t.line)) = lines := by
  induction lines generalizing session with
  | nil => rfl
  | cons line rest ih => rw [turns, List.map_cons, ih]

theorem repliesTurns (session : Session σ) (arrivals : List Arrival) :
    session.replies settings r arrivals =
      ⟨(session.turns settings r (heard arrivals)).flatMap Turn.emissions,
        arrivals.all (·.line?.isSome)⟩ := by
  induction arrivals generalizing session with
  | nil => rfl
  | cons arrival rest ih =>
    cases read : Text.decode? arrival.bytes with
    | none => simp [replies, receive?, heard, Arrival.line?, read, turns]
    | some line =>
      have kept : heard (arrival :: rest) = (arrival.time, line) :: heard rest := by
        simp [heard, Arrival.line?, read]
      rw [kept, turns, List.flatMap_cons, List.all_cons, replies, receive?, read]
      simp [ih, Arrival.line?, read, Turn.emissions]

theorem promptless (now : Time) (session : Session σ) (line : Text) :
    .prompt ∉ (session.answer settings r now line).1 := by
  unfold answer
  split
  · simp
  · simp [recalled]
  · simp
  · simp [reported]

theorem turnsPromptless (session : Session σ) (lines : List (Time × Text)) :
    ∀ t ∈ session.turns settings r lines, .prompt ∉ t.answer := by
  induction lines generalizing session with
  | nil => simp [turns]
  | cons line rest ih =>
    intro t member
    rcases List.mem_cons.mp member with rfl | later
    · exact promptless settings r line.1 session line.2
    · exact ih _ t later

end Session

theorem splitPrompts {ts : List Turn} (promptless : ∀ t ∈ ts, .prompt ∉ t.answer) :
    (ts.flatMap Turn.emissions).splitOnP (· == .prompt) = ts.map Turn.answer ++ [[]] := by
  induction ts with
  | nil => rfl
  | cons t rest ih =>
    have whole : t.answer.splitOnP (· == Emission.prompt) = [t.answer] := by
      apply List.splitOnP_eq_singleton
      intro e member
      apply Bool.eq_false_iff.mpr
      intro prompt
      exact promptless t List.mem_cons_self (beq_iff_eq.mp prompt ▸ member)
    have apart : (t :: rest).flatMap Turn.emissions =
        t.answer ++ .prompt :: rest.flatMap Turn.emissions := by
      simp [Turn.emissions]
    rw [apart, List.splitOnP_append_cons _ _ rfl, whole,
      ih fun other inside => promptless other (List.mem_cons_of_mem t inside)]
    rfl

theorem turnsOfEmissions {ts : List Turn} (promptless : ∀ t ∈ ts, .prompt ∉ t.answer)
    (complete : Bool) :
    Transcript.turns ⟨.prompt :: ts.flatMap Turn.emissions, complete⟩
      (ts.map fun t => (t.time, t.line)) = ts := by
  have cut : (.prompt :: ts.flatMap Turn.emissions).splitOnP (· == .prompt) =
      [] :: (ts.flatMap Turn.emissions).splitOnP (· == .prompt) :=
    List.splitOnP_append_cons [] _ rfl
  have answers : Transcript.answers ⟨.prompt :: ts.flatMap Turn.emissions, complete⟩ =
      ts.map Turn.answer := by
    rw [Transcript.answers, cut, splitPrompts promptless, List.tail_cons]
    exact List.dropLast_concat
  rw [Transcript.turns, answers, List.zipWith_map, List.zipWith_self, List.map_id']

section
variable (settings : Settings) (r : Roller σ) (s : σ) (arrivals : List Arrival)

theorem runSession :
    run settings r s arrivals =
      ⟨.prompt :: ((Session.start settings s).turns settings r (heard arrivals)).flatMap
          Turn.emissions,
        arrivals.all (·.line?.isSome)⟩ := by
  unfold run
  rw [Session.repliesTurns]

theorem runTurns :
    (run settings r s arrivals).turns (heard arrivals) =
      (Session.start settings s).turns settings r (heard arrivals) := by
  have shown := turnsOfEmissions
    ((Session.start settings s).turnsPromptless settings r (heard arrivals))
    (arrivals.all (·.line?.isSome))
  rwa [← runSession, Session.turnsLines] at shown

end

theorem heardAll {arrivals : List Arrival} {lines : List (Time × Text)}
    (unicode : arrivals.map Arrival.line? = lines.map some) :
    heard arrivals = lines ∧ arrivals.all (·.line?.isSome) = true := by
  induction arrivals generalizing lines with
  | nil =>
    cases lines with
    | nil => exact ⟨rfl, rfl⟩
    | cons line rest => contradiction
  | cons arrival others ih =>
    cases lines with
    | nil => contradiction
    | cons line rest =>
      obtain ⟨read, later⟩ := List.cons.inj unicode
      obtain ⟨kept, complete⟩ := ih later
      simp [heard, read, kept, complete]

end Tabletop.Console
