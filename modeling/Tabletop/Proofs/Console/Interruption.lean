import Mathlib.Data.List.Basic
import Tabletop.Proofs.Console.Turns

/-! A session that breaks off. The first line that is not Unicode ends the run before anything is
made of it. Up to there the run is that over the earlier lines alone: what it shows, what it evaluates
and the session that it leaves are the same, and only its end is an error. -/

/-! The first lines of a stream, cut off behind the line feed that ends the last of them. They are
the lines of those bytes alone, whatever follows in the stream. -/
namespace Tabletop.Text

def Unicode (bytes : Bytes) : Prop := ∃ text : Text, text.flatMap String.utf8EncodeChar = bytes

theorem encodeString (s : String) :
    s.toList.flatMap String.utf8EncodeChar = s.toByteArray.data.toList := by
  rw [← String.utf8Encode_toList, List.utf8Encode, List.data_toByteArray]

theorem decode?Iff {bytes : Bytes} {text : Text} :
    decode? bytes = some text ↔ text.flatMap String.utf8EncodeChar = bytes := by
  have array : (⟨bytes.toArray⟩ : ByteArray) = bytes.toByteArray := by
    ext1
    exact List.data_toByteArray.symm
  rw [decode?, array, String.fromUTF8?, Option.map_eq_some_iff]
  constructor
  · rintro ⟨s, read, rfl⟩
    obtain ⟨valid, same⟩ := Option.dite_none_right_eq_some.mp read
    cases same
    rw [encodeString, String.fromUTF8, List.data_toByteArray]
  · rintro rfl
    have valid : (text.flatMap String.utf8EncodeChar).toByteArray.IsValidUTF8 := ⟨text, rfl⟩
    exact ⟨String.ofList text, dif_pos valid, String.toList_ofList⟩

theorem unicodeIff {bytes : Bytes} : Unicode bytes ↔ (decode? bytes).isSome = true := by
  rw [Option.isSome_iff_exists]
  exact exists_congr fun _ => decode?Iff.symm

instance (bytes : Bytes) : Decidable (Unicode bytes) := decidable_of_iff _ unicodeIff.symm

def leading : Nat → Bytes → Bytes
  | 0, _ => []
  | _ + 1, [] => []
  | k + 1, b :: rest => b :: (if b = 10 then leading k rest else leading (k + 1) rest)

theorem leadingPrefix (k : Nat) (stream : Bytes) : leading k stream <+: stream := by
  induction stream generalizing k with
  | nil => cases k <;> exact List.prefix_rfl
  | cons b rest ih =>
    cases k with
    | zero => exact List.nil_prefix
    | succ k =>
      rw [leading]
      split
      · exact List.cons_prefix_cons.mpr ⟨rfl, ih k⟩
      · exact List.cons_prefix_cons.mpr ⟨rfl, ih (k + 1)⟩

theorem linesFromLeading (k : Nat) (current stream : Bytes) :
    linesFrom current (leading (k + 1) stream) = (linesFrom current stream).take (k + 1) := by
  -- The line that is being read is the first of those to be kept.
  induction stream generalizing k current with
  | nil =>
    rw [leading, linesFrom]
    split
    · rfl
    · rw [List.take_succ_cons, List.take_nil]
  | cons b rest ih =>
    rw [leading]
    by_cases feed : b = 10
    · subst feed
      rw [if_pos rfl, linesFromStep, linesFromStep, List.take_succ_cons]
      cases k with
      | zero => rw [leading, linesOfNil, List.take_zero]
      | succ k => rw [linesOf, ih k [], linesOf]
    · rw [if_neg feed, linesFrom, if_neg feed, linesFrom, if_neg feed]
      exact ih k (b :: current)

theorem linesLeading (k : Nat) (stream : Bytes) :
    linesOf (leading k stream) = (linesOf stream).take k := by
  cases k with
  | zero => rw [leading, linesOfNil, List.take_zero]
  | succ k => exact linesFromLeading k [] stream

end Tabletop.Text

namespace Tabletop.Console
open Text (Bytes Unicode linesOf leading)
variable {σ : Type}

def received (clock : Nat → Time) (stream : Bytes) : List Arrival :=
  (linesOf stream).mapIdx fun place bytes => ⟨clock place, bytes⟩

structure Course (σ : Type) where
  transcript : Transcript
  evaluations : List (Evaluation σ)
  final : Session σ

namespace Course

def preceded (c : Course σ) (answer : List Emission) (evaluations : List (Evaluation σ)) :
    Course σ :=
  ⟨⟨answer ++ .prompt :: c.transcript.emissions, c.transcript.complete⟩,
    evaluations ++ c.evaluations, c.final⟩

def broken (c : Course σ) : Course σ := { c with transcript.complete := false }

end Course

namespace Session
variable (settings : Settings) (r : Roller σ)

def evaluations (session : Session σ) (line : Text) : List (Evaluation σ) :=
  match Command.ofLine line with
  | .expression input => [evaluate settings.options r input session.roller]
  | _ => []

def course : Session σ → List Arrival → Course σ
  | session, [] => ⟨⟨[], true⟩, [], session⟩
  | session, arrival :: rest =>
    match arrival.line? with
    | none => ⟨⟨[], false⟩, [], session⟩
    | some (time, line) =>
      (course (session.answer settings r time line).2 rest).preceded
        (session.answer settings r time line).1 (session.evaluations settings r line)

theorem courseHeard {arrival : Arrival} {time : Time} {line : Text}
    (heard : arrival.line? = some (time, line)) (rest : List Arrival) (session : Session σ) :
    session.course settings r (arrival :: rest) =
      ((session.answer settings r time line).2.course settings r rest).preceded
        (session.answer settings r time line).1 (session.evaluations settings r line) := by
  rw [course, heard]

theorem courseUnread {arrival : Arrival} (unread : arrival.line? = none) (rest : List Arrival)
    (session : Session σ) :
    session.course settings r (arrival :: rest) = ⟨⟨[], false⟩, [], session⟩ := by
  rw [course, unread]

theorem courseReplies (session : Session σ) (arrivals : List Arrival) :
    (session.course settings r arrivals).transcript = session.replies settings r arrivals := by
  induction arrivals generalizing session with
  | nil => rfl
  | cons arrival rest ih =>
    cases read : Text.decode? arrival.bytes with
    | none =>
      have unread : arrival.line? = none := by rw [Arrival.line?, read, Option.map_none]
      rw [courseUnread settings r unread, replies, receive?, read, Option.map_none]
    | some line =>
      have heard : arrival.line? = some (arrival.time, line) := by
        rw [Arrival.line?, read, Option.map_some]
      rw [courseHeard settings r heard, Course.preceded, ih, replies, receive?, read,
        Option.map_some]
      simp only [List.append_assoc, List.singleton_append]

theorem courseCompletes {arrivals : List Arrival} (unicode : ∀ a ∈ arrivals, a.line? ≠ none)
    (session : Session σ) : (session.course settings r arrivals).transcript.complete = true := by
  induction arrivals generalizing session with
  | nil => rfl
  | cons arrival rest ih =>
    obtain ⟨first, later⟩ := List.forall_mem_cons.mp unicode
    obtain ⟨line, heard⟩ := Option.ne_none_iff_exists'.mp first
    rw [courseHeard settings r heard]
    exact ih later _

theorem courseBroken {first : List Arrival} (unicode : ∀ a ∈ first, a.line? ≠ none)
    {arrival : Arrival} (unread : arrival.line? = none) (rest : List Arrival)
    (session : Session σ) :
    session.course settings r (first ++ arrival :: rest) =
      (session.course settings r first).broken := by
  induction first generalizing session with
  | nil => exact courseUnread settings r unread rest session
  | cons earlier others ih =>
    obtain ⟨one, later⟩ := List.forall_mem_cons.mp unicode
    obtain ⟨line, heard⟩ := Option.ne_none_iff_exists'.mp one
    rw [List.cons_append, courseHeard settings r heard, courseHeard settings r heard, ih later]
    rfl

end Session

def course (settings : Settings) (r : Roller σ) (s : σ) (arrivals : List Arrival) : Course σ :=
  let replies := (Session.start settings s).course settings r arrivals
  { replies with transcript.emissions := .prompt :: replies.transcript.emissions }

theorem runCourse (settings : Settings) (r : Roller σ) (s : σ) (arrivals : List Arrival) :
    run settings r s arrivals = (course settings r s arrivals).transcript := by
  rw [run, ← Session.courseReplies]
  rfl

theorem lineNone {arrival : Arrival} : arrival.line? = none ↔ ¬ Unicode arrival.bytes := by
  rw [Text.unicodeIff, Arrival.line?, Option.map_eq_none_iff, Option.not_isSome_iff_eq_none]

theorem receivedUnicode {clock : Nat → Time} {stream : Bytes}
    (unicode : ∀ line ∈ linesOf stream, Unicode line) :
    ∀ a ∈ received clock stream, a.line? ≠ none := by
  intro a member unread
  obtain ⟨place, inside, rfl⟩ := List.mem_mapIdx.mp member
  exact lineNone.mp unread (unicode _ (List.getElem_mem inside))

theorem receivedParts (clock : Nat → Time) {stream line : Bytes} {k : Nat}
    (found : (linesOf stream)[k]? = some line) :
    ∃ rest, received clock stream =
      received clock (leading k stream) ++ ⟨clock k, line⟩ :: rest := by
  obtain ⟨short, rfl⟩ := List.getElem?_eq_some_iff.mp found
  have length : ((linesOf stream).take k).length = k := List.length_take_of_le (Nat.le_of_lt short)
  have parts : linesOf stream =
      (linesOf stream).take k ++ (linesOf stream)[k] :: (linesOf stream).drop (k + 1) := by
    rw [← List.drop_eq_getElem_cons, List.take_append_drop]
  have later := congrArg (List.mapIdx fun place bytes => (⟨clock place, bytes⟩ : Arrival)) parts
  rw [List.mapIdx_append, List.mapIdx_cons, length, Nat.zero_add, ← Text.linesLeading] at later
  exact ⟨_, later⟩

theorem courseStream (settings : Settings) (r : Roller σ) (s : σ) (clock : Nat → Time)
    {stream line : Bytes} {k : Nat} (unicode : ∀ earlier ∈ (linesOf stream).take k, Unicode earlier)
    (found : (linesOf stream)[k]? = some line) (broken : ¬ Unicode line) :
    course settings r s (received clock stream) =
        (course settings r s (received clock (leading k stream))).broken ∧
      (course settings r s (received clock (leading k stream))).transcript.complete = true := by
  have readable : ∀ a ∈ received clock (leading k stream), a.line? ≠ none := by
    apply receivedUnicode
    rwa [Text.linesLeading]
  obtain ⟨rest, parts⟩ := receivedParts clock found
  have unread : (⟨clock k, line⟩ : Arrival).line? = none := lineNone.mpr broken
  have stopped := Session.courseBroken settings r readable unread rest (Session.start settings s)
  constructor
  · rw [parts, course, stopped]
    rfl
  · exact Session.courseCompletes settings r readable (Session.start settings s)

theorem brokenLineEndsRun (settings : Settings) (r : Roller σ) (s : σ) (clock : Nat → Time)
    {stream line : Bytes} {k : Nat} (unicode : ∀ earlier ∈ (linesOf stream).take k, Unicode earlier)
    (found : (linesOf stream)[k]? = some line) (broken : ¬ Unicode line) :
    let first := leading k stream
    let whole := run settings r s (received clock stream)
    let alone := run settings r s (received clock first)
    let wholeCourse := course settings r s (received clock stream)
    let aloneCourse := course settings r s (received clock first)
    first <+: stream ∧ linesOf first = (linesOf stream).take k ∧
    whole.emissions = alone.emissions ∧ whole.output = alone.output ∧
    whole.errors = alone.errors ∧
    status whole.complete = 1 ∧ status alone.complete = 0 ∧
    whole = wholeCourse.transcript ∧ alone = aloneCourse.transcript ∧
    wholeCourse.evaluations = aloneCourse.evaluations ∧ wholeCourse.final = aloneCourse.final := by
  intro first whole alone wholeCourse aloneCourse
  obtain ⟨stopped, complete⟩ := courseStream settings r s clock unicode found broken
  have wholeRun : whole = wholeCourse.transcript := runCourse settings r s (received clock stream)
  have aloneRun : alone = aloneCourse.transcript := runCourse settings r s (received clock first)
  have emissions : whole.emissions = alone.emissions := by
    rw [wholeRun, aloneRun]
    exact congrArg (·.transcript.emissions) stopped
  have ended : whole.complete = false := by
    rw [wholeRun]
    exact congrArg (·.transcript.complete) stopped
  have finished : alone.complete = true := by
    rw [aloneRun]
    exact complete
  refine ⟨Text.leadingPrefix k stream, Text.linesLeading k stream, emissions,
    congrArg (List.flatMap Emission.output) emissions,
    congrArg (List.flatMap Emission.errors) emissions, ?_, ?_, wholeRun, aloneRun, ?_, ?_⟩
  · rw [ended]
    rfl
  · rw [finished]
    rfl
  · exact congrArg (·.evaluations) stopped
  · exact congrArg (·.final) stopped

theorem brokenLineEndsRunMidway :
    let stream := "2d6 + x\r\n:history\n3d4".toUTF8.data.toList ++ [0xC3, 0x0A] ++
      ":clear\n2d6\n".toUTF8.data.toList
    let clock : Nat → Time := fun place => ⟨3600 * place⟩
    let r := Roller.stepping 1
    let whole := run {} r 10 (received clock stream)
    let alone := run {} r 10 (received clock (leading 2 stream))
    let line := "3d4".toUTF8.data.toList ++ [0xC3]
    (∀ earlier ∈ (linesOf stream).take 2, Unicode earlier) ∧ (linesOf stream)[2]? = some line ∧
    ¬ Unicode line ∧
    whole.output = alone.output ∧ whole.output =
      "> 2d6 (4, 5) + x = 9\n> 00:00:00  2d6 + x\n    2d6 (4, 5) + x = 9\n> ".toList ∧
    whole.errors = "error: \"x\": unrecognized input\n".toList ∧
    status whole.complete = 1 ∧ status alone.complete = 0 := by
  intro stream clock r whole alone line
  have unicode : ∀ earlier ∈ (linesOf stream).take 2, Unicode earlier := by decide
  have found : (linesOf stream)[2]? = some line := by decide
  have broken : ¬ Unicode line := by decide
  obtain ⟨_, _, _, output, errors, ended, finished, _⟩ :=
    brokenLineEndsRun {} r 10 clock unicode found broken
  exact ⟨unicode, found, broken, output, output.trans (by decide), errors.trans (by decide), ended,
    finished⟩

end Tabletop.Console
