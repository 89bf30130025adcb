import Tabletop.Settings
/-! A session reads lines and answers each before it prompts for the next. A line is blank, one
of two commands, or an expression, which is rolled, shown and recorded; a line that is not
Unicode ends the session. -/

/-! A bounded log, newest entry first. Switching it off keeps what is recorded; an entry beyond
the capacity pushes the oldest one out. -/
namespace Tabletop

structure History (α : Type) where
  entries : List α
  capacity : Nat
  enabled : Bool
  deriving DecidableEq, Repr

namespace History
variable {α : Type}

def defaultCapacity : Nat := 50

def ofCapacity (capacity : Nat) : History α := ⟨[], capacity, true⟩

def setEnabled (h : History α) (on : Bool) : History α := { h with enabled := on }

def record (h : History α) (entry : α) : History α :=
  if h.enabled && h.capacity != 0 then { h with entries := (entry :: h.entries).take h.capacity }
  else h

def clear (h : History α) : History α := { h with entries := [] }

def latest? (h : History α) : Option α := h.entries.head?
def length (h : History α) : Nat := h.entries.length
def isEmpty (h : History α) : Bool := h.entries.isEmpty

end History
end Tabletop

namespace Tabletop.Console
variable {σ : Type}

structure Time where
  second : Nat
  deriving DecidableEq, Repr

namespace Time

def twoDigits (n : Nat) : Text := Text.ofNat (n / 10 % 10) ++ Text.ofNat (n % 10)

def text (t : Time) : Text :=
  twoDigits (t.second / 3600 % 24) ++ ':' :: twoDigits (t.second / 60 % 60) ++
    ':' :: twoDigits (t.second % 60)

end Time

structure Entry where
  time : Time
  outcome : Outcome
  deriving DecidableEq, Repr

inductive Emission where
  | prompt
  | line (text : Text)
  | diagnostic (raw : Text) (reason : Rejection)
  deriving DecidableEq, Repr

namespace Emission

def output : Emission → Text
  | prompt => "> ".toList
  | line text => text ++ ['\n']
  | diagnostic _ _ => []

def errors : Emission → Text
  | diagnostic raw reason =>
    "error: ".toList ++ Text.quoted raw ++ ": ".toList ++ reason.message ++ ['\n']
  | _ => []

end Emission

inductive Command where
  | blank
  | history
  | clear
  | expression (input : Text)
  deriving DecidableEq, Repr

def Command.ofLine (line : Text) : Command :=
  let input := Text.trim line
  if input = [] then .blank
  else if input = ":history".toList then .history
  else if input = ":clear".toList then .clear
  else .expression input

structure Session (σ : Type) where
  roller : σ
  history : History Entry
  deriving Repr

namespace Session

def start (settings : Settings) (s : σ) : Session σ :=
  ⟨s, (History.ofCapacity History.defaultCapacity).setEnabled settings.historyEnabled⟩

def recalled (format : Format) (entry : Entry) : List Emission :=
  [.line (entry.time.text ++ "  ".toList ++ entry.outcome.input),
   .line ("    ".toList ++ format.render entry.outcome)]

def reported (format : Format) (o : Outcome) : List Emission :=
  .line (format.render o) :: o.invalidTerms.map fun term => .diagnostic term.raw term.reason

def answer (settings : Settings) (r : Roller σ) (now : Time) (session : Session σ) (line : Text) :
    List Emission × Session σ :=
  match Command.ofLine line with
  | .blank => ([], session)
  | .history => (session.history.entries.flatMap (recalled settings.format), session)
  | .clear => ([], { session with history := session.history.clear })
  | .expression input =>
    let rolled := evaluate settings.options r input session.roller
    (reported settings.format rolled.outcome,
      ⟨rolled.after, session.history.record ⟨now, rolled.outcome⟩⟩)

def receive? (settings : Settings) (r : Roller σ) (now : Time) (session : Session σ)
    (bytes : Text.Bytes) : Option (List Emission × Session σ) :=
  (Text.decode? bytes).map fun line =>
    let (emissions, after) := session.answer settings r now line
    (emissions ++ [.prompt], after)

end Session

structure Arrival where
  time : Time
  bytes : Text.Bytes
  deriving DecidableEq, Repr

structure Transcript where
  emissions : List Emission
  complete : Bool
  deriving DecidableEq, Repr

namespace Transcript

def output (t : Transcript) : Text := t.emissions.flatMap Emission.output
def errors (t : Transcript) : Text := t.emissions.flatMap Emission.errors

end Transcript

/-- A session that breaks off before the end of its input is an error. -/
def status (complete : Bool) : UInt32 := if complete then 0 else 1

def Session.replies (settings : Settings) (r : Roller σ) : Session σ → List Arrival → Transcript
  | _, [] => ⟨[], true⟩
  | session, arrival :: rest =>
    match session.receive? settings r arrival.time arrival.bytes with
    | none => ⟨[], false⟩
    | some (emissions, after) =>
      let others := replies settings r after rest
      ⟨emissions ++ others.emissions, others.complete⟩

def run (settings : Settings) (r : Roller σ) (s : σ) (arrivals : List Arrival) : Transcript :=
  let replies := (Session.start settings s).replies settings r arrivals
  ⟨.prompt :: replies.emissions, replies.complete⟩

end Tabletop.Console
