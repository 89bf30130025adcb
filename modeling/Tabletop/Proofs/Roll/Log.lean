import Tabletop.Proofs.Expression.Split
import Tabletop.Proofs.Roll.Terms

/-! The log of an evaluation beside its outcome. All segments are read before the first of them is
classified, so every term is announced first; then the terms that are refused are named, and last
the outcome is summed up. The log says nothing that the outcome and its input do not. -/
namespace Tabletop

namespace Event

structure Entry where
  level : Level
  message : Text
  fields : List (Text × Text)

def entry (e : Event) : Entry := ⟨e.level, e.message, e.fields⟩

def AnnouncedFirst (log : List Event) : Prop :=
  log.Pairwise fun e later => later.level = .trace → e.level = .trace

section Layers
variable {early late : List Event} (traced : ∀ e ∈ early, e.level = .trace)
  (debugged : ∀ e ∈ late, e.level = .debug)
include traced debugged

theorem announcedFirst : AnnouncedFirst (early ++ late) := by
  apply List.pairwise_append.mpr
  refine ⟨?_, ?_, ?_⟩
  · exact List.pairwise_of_forall_mem_list fun e member _ _ _ => traced e member
  · apply List.pairwise_of_forall_mem_list
    intro e _ later member trace
    rw [debugged later member] at trace
    contradiction
  · exact fun e member _ _ _ => traced e member

theorem visibleDebug : visible .debug (early ++ late) = late := by
  have hidden : visible .debug early = [] := by
    apply List.filter_eq_nil_iff.mpr
    intro e member
    rw [traced e member]
    decide
  have seen : visible .debug late = late := by
    apply List.filter_eq_self.mpr
    intro e member
    rw [debugged e member]
    decide
  rw [visible, List.filter_append]
  exact (congrArg₂ (· ++ ·) hidden seen).trans (List.nil_append late)

theorem visibleInfo : visible .info (early ++ late) = [] := by
  apply List.filter_eq_nil_iff.mpr
  intro e member
  rcases List.mem_append.mp member with first | last
  · rw [traced e first]
    decide
  · rw [debugged e last]
    decide

end Layers

end Event

def InvalidTerm.event (i : InvalidTerm) : Event := .invalidTerm i.raw i.reason
def Outcome.event (o : Outcome) : Event := .rolled o.input o.terms.length o.total

def Term.announcement (t : Term) (source : Text) : Event.Entry :=
  ⟨.trace, "segment".toList, [("sign".toList, [t.sign.operator]), ("text".toList, source)]⟩

def InvalidTerm.complaint (i : InvalidTerm) : Event.Entry :=
  ⟨.debug, "invalid term".toList, [("term".toList, i.raw), ("error".toList, i.reason.message)]⟩

def Outcome.summary (o : Outcome) : Event.Entry :=
  ⟨.debug, "rolled expression".toList, [("input".toList, o.input),
    ("terms".toList, Text.ofNat o.terms.length), ("total".toList, Text.ofInt o.total)]⟩

theorem Segment.collectReported (sign : Sign) (tokens : List Token) :
    (collect sign tokens).2 = (ofTokens sign tokens).map event := by
  induction tokens generalizing sign with
  | nil => rfl
  | cons token rest ih =>
    cases token with
    | operator next => exact ih next
    | text run =>
      by_cases blank : Text.trim run = []
      · rw [ofTokensBlank blank, collect, if_pos blank]
        exact ih sign
      · rw [ofTokensText blank, collect, if_neg blank, List.map_cons, ← ih .positive]

theorem Term.announcements {limit : Nat} {segments : List Segment} {ts : List Term}
    (read : List.Forall₂ (Reads limit) segments ts) :
    (segments.map Segment.event).map Event.entry =
      List.zipWith (fun t source => t.announcement source.text) ts segments := by
  induction read with
  | nil => rfl
  | @cons segment t _ _ head _ ih =>
    have same : segment.event.entry = t.announcement segment.text := by
      rw [announcement, head.sign]
      rfl
    rw [List.map_cons, List.map_cons, List.zipWith_cons_cons, same, ih]

namespace Evaluation
variable {σ : Type} (o : Options) (r : Roller σ)

theorem termReports (segment : Segment) (s : σ) :
    (term o r segment s).2.1 =
      (term o r segment s).1.invalid?.toList.map InvalidTerm.event := by
  cases read : Reading.ofText o.maxDice segment.text with
  | dice count faces =>
    rw [termDice s read]
    rfl
  | modifier value =>
    rw [termModifier s read]
    rfl
  | rejected reason =>
    rw [termRejected s read]
    rfl

theorem termsReport (segments : List Segment) (s : σ) :
    (terms o r segments s).2.1 =
      ((terms o r segments s).1.filterMap Term.invalid?).map InvalidTerm.event := by
  induction segments generalizing s with
  | nil => rfl
  | cons segment rest ih =>
    simp only [termsCons]
    rw [termReports, ih]
    cases (term o r segment s).1 <;> rfl

end Evaluation

def Outcome.closing (o : Outcome) : List Event :=
  o.invalidTerms.map InvalidTerm.event ++ [o.event]

theorem Outcome.closingEntries (o : Outcome) :
    o.closing.map Event.entry = o.invalidTerms.map InvalidTerm.complaint ++ [o.summary] := by
  rw [closing, List.map_append, List.map_map]
  rfl

theorem Outcome.closingLevel (o : Outcome) : ∀ e ∈ o.closing, e.level = .debug := by
  intro e member
  rcases List.mem_append.mp member with refused | finished
  · obtain ⟨i, _, rfl⟩ := List.mem_map.mp refused
    rfl
  · cases List.mem_singleton.mp finished
    rfl

theorem evaluateLog {σ : Type} (o : Options) (r : Roller σ) (input : Text) (s : σ) :
    (evaluate o r input s).log =
      (segments input).map Segment.event ++ (evaluate o r input s).outcome.closing := by
  have announced : (Segment.collect .positive (Token.scan (Text.trim input))).2 =
      (segments input).map Segment.event := Segment.collectReported .positive _
  have reported : (Evaluation.terms o r (segments input) s).2.1 =
      (evaluate o r input s).outcome.invalidTerms.map InvalidTerm.event :=
    Evaluation.termsReport o r (segments input) s
  rw [Outcome.closing, ← announced, ← reported, ← List.append_assoc]
  rfl

theorem logTellsOutcome {σ : Type} (o : Options) (r : Roller σ) (input : Text) (s : σ) :
    let run := evaluate o r input s
    let sources := Segment.split .positive input
    let announced :=
      List.zipWith (fun t source => t.announcement source.text) run.outcome.terms sources
    let closing := run.outcome.invalidTerms.map InvalidTerm.complaint ++ [run.outcome.summary]
    List.Forall₂ (Term.Reads o.maxDice) sources run.outcome.terms ∧
    run.outcome.input = input ∧
    run.log.map Event.entry = announced ++ closing ∧
    Event.AnnouncedFirst run.log ∧
    (Event.visible .trace run.log).map Event.entry = announced ++ closing ∧
    (Event.visible .debug run.log).map Event.entry = closing ∧
    Event.visible .info run.log = [] := by
  intro run sources announced closing
  have log : run.log = sources.map Segment.event ++ run.outcome.closing := by
    have parts := evaluateLog o r input s
    rwa [Segment.segmentsSplit] at parts
  have read : List.Forall₂ (Term.Reads o.maxDice) sources run.outcome.terms := by
    have inOrder := evaluateRead o r input s
    rwa [Segment.segmentsSplit] at inOrder
  have traced : ∀ e ∈ sources.map Segment.event, e.level = .trace := by
    intro e member
    obtain ⟨segment, _, rfl⟩ := List.mem_map.mp member
    rfl
  have debugged := run.outcome.closingLevel
  have whole : run.log.map Event.entry = announced ++ closing := by
    rw [log, List.map_append, Term.announcements read, Outcome.closingEntries]
  refine ⟨read, rfl, whole, ?_, ?_, ?_, ?_⟩
  · rw [log]
    exact Event.announcedFirst traced debugged
  · rw [Event.visibleTrace]
    exact whole
  · rw [log, Event.visibleDebug traced debugged]
    exact run.outcome.closingEntries
  · rw [log]
    exact Event.visibleInfo traced debugged

end Tabletop
