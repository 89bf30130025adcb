import Mathlib.Data.List.Chain
import Tabletop.Proofs.Expression.Split

/-! The tokens of a text, one call after the other. Any lexer that takes the longest match of the
three rules gives the tokens of the scan: put together they are the text again, no piece is left
without a rule, and two texts never stand next to each other. -/
namespace Tabletop.Token

/- What a lexer calls a piece. The last kind is for a piece that no rule matches. -/
inductive Kind where
  | plus
  | minus
  | text
  | unmatched
  deriving DecidableEq, Repr

structure Lexeme where
  kind : Kind
  slice : Text
  deriving DecidableEq, Repr

inductive Rule : Kind → Text → Prop where
  | plus : Rule .plus ['+']
  | minus : Rule .minus ['-']
  | text {run} (nonempty : run ≠ []) (plain : Plain run) : Rule .text run

/- What one call may take off the front of a text: the longest of all matches, or a piece of any
length where there is no match. -/
inductive Longest (s : Text) : Lexeme → Prop where
  | matched {kind slice} (rule : Rule kind slice) (front : slice <+: s)
      (longest : ∀ other run, Rule other run → run <+: s → run.length ≤ slice.length) :
      Longest s ⟨kind, slice⟩
  | unmatched {slice} (nonempty : slice ≠ []) (front : slice <+: s)
      (none : ∀ other run, Rule other run → ¬ run <+: s) : Longest s ⟨.unmatched, slice⟩

abbrev Lexer := Text → Option (Lexeme × Text)

structure LongestMatch (next : Lexer) : Prop where
  ends : ∀ s, next s = none ↔ s = []
  takes : ∀ s lexeme rest, next s = some (lexeme, rest) →
    Longest s lexeme ∧ s = lexeme.slice ++ rest

inductive Yields (next : Lexer) : Text → List Lexeme → Prop where
  | done {s} (ended : next s = none) : Yields next s []
  | step {s lexeme rest lexemes} (taken : next s = some (lexeme, rest))
      (later : Yields next rest lexemes) : Yields next s (lexeme :: lexemes)

def lexeme : Token → Lexeme
  | operator .positive => ⟨.plus, ['+']⟩
  | operator .negative => ⟨.minus, ['-']⟩
  | text run => ⟨.text, run⟩

theorem lexemeSlice (token : Token) : token.lexeme.slice = token.source := by
  rcases token with (_ | _) | run <;> rfl

theorem plainHead {c : Char} {rest run : Text} (operator : isOperator c = true) (plain : Plain run)
    (front : run <+: c :: rest) : run = [] := by
  cases run with
  | nil => rfl
  | cons d later =>
    obtain ⟨rfl, _⟩ := List.cons_prefix_cons.mp front
    rw [plain d List.mem_cons_self] at operator
    contradiction

theorem operatorRule (sign : Sign) :
    Rule (Token.operator sign).lexeme.kind [sign.operator] := by
  cases sign with
  | positive => exact .plus
  | negative => exact .minus

theorem operatorLongest (sign : Sign) (rest : Text) :
    Longest (sign.operator :: rest) (Token.operator sign).lexeme := by
  have longest : ∀ other run, Rule other run → run <+: sign.operator :: rest →
      run.length ≤ [sign.operator].length := by
    intro other run rule front
    cases rule with
    | plus => exact Nat.le_refl 1
    | minus => exact Nat.le_refl 1
    | text nonempty plain =>
      exact absurd (plainHead (operatorIsOperator sign) plain front) nonempty
  have front : [sign.operator] <+: sign.operator :: rest := List.prefix_append [sign.operator] rest
  have matched := Longest.matched (operatorRule sign) front longest
  cases sign <;> exact matched

theorem runLongest {run rest : Text} (nonempty : run ≠ []) (plain : Plain run)
    (stop : ∀ c ∈ rest.head?, isOperator c = true) : Longest (run ++ rest) ⟨.text, run⟩ := by
  refine .matched (.text nonempty plain) (List.prefix_append run rest) ?_
  intro other longer rule front
  have one : 1 ≤ run.length := List.length_pos_iff.mpr nonempty
  cases rule with
  | plus => exact one
  | minus => exact one
  | text _ free =>
    apply Nat.le_of_not_lt
    intro more
    obtain ⟨extra, rfl⟩ :=
      List.prefix_of_prefix_length_le (List.prefix_append run rest) front (Nat.le_of_lt more)
    have further : extra <+: rest := (List.prefix_append_right_inj run).mp front
    have ended : extra = [] := by
      cases rest with
      | nil => exact List.prefix_nil.mp further
      | cons c later =>
        have plainExtra : Plain extra := fun d member => free d (List.mem_append_right run member)
        exact plainHead (stop c rfl) plainExtra further
    simp [ended] at more

theorem ruleUnique {k l : Kind} {run : Text} (first : Rule k run) (second : Rule l run) :
    k = l := by
  cases first with
  | plus =>
    cases second with
    | plus => rfl
    | text _ plain => exact absurd plain (by decide)
  | minus =>
    cases second with
    | minus => rfl
    | text _ plain => exact absurd plain (by decide)
  | text _ plain =>
    cases second with
    | plus => exact absurd plain (by decide)
    | minus => exact absurd plain (by decide)
    | text => rfl

theorem someRule (c : Char) (rest : Text) : ∃ kind run, Rule kind run ∧ run <+: c :: rest := by
  cases operator : isOperator c with
  | true =>
    obtain ⟨sign, rfl⟩ := operatorExists operator
    exact ⟨_, [sign.operator], operatorRule sign, List.prefix_append [sign.operator] rest⟩
  | false =>
    have plain : Plain [c] := plainCons operator (by simp [Plain])
    exact ⟨.text, [c], .text (by simp) plain, List.prefix_append [c] rest⟩

theorem longestUnique {c : Char} {rest : Text} {first second : Lexeme}
    (one : Longest (c :: rest) first) (other : Longest (c :: rest) second) : first = second := by
  obtain ⟨kind, run, rule, front⟩ := someRule c rest
  cases one with
  | unmatched _ _ none => exact absurd front (none kind run rule)
  | matched rule front longest =>
    cases other with
    | unmatched _ _ none => exact absurd front (none _ _ rule)
    | matched rule' front' longest' =>
      have shorter := longest' _ _ rule front
      have equal := Nat.le_antisymm shorter (longest _ _ rule' front')
      have same := (List.prefix_of_prefix_length_le front front' shorter).eq_of_length equal
      subst same
      rw [ruleUnique rule rule']

theorem lexesSource {s : Text} {tokens : List Token} (lexed : Lexes s tokens) :
    tokens.flatMap source = s := by
  induction lexed with
  | done => rfl
  | operator sign _ ih => rw [List.flatMap_cons, ih, source, List.singleton_append]
  | text _ _ _ _ ih => rw [List.flatMap_cons, ih, source]

theorem lexesFirst {s : Text} {token : Token} {tokens : List Token}
    (lexed : Lexes s (token :: tokens)) :
    s ≠ [] ∧ Longest s token.lexeme ∧ s = token.source ++ tokens.flatMap source ∧
      Lexes (tokens.flatMap source) tokens := by
  cases lexed with
  | @operator sign rest _ next =>
    rw [lexesSource next]
    exact ⟨List.cons_ne_nil _ _, operatorLongest sign rest, rfl, next⟩
  | @text run rest _ nonempty plain longest next =>
    rw [lexesSource next]
    exact ⟨List.append_ne_nil_of_left_ne_nil nonempty rest, runLongest nonempty plain longest, rfl,
      next⟩

theorem firstTaken {next : Lexer} (longest : LongestMatch next) {s rest : Text} {lexeme : Lexeme}
    (something : s ≠ []) (first : Longest s lexeme) (parts : s = lexeme.slice ++ rest) :
    next s = some (lexeme, rest) := by
  obtain ⟨⟨other, left⟩, taken⟩ :=
    Option.ne_none_iff_exists'.mp fun ended => something ((longest.ends s).mp ended)
  obtain ⟨second, again⟩ := longest.takes s other left taken
  obtain ⟨c, later, rfl⟩ := List.exists_cons_of_ne_nil something
  have same := longestUnique second first
  subst same
  rw [parts] at again
  rw [taken, List.append_cancel_left again]

theorem lexesYields {next : Lexer} (longest : LongestMatch next) {s : Text} {tokens : List Token}
    (lexed : Lexes s tokens) : Yields next s (tokens.map lexeme) := by
  induction tokens generalizing s with
  | nil =>
    cases lexed
    exact .done ((longest.ends []).mpr rfl)
  | cons token later ih =>
    obtain ⟨something, first, parts, next⟩ := lexesFirst lexed
    rw [← lexemeSlice] at parts
    exact .step (firstTaken longest something first parts) (ih next)

theorem yieldsUnique {next : Lexer} {s : Text} {xs ys : List Lexeme} (first : Yields next s xs)
    (second : Yields next s ys) : xs = ys := by
  induction first generalizing ys with
  | done ended =>
    cases second with
    | done => rfl
    | step taken later =>
      rw [ended] at taken
      contradiction
  | step taken later ih =>
    cases second with
    | done ended =>
      rw [taken] at ended
      contradiction
    | step taken' later' =>
      rw [taken] at taken'
      cases taken'
      rw [ih later']

def takeFirst : Lexer := fun s =>
  match scan s with
  | [] => none
  | token :: rest => some (token.lexeme, rest.flatMap source)

theorem takeFirstLongest : LongestMatch takeFirst where
  ends s := by
    have lexed := lexesScan s
    unfold takeFirst
    cases found : scan s with
    | nil =>
      rw [found] at lexed
      simp [← lexesSource lexed]
    | cons token later =>
      rw [found] at lexed
      simp [(lexesFirst lexed).1]
  takes s lexeme rest taken := by
    have lexed := lexesScan s
    unfold takeFirst at taken
    cases found : scan s with
    | nil =>
      rw [found] at taken
      contradiction
    | cons token later =>
      rw [found] at taken lexed
      cases taken
      obtain ⟨_, first, parts, _⟩ := lexesFirst lexed
      rw [lexemeSlice]
      exact ⟨first, parts⟩

theorem lexemesSource (tokens : List Token) :
    (tokens.map lexeme).flatMap Lexeme.slice = tokens.flatMap source := by
  rw [List.flatMap_map]
  exact congrArg (tokens.flatMap ·) (funext lexemeSlice)

theorem lexesRules {s : Text} {tokens : List Token} (lexed : Lexes s tokens) :
    ∀ l ∈ tokens.map lexeme, Rule l.kind l.slice := by
  induction lexed with
  | done => simp
  | operator sign _ ih =>
    rw [List.map_cons, List.forall_mem_cons, lexemeSlice]
    exact ⟨operatorRule sign, ih⟩
  | text nonempty plain _ _ ih =>
    rw [List.map_cons, List.forall_mem_cons]
    exact ⟨.text nonempty plain, ih⟩

theorem ruleSlices {kind : Kind} {slice : Text} (rule : Rule kind slice) :
    kind ≠ .unmatched ∧ (kind = .plus → slice = ['+']) ∧ (kind = .minus → slice = ['-']) ∧
      (kind = .text → slice ≠ [] ∧ '+' ∉ slice ∧ '-' ∉ slice) := by
  cases rule with
  | plus => simp
  | minus => simp
  | text nonempty plain =>
    have plus : '+' ∉ slice := fun member => absurd (plain '+' member) (by decide)
    have minus : '-' ∉ slice := fun member => absurd (plain '-' member) (by decide)
    simp [nonempty, plus, minus]

theorem lexesStopped {rest : Text} {tokens : List Token} (lexed : Lexes rest tokens)
    (stop : ∀ c ∈ rest.head?, isOperator c = true) :
    ∀ l ∈ (tokens.map lexeme).head?, l.kind ≠ .text := by
  cases lexed with
  | done => simp
  | operator sign => cases sign <;> simp [lexeme]
  | text nonempty plain =>
    obtain ⟨c, later, rfl⟩ := List.exists_cons_of_ne_nil nonempty
    have operator := stop c rfl
    rw [plain c List.mem_cons_self] at operator
    contradiction

theorem lexesApart {s : Text} {tokens : List Token} (lexed : Lexes s tokens) :
    (tokens.map lexeme).IsChain fun l m => l.kind = .text → m.kind ≠ .text := by
  induction lexed with
  | done => exact .nil
  | operator sign _ ih =>
    refine List.isChain_cons.mpr ⟨?_, ih⟩
    cases sign <;> simp [lexeme]
  | text _ _ longest next ih =>
    refine List.isChain_cons.mpr ⟨?_, ih⟩
    intro l member _
    exact lexesStopped next longest l member

theorem lexerPartitions {next : Lexer} (longest : LongestMatch next) (s : Text) :
    ∃ lexemes, Yields next s lexemes ∧ (∀ others, Yields next s others → others = lexemes) ∧
      lexemes = (scan s).map lexeme ∧
      lexemes.flatMap Lexeme.slice = s ∧
      (∀ l ∈ lexemes, l.kind ≠ .unmatched ∧ (l.kind = .plus → l.slice = ['+']) ∧
        (l.kind = .minus → l.slice = ['-']) ∧
        (l.kind = .text → l.slice ≠ [] ∧ '+' ∉ l.slice ∧ '-' ∉ l.slice)) ∧
      lexemes.IsChain fun l m => l.kind = .text → m.kind ≠ .text := by
  have lexed := lexesScan s
  have yields := lexesYields longest lexed
  refine ⟨(scan s).map lexeme, yields, ?_, rfl, ?_, ?_, lexesApart lexed⟩
  · intro others finished
    exact yieldsUnique finished yields
  · rw [lexemesSource, sourceScan]
  · intro l member
    exact ruleSlices (lexesRules lexed l member)

theorem lexerPartitionsMixed :
    let s := "\x00é\n--∂ +\t".toList
    let lexemes : List Lexeme := [⟨.text, "\x00é\n".toList⟩, ⟨.minus, ['-']⟩, ⟨.minus, ['-']⟩,
      ⟨.text, "∂ ".toList⟩, ⟨.plus, ['+']⟩, ⟨.text, ['\t']⟩]
    LongestMatch takeFirst ∧ Yields takeFirst s lexemes ∧
      (∀ others, Yields takeFirst s others → others = lexemes) ∧ lexemes.flatMap Lexeme.slice = s ∧
      lexemes.IsChain fun l m => l.kind = .text → m.kind ≠ .text := by
  intro s lexemes
  have cut : (scan s).map lexeme = lexemes := by decide
  obtain ⟨found, yields, unique, scanned, whole, _, apart⟩ := lexerPartitions takeFirstLongest s
  rw [scanned.trans cut] at yields unique whole apart
  exact ⟨takeFirstLongest, yields, unique, whole, apart⟩

end Tabletop.Token
