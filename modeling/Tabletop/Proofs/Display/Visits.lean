import Tabletop.Display

/-! A rendering as a walk over an outcome. Whoever writes the leaves is asked for each of them once:
the total first, then the dies, numbers and rejected texts from left to right. The answers are put
into a fixed layout, which never looks at them. -/
namespace Tabletop

inductive Piece where
  | total (x : Int)
  | die (d : DiceTerm) (value : Nat)
  | modifier (m : ModifierTerm)
  | invalid (i : InvalidTerm)
  deriving DecidableEq, Repr

def Term.pieces : Term → List Piece
  | dice d => d.outcomes.map (.die d)
  | modifier m => [.modifier m]
  | invalid i => [.invalid i]

def Outcome.pieces (o : Outcome) : List Piece := .total o.total :: o.terms.flatMap Term.pieces

namespace Piece
variable {σ : Type}

def written (write : Piece → StateM σ Text) : List Piece → σ → List Text × σ
  | [], s => ([], s)
  | piece :: rest, s =>
    let (text, between) := (write piece).run s
    let (texts, after) := written write rest between
    (text :: texts, after)

def noting (write : Piece → StateM σ Text) (piece : Piece) : StateM (σ × List Piece) Text :=
  fun (s, noted) =>
    let (text, after) := (write piece).run s
    (text, after, noted ++ [piece])

variable (write : Piece → StateM σ Text)

theorem writtenCons (piece : Piece) (rest : List Piece) (s : σ) :
    written write (piece :: rest) s =
      (((write piece).run s).1 :: (written write rest ((write piece).run s).2).1,
        (written write rest ((write piece).run s).2).2) := rfl

theorem writtenAppend (first rest : List Piece) (s : σ) :
    written write (first ++ rest) s =
      ((written write first s).1 ++ (written write rest (written write first s).2).1,
        (written write rest (written write first s).2).2) := by
  induction first generalizing s with
  | nil => rfl
  | cons piece later ih => rw [List.cons_append, writtenCons, ih, writtenCons, List.cons_append]

theorem writtenLength (pieces : List Piece) (s : σ) :
    (written write pieces s).1.length = pieces.length := by
  induction pieces generalizing s with
  | nil => rfl
  | cons piece rest ih => rw [writtenCons, List.length_cons, ih, List.length_cons]

theorem writtenNoting (pieces : List Piece) (s : σ) (noted : List Piece) :
    written (noting write) pieces (s, noted) =
      ((written write pieces s).1, (written write pieces s).2, noted ++ pieces) := by
  induction pieces generalizing s noted with
  | nil => rw [List.append_nil]; rfl
  | cons piece rest ih =>
    have step : (noting write piece).run (s, noted) =
        (((write piece).run s).1, ((write piece).run s).2, noted ++ [piece]) := rfl
    rw [writtenCons, step, ih, writtenCons, List.append_assoc, List.singleton_append]

theorem mapMWritten {α : Type} (piece : α → Piece) (parts : List α) (s : σ) :
    (parts.mapM fun part => write (piece part)).run s = written write (parts.map piece) s := by
  induction parts generalizing s with
  | nil => rfl
  | cons part rest ih =>
    rw [List.mapM_cons, List.map_cons, writtenCons, ← ih]
    rfl

end Piece

def Sign.mark (sign : Sign) : Nat → Text
  | 0 => if sign.isNegative then ['-'] else []
  | _ + 1 => [' ', sign.operator, ' ']

def Term.assembled (t : Term) (texts : List Text) : Text :=
  match t with
  | dice d =>
    Text.ofNat d.count ++ "d".toList ++ Text.ofNat d.faces ++ " (".toList ++
      Text.join ", ".toList texts ++ ")".toList
  | modifier _ => texts.flatten
  | invalid _ => texts.flatten

def Term.shares : List Term → List Text → List Text
  | [], _ => []
  | t :: rest, texts =>
    t.assembled (texts.take t.pieces.length) :: shares rest (texts.drop t.pieces.length)

def Layout.marked (place : Nat) : List (Sign × Text) → Text
  | [] => []
  | (sign, text) :: rest => sign.mark place ++ text ++ marked (place + 1) rest

/- The text of an outcome. The total is the first of the texts and the last thing to be read. -/
def Outcome.assembled (o : Outcome) : List Text → Text
  | [] => []
  | total :: texts =>
    if o.terms = [] then total
    else
      Layout.marked 0 ((o.terms.map Term.sign).zip (Term.shares o.terms texts)) ++
        " = ".toList ++ total

theorem Layout.markedLater (place : Nat) (parts : List (Sign × Text)) :
    marked (place + 1) parts = parts.flatMap fun part => operator part.1 ++ part.2 := by
  induction parts generalizing place with
  | nil => rfl
  | cons part rest ih =>
    rw [marked, ih (place + 1), List.flatMap_cons]
    rfl

theorem Layout.termsMarked (parts : List (Sign × Text)) : terms parts = marked 0 parts := by
  cases parts with
  | nil => rfl
  | cons part rest =>
    rw [marked, markedLater]
    rfl

namespace Renderer
variable {σ : Type}

def ofLeaves (write : Piece → StateM σ Text) : Renderer (StateM σ) where
  die d value := write (.die d value)
  modifier m := write (.modifier m)
  invalid i := write (.invalid i)
  total x := write (.total x)

variable (write : Piece → StateM σ Text)
open Piece (written)

theorem leafWritten (piece : Piece) (s : σ) :
    (write piece).run s = ((written write [piece] s).1.flatten, (written write [piece] s).2) := by
  have alone : ∀ text : Text, [text].flatten = text := List.append_nil
  rw [Piece.writtenCons, written, alone]
  rfl

theorem termWritten (t : Term) (s : σ) :
    ((ofLeaves write).term t).run s =
      (t.assembled (written write t.pieces s).1, (written write t.pieces s).2) := by
  cases t with
  | dice d =>
    have layout : ∀ texts, Layout.dice d texts = (Term.dice d).assembled texts := by
      simp [Layout.dice, Term.assembled]
    rw [Term.pieces, ← Piece.mapMWritten, ← layout]
    rfl
  | modifier m => exact leafWritten write (.modifier m) s
  | invalid i => exact leafWritten write (.invalid i) s

theorem termsWritten (ts : List Term) (s : σ) :
    (ts.mapM (ofLeaves write).term).run s =
      (Term.shares ts (written write (ts.flatMap Term.pieces) s).1,
        (written write (ts.flatMap Term.pieces) s).2) := by
  induction ts generalizing s with
  | nil => rfl
  | cons t rest ih =>
    have step : ((t :: rest).mapM (ofLeaves write).term).run s =
        let (text, between) := ((ofLeaves write).term t).run s
        let (texts, after) := (rest.mapM (ofLeaves write).term).run between
        (text :: texts, after) := by
      rw [List.mapM_cons]
      rfl
    have length := Piece.writtenLength write t.pieces s
    simp only [step, termWritten, ih, List.flatMap_cons, Piece.writtenAppend, Term.shares]
    rw [List.take_left' length, List.drop_left' length]

theorem renderAsked (o : Outcome) {s between : σ} {total : Text}
    (asked : (write (.total o.total)).run s = (total, between)) :
    ((ofLeaves write).render o).run s =
      if o.terms = [] then (total, between)
      else
        let (texts, after) := (o.terms.mapM (ofLeaves write).term).run between
        (Layout.outcome (Layout.terms ((o.terms.map Term.sign).zip texts)) total, after) := by
  have first : (ofLeaves write).total o.total = write (.total o.total) := rfl
  rw [render, StateT.run_bind, first, asked, Outcome.isEmpty]
  cases o.terms <;> rfl

theorem renderWritten (o : Outcome) (s : σ) :
    ((ofLeaves write).render o).run s =
      (o.assembled (written write o.pieces s).1, (written write o.pieces s).2) := by
  obtain ⟨total, between, asked⟩ : ∃ total between,
      (write (.total o.total)).run s = (total, between) := ⟨_, _, rfl⟩
  rw [renderAsked write o asked, termsWritten, Outcome.pieces, Piece.writtenCons, asked,
    Outcome.assembled]
  by_cases nothing : o.terms = []
  · rw [if_pos nothing, if_pos nothing, nothing]
    rfl
  · rw [if_neg nothing, if_neg nothing]
    simp only [Layout.termsMarked]
    rfl

end Renderer

theorem renderingVisitsPieces {σ : Type} (write : Piece → StateM σ Text) (o : Outcome) (s : σ) :
    let visited := Piece.written write o.pieces s
    ((Renderer.ofLeaves write).render o).run s = (o.assembled visited.1, visited.2) ∧
    ((Renderer.ofLeaves (Piece.noting write)).render o).run (s, []) =
      (o.assembled visited.1, visited.2, o.pieces) := by
  intro visited
  refine ⟨Renderer.renderWritten write o s, ?_⟩
  rw [Renderer.renderWritten, Piece.writtenNoting, List.nil_append]

example :
    let d : DiceTerm := ⟨2, 6, false, [5, 5], .negative⟩
    let m : ModifierTerm := ⟨7, .negative⟩
    let count : Piece → StateM Nat Text := fun _ => modifyGet fun n => (Text.ofNat n, n + 1)
    ((Renderer.ofLeaves count).render ⟨[], [.dice d, .modifier m]⟩).run 0 =
      ("-2d6 (1, 2) - 3 = 0".toList, 4) :=
  rfl

end Tabletop
