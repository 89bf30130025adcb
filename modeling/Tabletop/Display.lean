import Tabletop.Roll.Evaluate
/-! Renderings of an outcome. A renderer has one function per piece and may act in any monad;
the pieces that it does not replace are laid out from the smaller ones. -/
namespace Tabletop

namespace Layout

def dice (d : DiceTerm) (dies : List Text) : Text :=
  Text.ofNat d.count ++ 'd' :: Text.ofNat d.faces ++ " (".toList ++ Text.join ", ".toList dies ++
    ")".toList

def operator (sign : Sign) : Text := [' ', sign.operator, ' ']

def terms : List (Sign × Text) → Text
  | [] => []
  | (sign, text) :: rest =>
    (if sign.isNegative then ['-'] else []) ++ text ++
      rest.flatMap fun (sign, text) => operator sign ++ text

def outcome (terms total : Text) : Text := terms ++ " = ".toList ++ total

end Layout

structure Renderer (m : Type → Type) [Monad m] where
  die : DiceTerm → Nat → m Text := fun _ value => pure (Text.ofNat value)
  modifier : ModifierTerm → m Text := fun term => pure (Text.ofNat term.value)
  invalid : InvalidTerm → m Text := fun term => pure term.raw
  total : Int → m Text := fun total => pure (Text.ofInt total)
  dice : DiceTerm → m Text := fun term => do
    let dies ← term.outcomes.mapM (die term)
    pure (Layout.dice term dies)
  term : Term → m Text := fun
    | .dice term => dice term
    | .modifier term => modifier term
    | .invalid term => invalid term
  terms : List Term → m Text := fun terms => do
    let texts ← terms.mapM term
    pure (Layout.terms ((terms.map Term.sign).zip texts))

namespace Renderer
variable {m : Type → Type} [Monad m]

def render (r : Renderer m) (o : Outcome) : m Text := do
  let total ← r.total o.total
  if o.isEmpty then pure total
  else
    let terms ← r.terms o.terms
    pure (Layout.outcome terms total)

end Renderer

/-! The two styles of the library: plain text, and markdown, which marks the extreme faces, the
terms that could not be rolled, and the total. -/

namespace Markdown

def bold (s : Text) : Text := "**".toList ++ s ++ "**".toList
def struck (s : Text) : Text := "~~".toList ++ s ++ "~~".toList
def code (s : Text) : Text := '\x60' :: s ++ ['\x60']

def isExtreme (d : DiceTerm) (value : Nat) : Bool :=
  1 < d.faces && (value == d.range.low || value == d.range.high)

end Markdown

namespace Renderer
variable {m : Type → Type} [Monad m]

def plain : Renderer m := {}

def markdown : Renderer m where
  die term value :=
    let text := Text.ofNat value
    pure (if Markdown.isExtreme term value then Markdown.bold text else text)
  invalid term := pure (Markdown.struck term.raw)
  total total := pure (Markdown.code (Text.ofInt total))

end Renderer

/-! What is shown of a roll: the total alone, or the breakdown in one of the two styles. -/

inductive Format where
  | total
  | breakdown
  | markdown
  deriving DecidableEq, Repr

instance : Inhabited Format := ⟨.breakdown⟩

structure UnknownFormat where
  name : Text
  deriving DecidableEq, Repr

def UnknownFormat.message (e : UnknownFormat) : Text := "invalid variant: ".toList ++ e.name

namespace Format

def all : List Format := [total, breakdown, markdown]

def name : Format → Text
  | total => "total".toList
  | breakdown => "breakdown".toList
  | markdown => "markdown".toList

def ofName? (name : Text) : Option Format := all.find? (·.name == name)

def parse (ignoreCase : Bool) (name : Text) : Except UnknownFormat Format :=
  match ofName? (if ignoreCase then name.map Char.toLower else name) with
  | some format => .ok format
  | none => .error ⟨name⟩

def render (format : Format) (o : Outcome) : Text :=
  match format with
  | total => Text.ofInt o.total
  | breakdown => Id.run ((Renderer.plain (m := Id)).render o)
  | markdown => Id.run ((Renderer.markdown (m := Id)).render o)

theorem ofNameName (format : Format) : ofName? format.name = some format := by
  cases format <;> decide

end Format
end Tabletop
