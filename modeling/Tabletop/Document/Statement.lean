import Tabletop.Document.Value
/-! Entries of a table, and what a line of a document may still do to them: no key is given
twice, no table is defined twice, and a dotted key stays within tables made by dotted keys. -/
namespace Tabletop.Document.Entries

def get? (entries : Entries) (name : Text) : Option Value :=
  (entries.find? (·.1 == name)).map (·.2)

def put (entries : Entries) (name : Text) (value : Value) : Entries :=
  match entries with
  | [] => [(name, value)]
  | (n, v) :: rest => if n = name then (n, value) :: rest else (n, v) :: put rest name value

/-- Changes the table at the end of a path and makes the tables that are missing on the way. Of
an array of tables the last one is entered. -/
def within? (dotted : Bool) (change : Origin → Entries → Option Entries) :
    List Text → Origin → Entries → Option Entries
  | [], origin, entries => change origin entries
  | name :: path, _, entries =>
    match get? entries name with
    | none => do
      let origin := if dotted then Origin.dotted else Origin.implied
      let inner ← within? dotted change path origin []
      some (put entries name (.table origin inner))
    | some (.table origin inner) =>
      if origin = .inline ∨ (dotted ∧ origin = .header) then none
      else do
        let inner ← within? dotted change path origin inner
        some (put entries name (.table origin inner))
    | some (.tables items) =>
      match items.getLast? with
      | none => none
      | some last => do
        let last ← within? dotted change path .header last
        some (put entries name (.tables (items.dropLast ++ [last])))
    | some _ => none

def assign? (entries : Entries) (key : Key) (value : Value) : Option Entries :=
  let change (origin : Origin) (inner : Entries) : Option Entries :=
    if key.path ≠ [] ∧ origin ≠ .dotted then none
    else if (get? inner key.name).isSome then none
    else some (put inner key.name value)
  within? true change key.path .header entries

def define? (entries : Entries) (key : Key) : Option Entries :=
  let change (_ : Origin) (inner : Entries) : Option Entries :=
    match get? inner key.name with
    | none => some (put inner key.name (.table .header []))
    | some (.table .implied found) => some (put inner key.name (.table .header found))
    | some _ => none
  within? false change key.path .header entries

def append? (entries : Entries) (key : Key) : Option Entries :=
  let change (_ : Origin) (inner : Entries) : Option Entries :=
    match get? inner key.name with
    | none => some (put inner key.name (.tables [[]]))
    | some (.tables items) => some (put inner key.name (.tables (items ++ [[]])))
    | some _ => none
  within? false change key.path .header entries

end Tabletop.Document.Entries

/-! The statements of a TOML text: assignments, table headers, and headers of one more table in
an array. Each statement has its line to itself. -/
namespace Tabletop.Document

inductive Statement where
  | assign (key : Key) (value : Value)
  | header (key : Key)
  | element (key : Key)
  deriving Repr

namespace Statement
open Quotation (isGap isPlain line? string?)

def isNameCharacter (c : Char) : Bool := c.isAlphanum || c == '_' || c == '-'

def gaps (s : Text) : Text := s.dropWhile isGap

def skip? (inComment : Bool) : Text → Option Text
  | [] => some []
  | '\n' :: rest => skip? false rest
  | '\r' :: '\n' :: rest => skip? false rest
  | c :: rest =>
    if inComment then if isPlain c then skip? true rest else none
    else if c = '#' then skip? true rest
    else if isGap c then skip? false rest
    else some (c :: rest)

def lineEnd? (s : Text) : Option Text :=
  match gaps s with
  | [] => some []
  | '#' :: rest => skip? true rest
  | '\n' :: rest => skip? false rest
  | '\r' :: '\n' :: rest => skip? false rest
  | _ => none

def name? (s : Text) : Option (Text × Text) :=
  match s with
  | '"' :: _ => line? s
  | '\'' :: _ => line? s
  | _ =>
    match s.takeWhile isNameCharacter with
    | [] => none
    | name => some (name, s.dropWhile isNameCharacter)

def keyFrom (before : List Text) : Nat → Text → Option (Key × Text)
  | 0, _ => none
  | fuel + 1, s =>
    (name? (gaps s)).bind fun (name, rest) =>
      match gaps rest with
      | '.' :: rest => keyFrom (name :: before) fuel rest
      | rest => some (⟨before.reverse, name⟩, rest)

def key? (s : Text) : Option (Key × Text) := keyFrom [] (s.length + 1) s

mutual

def valueFrom : Nat → Text → Option (Value × Text)
  | 0, _ => none
  | fuel + 1, s =>
    match s with
    | '[' :: rest => itemsFrom [] fuel rest
    | '\x7b' :: rest =>
      match gaps rest with
      | '\x7d' :: rest => some (.table .inline [], rest)
      | rest => pairsFrom [] fuel rest
    | '"' :: _ => (string? s).map fun (text, rest) => (.string text, rest)
    | '\'' :: _ => (string? s).map fun (text, rest) => (.string text, rest)
    | _ => Scalar.read s

def itemsFrom (read : List Value) : Nat → Text → Option (Value × Text)
  | 0, _ => none
  | fuel + 1, s =>
    match skip? false s with
    | none => none
    | some (']' :: rest) => some (.array read.reverse, rest)
    | some s =>
      (valueFrom fuel s).bind fun (item, rest) =>
        match skip? false rest with
        | some (',' :: rest) => itemsFrom (item :: read) fuel rest
        | some (']' :: rest) => some (.array (item :: read).reverse, rest)
        | _ => none

def pairsFrom (entries : Entries) : Nat → Text → Option (Value × Text)
  | 0, _ => none
  | fuel + 1, s =>
    match key? s with
    | some (key, '=' :: rest) =>
      (valueFrom fuel (gaps rest)).bind fun (value, rest) =>
        (entries.assign? key value).bind fun entries =>
          match gaps rest with
          | ',' :: rest => pairsFrom entries fuel rest
          | '\x7d' :: rest => some (.table .inline entries, rest)
          | _ => none
    | _ => none

end

/-- Each call but those that read a value takes a character, so twice the length suffices. -/
def value? (s : Text) : Option (Value × Text) := valueFrom (2 * s.length + 1) s

def read? (s : Text) : Option (Statement × Text) :=
  match s with
  | '[' :: '[' :: rest =>
    match key? rest with
    | some (key, ']' :: ']' :: rest) => (lineEnd? rest).map fun rest => (element key, rest)
    | _ => none
  | '[' :: rest =>
    match key? rest with
    | some (key, ']' :: rest) => (lineEnd? rest).map fun rest => (header key, rest)
    | _ => none
  | _ =>
    match key? s with
    | some (key, '=' :: rest) =>
      (value? (gaps rest)).bind fun (value, rest) =>
        (lineEnd? rest).map fun rest => (assign key value, rest)
    | _ => none

def allFrom : Nat → Text → Option (List Statement)
  | 0, _ => none
  | _ + 1, [] => some []
  | fuel + 1, s =>
    (read? s).bind fun (statement, rest) => (allFrom fuel rest).map (statement :: ·)

def all? (s : Text) : Option (List Statement) :=
  let body := match s with
    | '\uFEFF' :: rest => rest
    | _ => s
  (skip? false body).bind fun rest => allFrom (rest.length + 1) rest

end Statement

/-! A document is the table that its statements build, one after another. Assignments go to the
current table, which is that of the last header or, before any header, the root. -/

structure Draft where
  root : Entries
  current : List Text
  deriving Repr

namespace Draft

def empty : Draft := ⟨[], []⟩

def step? (d : Draft) : Statement → Option Draft
  | .assign key value =>
    (Entries.within? false (fun _ inner => inner.assign? key value) d.current .header d.root).map
      fun root => { d with root }
  | .header key => (d.root.define? key).map fun root => ⟨root, key.path ++ [key.name]⟩
  | .element key => (d.root.append? key).map fun root => ⟨root, key.path ++ [key.name]⟩

def ofStatements? (statements : List Statement) : Option Draft := statements.foldlM step? empty

end Draft

def parse? (s : Text) : Option Entries :=
  ((Statement.all? s).bind Draft.ofStatements?).map Draft.root

end Tabletop.Document
