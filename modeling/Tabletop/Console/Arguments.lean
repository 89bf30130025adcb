import Tabletop.Settings
/-! The arguments of the console. They are read from left to right and the first thing that
settles the matter wins: a misuse, a request for help or for the version. An option with a value
has it behind an equals sign or as the next argument; none may be given twice. -/
namespace Tabletop.Console

structure Arguments where
  config : Option Text := none
  seed : Option Nat := none
  format : Option Format := none
  zeroBasedTen : Bool := false
  zeroBasedHundred : Bool := false
  noHistory : Bool := false
  deriving DecidableEq, Repr

inductive Invocation where
  | run (arguments : Arguments)
  | version
  | help
  | misuse
  deriving DecidableEq, Repr

namespace Arguments

def raise? (a : Arguments) (name : Text) : Option Arguments :=
  if name = "zero-based-d10".toList then
    if a.zeroBasedTen then none else some { a with zeroBasedTen := true }
  else if name = "zero-based-d100".toList then
    if a.zeroBasedHundred then none else some { a with zeroBasedHundred := true }
  else if name = "no-history".toList then
    if a.noHistory then none else some { a with noHistory := true }
  else none

def takesValue (name : Text) : Bool :=
  ["config".toList, "seed".toList, "format".toList].contains name

def assign? (a : Arguments) (name value : Text) : Option Arguments :=
  if name = "config".toList then
    if a.config.isSome || value.isEmpty then none else some { a with config := some value }
  else if name = "seed".toList then
    if a.seed.isSome then none
    else (Text.unsigned? UInt64.size value).map fun seed => { a with seed := some seed }
  else if name = "format".toList then
    if a.format.isSome then none
    else (Format.ofName? value).map fun format => { a with format := some format }
  else none

/-- A lone dash is a value; everything else behind a dash is an option. -/
def isValue : Text → Bool
  | '-' :: _ :: _ => false
  | _ => true

def readFrom (a : Arguments) : List Text → Invocation
  | [] => .run a
  | ['-', '-'] :: rest => if rest.isEmpty then .run a else .misuse
  | ('-' :: '-' :: option) :: rest =>
    let name := option.takeWhile (· != '=')
    match option.dropWhile (· != '='), rest with
    | _ :: value, rest =>
      match assign? a name value with
      | some a => readFrom a rest
      | none => .misuse
    | [], rest =>
      if name = "version".toList then .version
      else if name = "help".toList then .help
      else if takesValue name then
        match rest with
        | [] => .misuse
        | value :: rest =>
          match if isValue value then assign? a name value else none with
          | some a => readFrom a rest
          | none => .misuse
      else
        match raise? a name with
        | some a => readFrom a rest
        | none => .misuse
  | ('-' :: 'V' :: _) :: _ => .version
  | ('-' :: 'h' :: _) :: _ => .help
  | _ => .misuse

def read (arguments : List Text) : Invocation := readFrom {} arguments

def override (a : Arguments) (s : Settings) : Settings where
  zeroBasedTen := s.zeroBasedTen || a.zeroBasedTen
  zeroBasedHundred := s.zeroBasedHundred || a.zeroBasedHundred
  historyEnabled := s.historyEnabled && !a.noHistory
  format := a.format.getD s.format
  maxDice := s.maxDice

def settings (a : Arguments) (read : Text → Except ReadFault Text.Bytes) :
    Except SettingsError Settings :=
  match a.config with
  | none => .ok (a.override {})
  | some path => (Settings.load read path).map a.override

end Arguments
end Tabletop.Console
