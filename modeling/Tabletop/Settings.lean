import Tabletop.Display
import Tabletop.Document.Statement
/-! Preferences, as a TOML document gives them. Five keys are known, each with a default; a
document that is not TOML, has another key or a value of another kind is malformed, and that is
found before the number of dice is compared with its range. -/
namespace Tabletop

inductive ReadFault where
  | notFound
  | isDirectory
  | notUnicode
  | other (message : Text)
  deriving DecidableEq, Repr

def ReadFault.message : ReadFault → Text
  | notFound => "No such file or directory (os error 2)".toList
  | isDirectory => "Is a directory (os error 21)".toList
  | notUnicode => "stream did not contain valid UTF-8".toList
  | other message => message

inductive SettingsError where
  | unreadable (path : Text) (fault : ReadFault)
  | malformed
  | maxDice (value : Nat)
  deriving DecidableEq, Repr

/-- The wording of a malformed document ends where a colon and the complaint of the parser would
follow, since `Document.parse?` gives no reason. -/
def SettingsError.message : SettingsError → Text
  | unreadable path fault =>
    "failed to read config file at ".toList ++ Text.quoted path ++ ": ".toList ++ fault.message
  | malformed => "invalid TOML in config".toList
  | maxDice value =>
    "max_dice = ".toList ++ Text.ofNat value ++ " is out of range (1..=".toList ++
      Text.ofNat maxDiceCeiling ++ ")".toList

structure Settings where
  zeroBasedTen : Bool := false
  zeroBasedHundred : Bool := false
  historyEnabled : Bool := true
  format : Format := .breakdown
  maxDice : Nat := defaultMaxDice
  deriving DecidableEq, Repr

namespace Settings

instance : Inhabited Settings := ⟨{}⟩

def boolean? : Document.Value → Option Bool
  | .boolean b => some b
  | _ => none

def natural? : Document.Value → Option Nat
  | .integer (.ofNat n) => some n
  | _ => none

def isNothing : Document.Value → Bool
  | .table _ entries => entries.isEmpty
  | .array items => items.isEmpty
  | _ => false

def format? : Document.Value → Option Format
  | .string name => Format.ofName? name
  | .table _ [(name, value)] => if isNothing value then Format.ofName? name else none
  | _ => none

inductive Field where
  | zeroBasedTen
  | zeroBasedHundred
  | historyEnabled
  | format
  | maxDice
  deriving DecidableEq, Repr

def Field.key : Field → Text
  | zeroBasedTen => "zero_based_d10".toList
  | zeroBasedHundred => "zero_based_d100".toList
  | historyEnabled => "history_enabled".toList
  | format => "copy_format".toList
  | maxDice => "max_dice".toList

def keys : List Text :=
  [Field.zeroBasedTen, .zeroBasedHundred, .historyEnabled, .format, .maxDice].map Field.key

def field? {α : Type} (entries : Document.Entries) (field : Field) (ofValue : Document.Value → Option α)
    (default : α) : Option α :=
  match entries.get? field.key with
  | none => some default
  | some value => ofValue value

def ofEntries? (entries : Document.Entries) : Option Settings :=
  if entries.all fun entry => keys.contains entry.1 then do
    let zeroBasedTen ← field? entries .zeroBasedTen boolean? false
    let zeroBasedHundred ← field? entries .zeroBasedHundred boolean? false
    let historyEnabled ← field? entries .historyEnabled boolean? true
    let format ← field? entries .format format? .breakdown
    let maxDice ← field? entries .maxDice natural? defaultMaxDice
    some ⟨zeroBasedTen, zeroBasedHundred, historyEnabled, format, maxDice⟩
  else none

def validate (s : Settings) : Except SettingsError Settings :=
  if 1 ≤ s.maxDice ∧ s.maxDice ≤ maxDiceCeiling then .ok s else .error (.maxDice s.maxDice)

def ofText (s : Text) : Except SettingsError Settings :=
  match (Document.parse? s).bind ofEntries? with
  | some settings => settings.validate
  | none => .error .malformed

def load (read : Text → Except ReadFault Text.Bytes) (path : Text) :
    Except SettingsError Settings :=
  match read path with
  | .error fault => .error (.unreadable path fault)
  | .ok bytes =>
    match Text.decode? bytes with
    | some s => ofText s
    | none => .error (.unreadable path .notUnicode)

def options (s : Settings) : Options := ⟨⟨s.zeroBasedTen, s.zeroBasedHundred⟩, s.maxDice⟩

theorem validateOk {s t : Settings} :
    validate s = .ok t ↔ s = t ∧ 1 ≤ s.maxDice ∧ s.maxDice ≤ maxDiceCeiling := by
  unfold validate
  split
  · rename_i inside
    simp [inside]
  · rename_i outside
    simp only [reduceCtorEq, false_iff]
    rintro ⟨_, low, high⟩
    exact outside ⟨low, high⟩

end Settings
end Tabletop
