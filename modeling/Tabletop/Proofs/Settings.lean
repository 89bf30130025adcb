import Tabletop.Proofs.Document.Table
import Tabletop.Settings

/-! Which documents are accepted as settings. A document answers for each field on its own: by the
value under its name, or by saying nothing, which leaves the default. Names and kinds of values
come first and the range of the number of dice last, and what was given is kept as it is. -/
namespace Tabletop.Settings
open Document (Entries Value)

namespace Field

def Held : Field → Type
  | zeroBasedTen => Bool
  | zeroBasedHundred => Bool
  | historyEnabled => Bool
  | format => Format
  | maxDice => Nat

def of (settings : Settings) : (field : Field) → field.Held
  | zeroBasedTen => settings.zeroBasedTen
  | zeroBasedHundred => settings.zeroBasedHundred
  | historyEnabled => settings.historyEnabled
  | format => settings.format
  | maxDice => settings.maxDice

end Field

inductive Nothing : Value → Prop where
  | table (origin : Document.Origin) : Nothing (.table origin [])
  | array : Nothing (.array [])

inductive Names (format : Format) : Value → Prop where
  | text : Names format (.string format.name)
  | table (origin : Document.Origin) {inner : Value} (nothing : Nothing inner) :
      Names format (.table origin [(format.name, inner)])

def Counts (n : Nat) (v : Value) : Prop := v = .integer n ∧ (n : Int) ≤ Amount.highest

namespace Field

def Denotes : (field : Field) → Value → field.Held → Prop
  | zeroBasedTen, v, b => v = .boolean b
  | zeroBasedHundred, v, b => v = .boolean b
  | historyEnabled, v, b => v = .boolean b
  | format, v, f => Names f v
  | maxDice, v, n => Counts n v

def read? : (field : Field) → Value → Option field.Held
  | zeroBasedTen => boolean?
  | zeroBasedHundred => boolean?
  | historyEnabled => boolean?
  | format => format?
  | maxDice => natural?

end Field

theorem boolean?Iff {v : Value} {b : Bool} : boolean? v = some b ↔ v = .boolean b := by
  cases v <;> simp [boolean?]

theorem isNothingIff {v : Value} : isNothing v = true ↔ Nothing v := by
  constructor
  · intro empty
    unfold isNothing at empty
    split at empty
    · cases List.isEmpty_iff.mp empty
      exact .table _
    · cases List.isEmpty_iff.mp empty
      exact .array
    · contradiction
  · rintro (_ | _) <;> rfl

theorem ofName?Iff {name : Text} {format : Format} :
    Format.ofName? name = some format ↔ name = format.name := by
  constructor
  · intro found
    have same := List.find?_some found
    exact (beq_iff_eq.mp same).symm
  · rintro rfl
    exact Format.ofNameName format

theorem format?Iff {v : Value} {f : Format} : format? v = some f ↔ Names f v := by
  constructor
  · intro read
    unfold format? at read
    split at read
    · cases ofName?Iff.mp read
      exact .text
    · split at read
      · rename_i empty
        cases ofName?Iff.mp read
        exact .table _ (isNothingIff.mp empty)
      · contradiction
    · contradiction
  · rintro (_ | ⟨origin, nothing⟩)
    · exact Format.ofNameName f
    · rw [format?, if_pos (isNothingIff.mpr nothing), Format.ofNameName]

theorem natural?Iff {v : Value} (sized : v.Sized) {n : Nat} :
    natural? v = some n ↔ Counts n v := by
  constructor
  · intro read
    unfold natural? at read
    split at read
    · cases read
      exact ⟨rfl, (sized _ rfl).2⟩
    · contradiction
  · rintro ⟨rfl, _⟩
    rfl

theorem Field.denotesIff {v : Value} (sized : v.Sized) (field : Field) {x : field.Held} :
    field.read? v = some x ↔ field.Denotes v x := by
  cases field with
  | zeroBasedTen => exact boolean?Iff
  | zeroBasedHundred => exact boolean?Iff
  | historyEnabled => exact boolean?Iff
  | format => exact format?Iff
  | maxDice => exact natural?Iff sized

def Malformed (entries : Entries) : Prop :=
  (∃ entry ∈ entries, ∀ field : Field, field.key ≠ entry.1) ∨
  ∃ field v, (Field.key field, v) ∈ entries ∧ ∀ x, ¬ field.Denotes v x

def Field.After (entries : Entries) (field : Field) (x : field.Held) : Prop :=
  (∃ v, (field.key, v) ∈ entries ∧ field.Denotes v x) ∨
  (∀ v, (field.key, v) ∉ entries) ∧ x = field.of {}

def Follow (entries : Entries) (settings : Settings) : Prop :=
  ∀ field : Field, field.After entries (field.of settings)

def Asked (entries : Entries) (n : Nat) : Prop := (Field.maxDice.key, .integer n) ∈ entries

def InRange (n : Nat) : Prop := 1 ≤ n ∧ n ≤ 100000

instance (n : Nat) : Decidable (InRange n) := by unfold InRange; infer_instance

theorem namesKnown {entries : Entries} :
    (entries.all fun entry => keys.contains entry.1) = true ↔
      ∀ entry ∈ entries, ∃ field : Field, field.key = entry.1 := by
  rw [List.all_eq_true]
  refine forall₂_congr fun entry _ => ?_
  rw [List.contains_iff_mem, keys, List.mem_map]
  constructor
  · rintro ⟨field, _, same⟩
    exact ⟨field, same⟩
  · rintro ⟨field, same⟩
    exact ⟨field, by cases field <;> decide, same⟩

section Reading
variable {entries : Entries} (table : entries.Table)
include table

theorem sameValue {name : Text} {v other : Value} (member : (name, v) ∈ entries)
    (again : (name, other) ∈ entries) : v = other := by
  have found := (Entries.getIff table).mpr member
  rw [(Entries.getIff table).mpr again] at found
  exact (Option.some.inj found).symm

theorem field?Iff (field : Field) {x : field.Held} :
    field? entries field field.read? (field.of {}) = some x ↔ field.After entries x := by
  unfold field?
  cases found : Entries.get? entries field.key with
  | none =>
    have absent := Entries.getNone.mp found
    constructor
    · intro same
      exact .inr ⟨absent, (Option.some.inj same).symm⟩
    · rintro (⟨v, member, _⟩ | ⟨_, rfl⟩)
      · exact absurd member (absent v)
      · rfl
  | some v =>
    have member := Entries.getMember found
    have sized := table.sized _ member
    constructor
    · intro read
      exact .inl ⟨v, member, (field.denotesIff sized).mp read⟩
    · rintro (⟨other, again, denotes⟩ | ⟨absent, _⟩)
      · rw [← sameValue table member again] at denotes
        exact (field.denotesIff sized).mpr denotes
      · exact absurd member (absent v)

theorem followDenotes {settings : Settings} (follow : Follow entries settings) {field : Field}
    {v : Value} (member : (field.key, v) ∈ entries) : field.Denotes v (field.of settings) := by
  rcases follow field with ⟨other, again, denotes⟩ | ⟨absent, _⟩
  · rwa [sameValue table member again]
  · exact absurd member (absent v)

theorem followEach {settings : Settings} : Follow entries settings ↔ ∀ field : Field,
    field? entries field field.read? (field.of {}) = some (field.of settings) := by
  constructor
  · exact fun follow field => (field?Iff table field).mpr (follow field)
  · exact fun each field => (field?Iff table field).mp (each field)

theorem ofEntries?Follow {settings : Settings} :
    ofEntries? entries = some settings ↔
      (∀ entry ∈ entries, ∃ field : Field, field.key = entry.1) ∧ Follow entries settings := by
  rw [followEach table, ← namesKnown, ofEntries?]
  constructor
  · intro read
    split at read
    · rename_i known
      simp only [bind, Option.bind_eq_some_iff] at read
      obtain ⟨ten, first, hundred, second, history, third, format, fourth, dice, fifth, last⟩ := read
      cases last
      refine ⟨known, ?_⟩
      intro field
      cases field with
      | zeroBasedTen => exact first
      | zeroBasedHundred => exact second
      | historyEnabled => exact third
      | format => exact fourth
      | maxDice => exact fifth
    · contradiction
  · rintro ⟨known, each⟩
    rw [if_pos known]
    simp only [bind, Option.bind_eq_some_iff]
    exact ⟨_, each .zeroBasedTen, _, each .zeroBasedHundred, _, each .historyEnabled, _,
      each .format, _, each .maxDice, rfl⟩

theorem followNotMalformed {settings : Settings} (follow : Follow entries settings)
    (known : ∀ entry ∈ entries, ∃ field : Field, field.key = entry.1) : ¬ Malformed entries := by
  rintro (⟨entry, member, unknown⟩ | ⟨field, v, member, none⟩)
  · obtain ⟨field, same⟩ := known entry member
    exact unknown field same
  · exact none _ (followDenotes table follow member)

theorem ofEntries?Some {settings : Settings} :
    ofEntries? entries = some settings ↔ ¬ Malformed entries ∧ Follow entries settings := by
  rw [ofEntries?Follow table]
  constructor
  · rintro ⟨known, follow⟩
    exact ⟨followNotMalformed table follow known, follow⟩
  · rintro ⟨well, follow⟩
    refine ⟨?_, follow⟩
    intro entry member
    apply Classical.not_forall_not.mp
    exact fun unknown => well (.inl ⟨entry, member, unknown⟩)

theorem ofEntries?None (bad : Malformed entries) : ofEntries? entries = none := by
  apply Option.eq_none_iff_forall_ne_some.mpr
  intro settings read
  exact ((ofEntries?Some table).mp read).1 bad

theorem followUnique {first second : Settings} (well : ¬ Malformed entries)
    (follow : Follow entries first) (again : Follow entries second) : first = second := by
  have read := (ofEntries?Some table).mpr ⟨well, follow⟩
  rw [(ofEntries?Some table).mpr ⟨well, again⟩] at read
  exact (Option.some.inj read).symm

theorem followAsked {settings : Settings} (follow : Follow entries settings) {n : Nat}
    (asked : Asked entries n) : settings.maxDice = n := by
  obtain ⟨same, _⟩ := followDenotes table follow asked
  exact (Int.ofNat.inj (Value.integer.inj same)).symm

end Reading

theorem followOutside {entries : Entries} {settings : Settings} (follow : Follow entries settings)
    (outside : ¬ InRange settings.maxDice) : Asked entries settings.maxDice := by
  rcases follow .maxDice with ⟨v, member, rfl, _⟩ | ⟨_, same⟩
  · exact member
  · have usual : settings.maxDice = defaultMaxDice := same
    have inside : InRange settings.maxDice := usual ▸ (by decide : InRange defaultMaxDice)
    exact absurd inside outside

theorem followExists {entries : Entries} (well : ¬ Malformed entries) :
    ∃ settings, Follow entries settings := by
  have answer : ∀ field : Field, ∃ x, field.After entries x := by
    intro field
    by_cases given : ∃ v, (field.key, v) ∈ entries
    · obtain ⟨v, member⟩ := given
      have some : ∃ x, field.Denotes v x := by
        apply Classical.not_forall_not.mp
        exact fun none => well (.inr ⟨field, v, member, none⟩)
      obtain ⟨x, denotes⟩ := some
      exact ⟨x, .inl ⟨v, member, denotes⟩⟩
    · exact ⟨field.of {}, .inr ⟨fun v member => given ⟨v, member⟩, rfl⟩⟩
  choose held after using answer
  refine ⟨⟨held .zeroBasedTen, held .zeroBasedHundred, held .historyEnabled, held .format,
    held .maxDice⟩, ?_⟩
  intro field
  cases field
  all_goals exact after _

/- The three answers. The range is looked at only after the document was found well formed. -/
inductive Answered (parsed : Option Entries) : Except SettingsError Settings → Prop where
  | malformed (bad : ∀ entries, parsed = some entries → Malformed entries) :
      Answered parsed (.error .malformed)
  | outside {entries : Entries} {n : Nat} (read : parsed = some entries)
      (well : ¬ Malformed entries) (asked : Asked entries n) (outside : ¬ InRange n) :
      Answered parsed (.error (.maxDice n))
  | accepted {entries : Entries} {settings : Settings} (read : parsed = some entries)
      (well : ¬ Malformed entries) (inside : ∀ n, Asked entries n → InRange n)
      (follow : Follow entries settings) : Answered parsed (.ok settings)

theorem ofTextAnswered (s : Text) : Answered (Document.parse? s) (ofText s) := by
  unfold ofText
  cases parsed : Document.parse? s with
  | none => exact .malformed fun _ same => nomatch same
  | some entries =>
    have table := Document.parseTable parsed
    rw [Option.bind_some]
    by_cases bad : Malformed entries
    · rw [ofEntries?None table bad]
      exact .malformed fun _ same => Option.some.inj same ▸ bad
    · obtain ⟨settings, follow⟩ := followExists bad
      rw [(ofEntries?Some table).mpr ⟨bad, follow⟩]
      change Answered (some entries) settings.validate
      by_cases inside : InRange settings.maxDice
      · have valid : settings.validate = .ok settings := if_pos inside
        rw [valid]
        refine .accepted rfl bad (fun n asked => ?_) follow
        rwa [← followAsked table follow asked]
      · have refused : settings.validate = .error (.maxDice settings.maxDice) := if_neg inside
        rw [refused]
        exact .outside rfl bad (followOutside follow inside) inside

theorem answeredUnique {parsed : Option Entries}
    (tables : ∀ entries, parsed = some entries → entries.Table)
    {first second : Except SettingsError Settings} (answered : Answered parsed first)
    (again : Answered parsed second) : first = second := by
  cases answered with
  | malformed bad =>
    cases again with
    | malformed _ => rfl
    | outside read well _ _ => exact absurd (bad _ read) well
    | accepted read well _ _ => exact absurd (bad _ read) well
  | @outside entries n read well asked outside =>
    have table := tables entries read
    cases again with
    | malformed bad => exact absurd (bad _ read) well
    | outside reread _ reasked _ =>
      cases Option.some.inj (read.symm.trans reread)
      obtain ⟨settings, follow⟩ := followExists well
      rw [← followAsked table follow asked, ← followAsked table follow reasked]
    | accepted reread _ inside _ =>
      cases Option.some.inj (read.symm.trans reread)
      exact absurd (inside n asked) outside
  | @accepted entries settings read well inside follow =>
    have table := tables entries read
    cases again with
    | malformed bad => exact absurd (bad _ read) well
    | outside reread _ asked outside =>
      cases Option.some.inj (read.symm.trans reread)
      exact absurd (inside _ asked) outside
    | accepted reread _ _ refollow =>
      cases Option.some.inj (read.symm.trans reread)
      rw [followUnique table well follow refollow]

theorem ofTextIff {s : Text} {answer : Except SettingsError Settings} :
    ofText s = answer ↔ Answered (Document.parse? s) answer := by
  constructor
  · rintro rfl
    exact ofTextAnswered s
  · exact answeredUnique (fun _ => Document.parseTable) (ofTextAnswered s)

theorem settingsAcceptedWhenValid (s : Text) :
    (∀ entries, Document.parse? s = some entries → entries.Table) ∧
    (ofText s = .error .malformed ↔ Document.parse? s = none ∨
      ∃ entries, Document.parse? s = some entries ∧ Malformed entries) ∧
    (∀ n, ofText s = .error (.maxDice n) ↔
      ∃ entries, Document.parse? s = some entries ∧ ¬ Malformed entries ∧
        Asked entries n ∧ ¬ InRange n) ∧
    (∀ settings, ofText s = .ok settings ↔
      ∃ entries, Document.parse? s = some entries ∧ ¬ Malformed entries ∧
        (∀ n, Asked entries n → InRange n) ∧ Follow entries settings) ∧
    ((∃ settings, ofText s = .ok settings) ↔
      ∃ entries, Document.parse? s = some entries ∧ ¬ Malformed entries ∧
        ∀ n, Asked entries n → InRange n) := by
  refine ⟨fun _ => Document.parseTable, ?_, ?_, ?_, ?_⟩
  · rw [ofTextIff]
    constructor
    · rintro ⟨bad⟩
      cases parsed : Document.parse? s with
      | none => exact .inl rfl
      | some entries => exact .inr ⟨entries, rfl, bad entries parsed⟩
    · rintro (none | ⟨entries, read, bad⟩)
      · exact .malformed fun _ same => nomatch none.symm.trans same
      · exact .malformed fun _ same => Option.some.inj (read.symm.trans same) ▸ bad
  · intro n
    rw [ofTextIff]
    constructor
    · rintro (_ | ⟨read, well, asked, outside⟩)
      exact ⟨_, read, well, asked, outside⟩
    · rintro ⟨entries, read, well, asked, outside⟩
      exact .outside read well asked outside
  · intro settings
    rw [ofTextIff]
    constructor
    · rintro (_ | _ | ⟨read, well, inside, follow⟩)
      exact ⟨_, read, well, inside, follow⟩
    · rintro ⟨entries, read, well, inside, follow⟩
      exact .accepted read well inside follow
  · constructor
    · rintro ⟨settings, loaded⟩
      cases ofTextIff.mp loaded with
      | accepted read well inside _ => exact ⟨_, read, well, inside⟩
    · rintro ⟨entries, read, well, inside⟩
      obtain ⟨settings, follow⟩ := followExists well
      exact ⟨settings, ofTextIff.mpr (.accepted read well inside follow)⟩

end Tabletop.Settings
