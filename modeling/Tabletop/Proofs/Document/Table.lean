import Mathlib.Data.List.Nodup
import Tabletop.Amount
import Tabletop.Document.Statement

/-! The table that is read from a document. Whatever the statements are and in whatever order, it
has each name once, and its integers are words of 64 bits; both are kept by every statement. -/
namespace Tabletop.Document

def Value.Sized (v : Value) : Prop := ∀ n, v = .integer n → Amount.Fits n

structure Entries.Table (entries : Entries) : Prop where
  distinct : (entries.map Prod.fst).Nodup
  sized : ∀ entry ∈ entries, entry.2.Sized

namespace Entries

theorem tableNil : Table [] := ⟨List.nodup_nil, by simp⟩

theorem getMember {entries : Entries} {name : Text} {v : Value} (found : get? entries name = some v) :
    (name, v) ∈ entries := by
  obtain ⟨entry, first, rfl⟩ := Option.map_eq_some_iff.mp found
  have same : entry.1 = name := by simpa using List.find?_some first
  rw [← same]
  exact List.mem_of_find?_eq_some first

theorem getNone {entries : Entries} {name : Text} :
    get? entries name = none ↔ ∀ v, (name, v) ∉ entries := by
  simp only [get?, Option.map_eq_none_iff, List.find?_eq_none, beq_iff_eq]
  constructor
  · exact fun absent v member => absent (name, v) member rfl
  · rintro absent ⟨other, v⟩ member rfl
    exact absent v member

theorem getIff {entries : Entries} (table : entries.Table) {name : Text} {v : Value} :
    get? entries name = some v ↔ (name, v) ∈ entries := by
  constructor
  · exact getMember
  · intro member
    cases found : get? entries name with
    | none => exact absurd member (getNone.mp found v)
    | some other =>
      have same := List.inj_on_of_nodup_map table.distinct (getMember found) member rfl
      exact congrArg some (Prod.mk.inj same).2

theorem putMember {entries : Entries} {name : Text} {v : Value} {entry : Text × Value}
    (member : entry ∈ put entries name v) : entry = (name, v) ∨ entry ∈ entries := by
  induction entries with
  | nil => exact .inl (List.mem_singleton.mp member)
  | cons head rest ih =>
    obtain ⟨n, old⟩ := head
    rw [put] at member
    split at member
    · rename_i same
      rcases List.mem_cons.mp member with first | later
      · exact .inl (same ▸ first)
      · exact .inr (List.mem_cons_of_mem _ later)
    · rcases List.mem_cons.mp member with first | later
      · exact .inr (first ▸ List.mem_cons_self)
      · exact (ih later).imp_right (List.mem_cons_of_mem _)

theorem putNames {entries : Entries} {name : Text} {v : Value}
    (distinct : (entries.map Prod.fst).Nodup) : ((put entries name v).map Prod.fst).Nodup := by
  induction entries with
  | nil => simp [put]
  | cons head rest ih =>
    obtain ⟨n, old⟩ := head
    obtain ⟨fresh, others⟩ := List.nodup_cons.mp distinct
    rw [put]
    split
    · exact distinct
    · rename_i other
      refine List.nodup_cons.mpr ⟨?_, ih others⟩
      intro member
      obtain ⟨entry, inside, same⟩ := List.mem_map.mp member
      rcases putMember inside with rfl | old
      · exact other same.symm
      · exact fresh (same ▸ List.mem_map_of_mem old)

theorem tablePut {entries : Entries} (table : entries.Table) (name : Text) {v : Value}
    (sized : v.Sized) : (put entries name v).Table := by
  refine ⟨putNames table.distinct, ?_⟩
  intro entry member
  rcases putMember member with rfl | old
  · exact sized
  · exact table.sized entry old

theorem tableSized (origin : Origin) (inner : Entries) : (Value.table origin inner).Sized :=
  fun _ same => nomatch same

theorem tablesSized (items : List Entries) : (Value.tables items).Sized :=
  fun _ same => nomatch same

theorem tableWithin {dotted : Bool} {change : Origin → Entries → Option Entries}
    (kept : ∀ origin inner after, Table inner → change origin inner = some after → Table after)
    {path : List Text} {origin : Origin} {entries after : Entries} (table : entries.Table)
    (done : within? dotted change path origin entries = some after) : after.Table := by
  cases path with
  | nil => exact kept origin entries after table done
  | cons name path =>
    rw [within?] at done
    split at done
    · obtain ⟨inner, _, last⟩ := Option.bind_eq_some_iff.mp done
      cases last
      exact tablePut table name (tableSized _ _)
    · split at done
      · contradiction
      · obtain ⟨inner, _, last⟩ := Option.bind_eq_some_iff.mp done
        cases last
        exact tablePut table name (tableSized _ _)
    · split at done
      · contradiction
      · obtain ⟨inner, _, last⟩ := Option.bind_eq_some_iff.mp done
        cases last
        exact tablePut table name (tablesSized _)
    · contradiction

theorem tableAssign {entries after : Entries} {key : Key} {v : Value} (table : entries.Table)
    (sized : v.Sized) (done : entries.assign? key v = some after) : after.Table := by
  refine tableWithin ?_ table done
  intro origin inner changed held step
  split at step
  · contradiction
  · split at step
    · contradiction
    · cases step
      exact tablePut held key.name sized

theorem tableDefine {entries after : Entries} {key : Key} (table : entries.Table)
    (done : entries.define? key = some after) : after.Table := by
  refine tableWithin ?_ table done
  intro origin inner changed held step
  split at step
  · cases step
    exact tablePut held key.name (tableSized _ _)
  · cases step
    exact tablePut held key.name (tableSized _ _)
  · contradiction

theorem tableAppend {entries after : Entries} {key : Key} (table : entries.Table)
    (done : entries.append? key = some after) : after.Table := by
  refine tableWithin ?_ table done
  intro origin inner changed held step
  split at step
  · cases step
    exact tablePut held key.name (tablesSized _)
  · cases step
    exact tablePut held key.name (tablesSized _)
  · contradiction

end Entries

theorem Scalar.readSized {s rest : Text} {v : Value} (read : Scalar.read s = some (v, rest)) :
    v.Sized := by
  rintro n rfl
  obtain ⟨value, found, same⟩ := Option.map_eq_some_iff.mp read
  cases same
  unfold ofText? at found
  split at found
  · cases found
  · split at found
    · cases found
    · split at found
      · rename_i number
        cases found
        obtain ⟨_, fits⟩ := Option.filter_eq_some_iff.mp number
        simp only [Bool.and_eq_true, decide_eq_true_eq] at fits
        simp only [Amount.Fits, Amount.lowest, Amount.highest]
        omega
      · split at found <;> cases found

namespace Statement

theorem itemsArray {fuel : Nat} {read : List Value} {s rest : Text} {v : Value}
    (done : itemsFrom read fuel s = some (v, rest)) : ∃ items, v = .array items := by
  induction fuel generalizing read s with
  | zero => rw [itemsFrom] at done; contradiction
  | succ fuel ih =>
    rw [itemsFrom] at done
    split at done
    · contradiction
    · cases done
      exact ⟨_, rfl⟩
    · obtain ⟨⟨item, tail⟩, _, last⟩ := Option.bind_eq_some_iff.mp done
      dsimp only at last
      split at last
      · exact ih last
      · cases last
        exact ⟨_, rfl⟩
      · contradiction

theorem pairsTable {fuel : Nat} {entries : Entries} {s rest : Text} {v : Value}
    (done : pairsFrom entries fuel s = some (v, rest)) : ∃ inner, v = .table .inline inner := by
  induction fuel generalizing entries s with
  | zero => rw [pairsFrom] at done; contradiction
  | succ fuel ih =>
    rw [pairsFrom] at done
    split at done
    · obtain ⟨⟨value, tail⟩, _, more⟩ := Option.bind_eq_some_iff.mp done
      obtain ⟨longer, _, last⟩ := Option.bind_eq_some_iff.mp more
      split at last
      · exact ih last
      · cases last
        exact ⟨_, rfl⟩
      · contradiction
    · contradiction

theorem valueSized {fuel : Nat} {s rest : Text} {v : Value}
    (done : valueFrom fuel s = some (v, rest)) : v.Sized := by
  unfold valueFrom at done
  split at done
  · contradiction
  · split at done
    · obtain ⟨items, rfl⟩ := itemsArray done
      exact fun _ same => nomatch same
    · split at done
      · cases done
        exact Entries.tableSized _ _
      · obtain ⟨inner, rfl⟩ := pairsTable done
        exact Entries.tableSized _ _
    · obtain ⟨pair, _, last⟩ := Option.map_eq_some_iff.mp done
      cases last
      exact fun _ same => nomatch same
    · obtain ⟨pair, _, last⟩ := Option.map_eq_some_iff.mp done
      cases last
      exact fun _ same => nomatch same
    · exact Scalar.readSized done

def Sized : Statement → Prop
  | assign _ v => v.Sized
  | header _ => True
  | element _ => True

theorem readSized {s rest : Text} {statement : Statement}
    (done : read? s = some (statement, rest)) : statement.Sized := by
  unfold read? at done
  split at done
  · split at done
    · obtain ⟨tail, _, last⟩ := Option.map_eq_some_iff.mp done
      cases last
      trivial
    · contradiction
  · split at done
    · obtain ⟨tail, _, last⟩ := Option.map_eq_some_iff.mp done
      cases last
      trivial
    · contradiction
  · split at done
    · obtain ⟨⟨v, tail⟩, value, more⟩ := Option.bind_eq_some_iff.mp done
      obtain ⟨tail, _, last⟩ := Option.map_eq_some_iff.mp more
      cases last
      exact valueSized value
    · contradiction

theorem allFromSized {fuel : Nat} {s : Text} {statements : List Statement}
    (done : allFrom fuel s = some statements) : ∀ statement ∈ statements, statement.Sized := by
  induction fuel generalizing s statements with
  | zero => contradiction
  | succ fuel ih =>
    cases s with
    | nil =>
      cases done
      simp
    | cons c text =>
      obtain ⟨⟨first, tail⟩, head, more⟩ := Option.bind_eq_some_iff.mp done
      obtain ⟨others, later, rfl⟩ := Option.map_eq_some_iff.mp more
      exact List.forall_mem_cons.mpr ⟨readSized head, ih later⟩

end Statement

namespace Draft

theorem stepTable {d after : Draft} {statement : Statement} (table : d.root.Table)
    (sized : statement.Sized) (done : step? d statement = some after) : after.root.Table := by
  cases statement with
  | assign key v =>
    obtain ⟨root, found, rfl⟩ := Option.map_eq_some_iff.mp done
    exact Entries.tableWithin (fun _ _ _ held => Entries.tableAssign held sized) table found
  | header key =>
    obtain ⟨root, found, rfl⟩ := Option.map_eq_some_iff.mp done
    exact Entries.tableDefine table found
  | element key =>
    obtain ⟨root, found, rfl⟩ := Option.map_eq_some_iff.mp done
    exact Entries.tableAppend table found

theorem runTable {statements : List Statement} {d after : Draft} (table : d.root.Table)
    (sized : ∀ statement ∈ statements, statement.Sized)
    (done : statements.foldlM step? d = some after) : after.root.Table := by
  induction statements generalizing d with
  | nil =>
    cases done
    exact table
  | cons statement rest ih =>
    rw [List.foldlM_cons] at done
    obtain ⟨between, head, later⟩ := Option.bind_eq_some_iff.mp done
    obtain ⟨first, others⟩ := List.forall_mem_cons.mp sized
    exact ih (stepTable table first head) others later

end Draft

theorem parseTable {s : Text} {entries : Entries} (parsed : parse? s = some entries) :
    entries.Table := by
  obtain ⟨draft, built, rfl⟩ := Option.map_eq_some_iff.mp parsed
  obtain ⟨statements, read, run⟩ := Option.bind_eq_some_iff.mp built
  obtain ⟨rest, _, all⟩ := Option.bind_eq_some_iff.mp read
  exact Draft.runTable Entries.tableNil (Statement.allFromSized all) run

end Tabletop.Document
