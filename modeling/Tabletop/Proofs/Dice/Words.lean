import Tabletop.Proofs.Dice.Answers
import Tabletop.Term

/-! The arithmetic of a die in unsigned 32-bit words. A difference below zero has no value there,
nor has a sum beyond the last word. With a roller that answers within the faces neither occurs,
and the three places that lower a die by one agree on its range. -/
namespace Tabletop

namespace Word

def sub? (a b : Nat) : Option Nat := if b ≤ a then some (a - b) else none

def add? (a b : Nat) : Option Nat := if a + b < UInt32.size then some (a + b) else none

end Word

def Numbering.range? (n : Numbering) (faces : Nat) : Option FaceRange := do
  let low ← Word.sub? 1 (n.offset faces)
  let high ← Word.sub? faces (n.offset faces)
  some ⟨low, high⟩

def DiceTerm.range? (d : DiceTerm) : Option FaceRange := do
  let low := (!d.zeroBased).toNat
  let below ← Word.sub? d.faces 1
  let high ← Word.add? below low
  some ⟨low, high⟩

theorem FaceRange.containsIff {r : FaceRange} {x : Nat} :
    r.contains x = true ↔ r.low ≤ x ∧ x ≤ r.high := by
  simp [contains]

namespace Numbering

theorem rangeWords (n : Numbering) {faces : Nat} (real : 0 < faces) :
    n.range? faces = some (n.range faces) := by
  have low : n.offset faces ≤ 1 := n.offsetLe faces
  have high : n.offset faces ≤ faces := Nat.le_trans low real
  simp [range?, range, Word.sub?, low, high]

theorem isZeroBasedIff (n : Numbering) (faces : Nat) :
    n.isZeroBased faces = true ↔
      faces = 10 ∧ n.zeroBasedTen = true ∨ faces = 100 ∧ n.zeroBasedHundred = true := by
  unfold isZeroBased
  split
  · simp
  · simp
  · rename_i notTen notHundred
    constructor
    · intro never
      contradiction
    · rintro (⟨ten, _⟩ | ⟨hundred, _⟩)
      · exact (notTen ten).elim
      · exact (notHundred hundred).elim

theorem rangeCases (n : Numbering) (faces : Nat) :
    n.range faces =
      if faces = 10 ∧ n.zeroBasedTen = true ∨ faces = 100 ∧ n.zeroBasedHundred = true
      then ⟨0, faces - 1⟩ else ⟨1, faces⟩ := by
  simp only [← isZeroBasedIff]
  unfold range offset
  cases n.isZeroBased faces <;> rfl

theorem shownInRange (n : Numbering) {faces face : Nat} (low : 1 ≤ face) (high : face ≤ faces) :
    (n.range faces).contains (n.shown faces face) = true := by
  rw [FaceRange.containsIff, ← subOffset]
  exact ⟨Nat.sub_le_sub_right low _, Nat.sub_le_sub_right high _⟩

end Numbering

namespace DiceTerm

theorem rangeNumbering {n : Numbering} {d : DiceTerm} (kept : d.zeroBased = n.isZeroBased d.faces)
    (real : 0 < d.faces) : d.range = n.range d.faces := by
  unfold range Numbering.range Numbering.offset
  rw [kept]
  cases n.isZeroBased d.faces with
  | false =>
    have back : d.faces - 1 + 1 = d.faces := Nat.sub_add_cancel real
    simp [back]
  | true => simp

theorem rangeWords {d : DiceTerm} (real : 0 < d.faces) (word : d.faces < UInt32.size) :
    d.range? = some d.range := by
  have one : (!d.zeroBased).toNat ≤ 1 := Bool.toNat_le _
  have fits : d.faces - 1 + (!d.zeroBased).toNat < UInt32.size := by omega
  have below : Word.sub? d.faces 1 = some (d.faces - 1) := if_pos real
  have high : Word.add? (d.faces - 1) (!d.zeroBased).toNat =
      some (d.faces - 1 + (!d.zeroBased).toNat) := if_pos fits
  simp [range?, range, below, high]

end DiceTerm

namespace Roller
variable {σ : Type}

def Within (r : Roller σ) : Prop :=
  ∀ s faces, 0 < faces → faces < UInt32.size → 1 ≤ (r.roll s faces).1 ∧ (r.roll s faces).1 ≤ faces

def rolls (r : Roller σ) (asked : List Nat) (s : σ) : List (Nat × Nat) :=
  asked.zip (r.answers asked s).1

theorem rollsCons (r : Roller σ) (faces : Nat) (rest : List Nat) (s : σ) :
    r.rolls (faces :: rest) s =
      (faces, (r.roll s faces).1) :: r.rolls rest (r.roll s faces).2 := rfl

theorem shownRolls (r : Roller σ) (n : Numbering) (asked : List Nat) (s : σ) :
    r.shown n asked s = (r.rolls asked s).map fun roll => n.shown roll.1 roll.2 := by
  rw [shown, rolls, List.map_zip_eq_zipWith]
  rfl

theorem rollsWithin {r : Roller σ} (within : r.Within) {asked : List Nat}
    (real : ∀ faces ∈ asked, 0 < faces ∧ faces < UInt32.size) (s : σ) :
    ∀ roll ∈ r.rolls asked s, 1 ≤ roll.2 ∧ roll.2 ≤ roll.1 := by
  induction asked generalizing s with
  | nil => simp [rolls]
  | cons faces rest ih =>
    intro roll member
    rw [rollsCons] at member
    rcases List.mem_cons.mp member with rfl | later
    · obtain ⟨some, word⟩ := real faces List.mem_cons_self
      exact within s faces some word
    · exact ih (fun other inside => real other (List.mem_cons_of_mem faces inside)) _ roll later

theorem outcomesInRange {r : Roller σ} (within : r.Within) (n : Numbering) (count : Nat)
    {faces : Nat} (real : 0 < faces) (word : faces < UInt32.size) (s : σ) :
    ∀ x ∈ (r.outcomes n count faces s).1, (n.range faces).contains x = true := by
  have each : ∀ asked ∈ List.replicate count faces, 0 < asked ∧ asked < UInt32.size := by
    intro asked member
    cases List.eq_of_mem_replicate member
    exact ⟨real, word⟩
  intro x member
  rw [outcomesAnswers, shownRolls] at member
  obtain ⟨⟨asked, face⟩, inside, rfl⟩ := List.mem_map.mp member
  obtain ⟨low, high⟩ := rollsWithin within each s _ inside
  cases List.eq_of_mem_replicate (List.of_mem_zip inside).1
  exact n.shownInRange low high

theorem rollsWords {r : Roller σ} (n : Numbering) {asked : List Nat} {s : σ}
    (positive : ∀ roll ∈ r.rolls asked s, 1 ≤ roll.2) :
    (r.rolls asked s).mapM (fun roll => Word.sub? roll.2 (n.offset roll.1)) =
      some (r.shown n asked s) := by
  induction asked generalizing s with
  | nil => rfl
  | cons faces rest ih =>
    rw [rollsCons] at positive
    have first : n.offset faces ≤ (r.roll s faces).1 :=
      Nat.le_trans (n.offsetLe faces) (positive _ List.mem_cons_self)
    have others := ih fun roll inside => positive roll (List.mem_cons_of_mem _ inside)
    have lowered : Word.sub? (r.roll s faces).1 (n.offset faces) =
        some (n.shown faces (r.roll s faces).1) := by
      rw [Word.sub?, if_pos first, n.subOffset]
    rw [rollsCons, List.mapM_cons, lowered, others]
    rfl

theorem steppingWithin (step : Nat) : (stepping step).Within := by
  intro current faces real _
  have small : (current - 1) % faces < faces := Nat.mod_lt _ real
  exact ⟨Nat.le_add_left 1 _, small⟩

theorem cyclingWithin (values : List Nat) : (cycling values).Within := by
  intro coming faces real _
  have small : ∀ v, v % faces < faces := fun v => Nat.mod_lt v real
  cases coming with
  | cons v rest => exact ⟨Nat.le_add_left 1 _, small v⟩
  | nil =>
    cases values with
    | cons v rest => exact ⟨Nat.le_add_left 1 _, small v⟩
    | nil => exact ⟨Nat.le_refl 1, real⟩

end Roller
end Tabletop
