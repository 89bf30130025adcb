import Mathlib.Data.List.Basic
import Mathlib.Data.List.Induction
import Tabletop.Console.Session

/-! A log against the whole list of what was done to it. An entry survives when the log was on at
its turn and nothing cleared the log later; the log holds the newest survivors, up to its
capacity. Cutting after every entry is therefore the same as cutting once at the end. -/
namespace Tabletop.History
variable {α : Type}

inductive Action (α : Type) where
  | record (entry : α)
  | setEnabled (on : Bool)
  | clear
  deriving DecidableEq, Repr

namespace Action

def switch? : Action α → Option Bool
  | setEnabled on => some on
  | _ => none

def isClear : Action α → Bool
  | clear => true
  | _ => false

end Action

def step (h : History α) : Action α → History α
  | .record entry => h.record entry
  | .setEnabled on => h.setEnabled on
  | .clear => h.clear

def run (h : History α) (actions : List (Action α)) : History α := actions.foldl step h

/- A log is on until it is switched; then the last switch counts. -/
def isOn (actions : List (Action α)) : Bool := (actions.filterMap Action.switch?).getLast?.getD true

def survivor? (actions : List (Action α)) (turn : Nat) : Option α :=
  match actions[turn]? with
  | some (.record entry) =>
    if isOn (actions.take turn) && !(actions.drop turn).any Action.isClear then some entry else none
  | _ => none

/- Newest first. -/
def survivors (actions : List (Action α)) : List α :=
  (List.range actions.length).reverse.filterMap (survivor? actions)

theorem isOnSnoc (actions : List (Action α)) (action : Action α) :
    isOn (actions ++ [action]) = action.switch?.getD (isOn actions) := by
  unfold isOn
  cases action <;> simp [Action.switch?]

theorem survivorEarlier (actions : List (Action α)) (action : Action α) {turn : Nat}
    (early : turn < actions.length) :
    survivor? (actions ++ [action]) turn =
      if action.isClear then none else survivor? actions turn := by
  unfold survivor?
  rw [List.getElem?_append_left early, List.take_append_of_le_length (Nat.le_of_lt early),
    List.drop_append_of_le_length (Nat.le_of_lt early), List.any_append]
  cases clears : action.isClear with
  | false => simp [clears]
  | true =>
    cases actions[turn]? with
    | none => rfl
    | some taken => cases taken <;> simp [clears]

theorem survivorLast (actions : List (Action α)) (action : Action α) :
    survivor? (actions ++ [action]) actions.length =
      match action with
      | .record entry => if isOn actions then some entry else none
      | _ => none := by
  unfold survivor?
  rw [List.getElem?_concat_length, List.take_left, List.drop_left]
  cases action <;> simp [Action.isClear]

def Action.keep (on : Bool) (kept : List α) : Action α → List α
  | record entry => if on then entry :: kept else kept
  | setEnabled _ => kept
  | clear => []

theorem survivorsSnoc (actions : List (Action α)) (action : Action α) :
    survivors (actions ++ [action]) = action.keep (isOn actions) (survivors actions) := by
  have turns : (List.range (actions ++ [action]).length).reverse =
      actions.length :: (List.range actions.length).reverse := by
    rw [List.length_append, List.length_singleton, List.range_succ, List.reverse_concat]
  have same : ∀ turn ∈ (List.range actions.length).reverse,
      survivor? (actions ++ [action]) turn =
        if action.isClear then none else survivor? actions turn := by
    intro turn member
    exact survivorEarlier actions action (List.mem_range.mp (List.mem_reverse.mp member))
  have earlier : (List.range actions.length).reverse.filterMap (survivor? (actions ++ [action])) =
      if action.isClear then [] else survivors actions := by
    rw [List.filterMap_congr same]
    cases action.isClear <;> simp [survivors]
  rw [survivors, turns, List.filterMap_cons, survivorLast, earlier]
  cases action with
  | record entry => cases on : isOn actions <;> simp [Action.keep, Action.isClear]
  | setEnabled off => rfl
  | clear => rfl

theorem takeConsTake (capacity : Nat) (entry : α) (entries : List α) :
    (entry :: entries.take capacity).take capacity = (entry :: entries).take capacity := by
  cases capacity with
  | zero => rfl
  | succ room =>
    rw [List.take_succ_cons, List.take_succ_cons, List.take_take, Nat.min_eq_left (Nat.le_succ room)]

theorem stepKept (kept : List α) (capacity : Nat) (on : Bool) (action : Action α) :
    step ⟨kept.take capacity, capacity, on⟩ action =
      ⟨(action.keep on kept).take capacity, capacity, action.switch?.getD on⟩ := by
  cases action with
  | record entry =>
    cases on with
    | false => rfl
    | true =>
      cases capacity with
      | zero => rfl
      | succ room => exact congrArg (mk · (room + 1) true) (takeConsTake (room + 1) entry kept)
  | setEnabled off => rfl
  | clear => exact congrArg (mk · capacity on) List.take_nil.symm

theorem runSnoc (h : History α) (actions : List (Action α)) (action : Action α) :
    h.run (actions ++ [action]) = (h.run actions).step action := by
  simp [run]

theorem runSurvivors (capacity : Nat) (actions : List (Action α)) :
    (ofCapacity capacity).run actions =
      ⟨(survivors actions).take capacity, capacity, isOn actions⟩ := by
  induction actions using List.reverseRecOn with
  | nil => exact congrArg (mk · capacity true) List.take_nil.symm
  | append_singleton actions action ih => rw [runSnoc, ih, stepKept, survivorsSnoc, isOnSnoc]

theorem runOff (entries : List α) (capacity : Nat) {actions : List (Action α)}
    (quiet : ∀ action ∈ actions, action.switch? ≠ some true) :
    run ⟨entries, capacity, false⟩ actions =
      ⟨if actions.any Action.isClear then [] else entries, capacity, false⟩ := by
  induction actions generalizing entries with
  | nil => rfl
  | cons action rest ih =>
    have later : ∀ action ∈ rest, action.switch? ≠ some true := by
      intro other member
      exact quiet other (List.mem_cons_of_mem action member)
    cases action with
    | record entry => exact ih entries later
    | setEnabled on =>
      cases on with
      | false => exact ih entries later
      | true => exact absurd rfl (quiet _ List.mem_cons_self)
    | clear =>
      have cleared : run ⟨entries, capacity, false⟩ (.clear :: rest) =
          run ⟨[], capacity, false⟩ rest := rfl
      rw [cleared, ih [] later]
      simp [Action.isClear]

theorem historyKeepsNewestSurvivors (capacity : Nat) (actions : List (Action α)) :
    let h := (ofCapacity capacity).run actions
    let kept := (survivors actions).take capacity
    h.entries = kept ∧ h.latest? = kept.head? ∧
    h.length = min capacity (survivors actions).length ∧ h.length ≤ capacity ∧
    (h.isEmpty = true ↔ survivors actions = [] ∨ capacity = 0) ∧
    (∀ on, (h.setEnabled on).entries = kept) ∧
    (∀ quiet : List (Action α), (∀ action ∈ quiet, action.switch? ≠ some true) →
      (((h.setEnabled false).run quiet).setEnabled true).entries =
        if quiet.any Action.isClear then [] else kept) := by
  intro h kept
  have state : h = ⟨kept, capacity, isOn actions⟩ := runSurvivors capacity actions
  have length : h.length = min capacity (survivors actions).length := by
    rw [state]
    exact List.length_take
  refine ⟨?_, ?_, length, length ▸ Nat.min_le_left _ _, ?_, ?_, ?_⟩
  · rw [state]
  · rw [state]
    rfl
  · rw [state, isEmpty, List.isEmpty_iff, List.take_eq_nil_iff, or_comm]
  · intro on
    rw [state]
    rfl
  · intro quiet calm
    rw [state]
    exact congrArg entries (runOff kept capacity calm)

theorem historyKeepsNewestSurvivorsSwitched :
    let actions : List (Action Nat) := [.record 1, .clear, .record 2, .record 3, .setEnabled false,
      .record 4, .setEnabled true, .record 5]
    let quiet : List (Action Nat) := [.record 6, .setEnabled false, .record 7]
    (∀ action ∈ quiet, action.switch? ≠ some true) ∧
    ((ofCapacity 2).run actions).entries = [5, 3] ∧
    ((((ofCapacity 2).run actions).setEnabled false).run quiet |>.setEnabled true).entries =
      [5, 3] := by
  intro actions quiet
  have calm : ∀ action ∈ quiet, action.switch? ≠ some true := by decide
  obtain ⟨held, _, _, _, _, _, back⟩ := historyKeepsNewestSurvivors 2 actions
  exact ⟨calm, held.trans (by decide), (back quiet calm).trans (by decide)⟩

end Tabletop.History
