import Tabletop.Text

/-! Texts put together around a separator. A separator that no part contains shows where the
parts end, so the parts can be told from the text; if only one side is free of it, the first or
the last separator does. -/
namespace Tabletop.Text

theorem firstSeparator {c : Char} {a b s t : Text} (left : c ∉ a) (right : c ∉ b)
    (same : a ++ c :: s = b ++ c :: t) : a = b ∧ s = t := by
  induction a generalizing b with
  | nil =>
    cases b with
    | nil => exact ⟨rfl, (List.cons.inj same).2⟩
    | cons d rest =>
      cases (List.cons.inj same).1
      exact absurd List.mem_cons_self right
  | cons d rest ih =>
    cases b with
    | nil =>
      cases (List.cons.inj same).1
      exact absurd List.mem_cons_self left
    | cons e others =>
      obtain ⟨rfl, tails⟩ := List.cons.inj same
      have first : c ∉ rest := fun member => left (List.mem_cons_of_mem d member)
      have second : c ∉ others := fun member => right (List.mem_cons_of_mem d member)
      obtain ⟨rfl, ends⟩ := ih first second tails
      exact ⟨rfl, ends⟩

theorem lastSeparator {c : Char} {a b s t : Text} (left : c ∉ s) (right : c ∉ t)
    (same : a ++ c :: s = b ++ c :: t) : a = b ∧ s = t := by
  have backwards : s.reverse ++ c :: a.reverse = t.reverse ++ c :: b.reverse := by
    simpa using congrArg List.reverse same
  obtain ⟨ends, starts⟩ := firstSeparator (by simpa using left) (by simpa using right) backwards
  exact ⟨List.reverse_inj.mp starts, List.reverse_inj.mp ends⟩

theorem joinMember {separator : Text} {parts : List Text} {c : Char}
    (member : c ∈ join separator parts) : c ∈ separator ∨ ∃ part ∈ parts, c ∈ part := by
  cases parts with
  | nil => contradiction
  | cons first rest =>
    rcases List.mem_append.mp member with early | late
    · exact .inr ⟨first, List.mem_cons_self, early⟩
    · obtain ⟨part, inside, found⟩ := List.mem_flatMap.mp late
      rcases List.mem_append.mp found with gap | later
      · exact .inl gap
      · exact .inr ⟨part, List.mem_cons_of_mem first inside, later⟩

def Part (c : Char) (s : Text) : Prop := s ≠ [] ∧ c ∉ s

theorem partsInjective {c : Char} {gap x y : Text} {xs ys : List Text} (first : c ∉ x)
    (second : c ∉ y) (left : ∀ part ∈ xs, c ∉ part) (right : ∀ part ∈ ys, c ∉ part)
    (same : x ++ xs.flatMap (c :: gap ++ ·) = y ++ ys.flatMap (c :: gap ++ ·)) :
    x = y ∧ xs = ys := by
  induction xs generalizing x y ys with
  | nil =>
    cases ys with
    | nil => simpa using same
    | cons z more =>
      rw [List.flatMap_nil, List.append_nil, List.flatMap_cons] at same
      exact absurd (by simp [same]) first
  | cons w rest ih =>
    cases ys with
    | nil =>
      rw [List.flatMap_nil, List.append_nil, List.flatMap_cons] at same
      exact absurd (by simp [← same]) second
    | cons z more =>
      simp only [List.flatMap_cons, List.cons_append, List.append_assoc] at same
      obtain ⟨rfl, tails⟩ := firstSeparator first second same
      obtain ⟨rfl, others⟩ := ih (left w List.mem_cons_self) (right z List.mem_cons_self)
        (fun part inside => left part (List.mem_cons_of_mem w inside))
        (fun part inside => right part (List.mem_cons_of_mem z inside))
        (List.append_cancel_left tails)
      exact ⟨rfl, congrArg (w :: ·) others⟩

theorem joinInjective {c : Char} {gap : Text} {xs ys : List Text} (left : ∀ x ∈ xs, Part c x)
    (right : ∀ y ∈ ys, Part c y) (same : join (c :: gap) xs = join (c :: gap) ys) : xs = ys := by
  cases xs with
  | nil =>
    cases ys with
    | nil => rfl
    | cons y others => exact absurd (List.append_eq_nil_iff.mp same.symm).1 (right y (by simp)).1
  | cons x rest =>
    cases ys with
    | nil => exact absurd (List.append_eq_nil_iff.mp same).1 (left x (by simp)).1
    | cons y others =>
      obtain ⟨rfl, tails⟩ := partsInjective (left x (by simp)).2 (right y (by simp)).2
        (fun part inside => (left part (List.mem_cons_of_mem x inside)).2)
        (fun part inside => (right part (List.mem_cons_of_mem y inside)).2) same
      rw [tails]

/- Parts of one character each are told apart by their places, even if they hold the separator. -/
theorem placesInjective {separator xs ys : Text}
    (same : (xs.map ([·])).flatMap (separator ++ ·) = (ys.map ([·])).flatMap (separator ++ ·)) :
    xs = ys := by
  induction xs generalizing ys with
  | nil =>
    cases ys with
    | nil => rfl
    | cons d others => exact absurd same (by simp)
  | cons c rest ih =>
    cases ys with
    | nil => exact absurd same (by simp)
    | cons d others =>
      simp only [List.map_cons, List.flatMap_cons, List.append_assoc] at same
      obtain ⟨rfl, tails⟩ := List.cons.inj (List.append_cancel_left same)
      rw [ih tails]

theorem singlesInjective {separator xs ys : Text}
    (same : join separator (xs.map ([·])) = join separator (ys.map ([·]))) : xs = ys := by
  cases xs with
  | nil =>
    cases ys with
    | nil => rfl
    | cons d others => contradiction
  | cons c rest =>
    cases ys with
    | nil => contradiction
    | cons d others =>
      obtain ⟨rfl, tails⟩ := List.cons.inj same
      rw [placesInjective tails]

end Tabletop.Text
