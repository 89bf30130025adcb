import Tabletop.Dice.Roller

/-! The answers of a roller to a list of questions, each a number of faces, put to it one after
the other. The dice of one term are one such list, and a roller that notes its questions down
gives the same answers. -/
namespace Tabletop

def Numbering.shown (n : Numbering) (faces face : Nat) : Nat :=
  if n.isZeroBased faces then face - 1 else face

theorem Numbering.subOffset (n : Numbering) (faces face : Nat) :
    face - n.offset faces = n.shown faces face := by
  unfold offset shown
  cases n.isZeroBased faces <;> rfl

namespace Roller
variable {σ : Type}

def answers (r : Roller σ) : List Nat → σ → List Nat × σ
  | [], s => ([], s)
  | faces :: rest, s =>
    let (face, next) := r.roll s faces
    let (others, last) := r.answers rest next
    (face :: others, last)

def recording (r : Roller σ) : Roller (σ × List Nat) where
  roll s faces := ((r.roll s.1 faces).1, (r.roll s.1 faces).2, s.2 ++ [faces])

def Positive (r : Roller σ) : Prop := ∀ s faces, 0 < faces → 1 ≤ (r.roll s faces).1

theorem answersCons (r : Roller σ) (faces : Nat) (rest : List Nat) (s : σ) :
    r.answers (faces :: rest) s =
      ((r.roll s faces).1 :: (r.answers rest (r.roll s faces).2).1,
        (r.answers rest (r.roll s faces).2).2) := rfl

theorem answersAppend (r : Roller σ) (xs ys : List Nat) (s : σ) :
    r.answers (xs ++ ys) s =
      ((r.answers xs s).1 ++ (r.answers ys (r.answers xs s).2).1,
        (r.answers ys (r.answers xs s).2).2) := by
  induction xs generalizing s with
  | nil => rfl
  | cons faces rest ih => rw [List.cons_append, answersCons, ih, answersCons, List.cons_append]

theorem answersRepeated {r : Roller σ} {asked answered : List Nat} {s : σ}
    (back : r.answers asked s = (answered, s)) (times : Nat) :
    r.answers (List.replicate times asked).flatten s =
      ((List.replicate times answered).flatten, s) := by
  induction times with
  | zero => rfl
  | succ times ih =>
    rw [List.replicate_succ, List.flatten_cons, answersAppend, back, ih, List.replicate_succ,
      List.flatten_cons]

theorem answersLength (r : Roller σ) (asked : List Nat) (s : σ) :
    (r.answers asked s).1.length = asked.length := by
  induction asked generalizing s with
  | nil => rfl
  | cons faces rest ih => rw [answersCons, List.length_cons, ih, List.length_cons]

theorem answersRecording (r : Roller σ) (asked : List Nat) (s : σ) (log : List Nat) :
    r.recording.answers asked (s, log) =
      ((r.answers asked s).1, (r.answers asked s).2, log ++ asked) := by
  induction asked generalizing s log with
  | nil => rw [List.append_nil]; rfl
  | cons faces rest ih =>
    have step : r.recording.roll (s, log) faces =
        ((r.roll s faces).1, (r.roll s faces).2, log ++ [faces]) := rfl
    rw [answersCons, step, ih, answersCons, List.append_assoc, List.singleton_append]

theorem answersPositive {r : Roller σ} (positive : r.Positive) {asked : List Nat}
    (real : ∀ faces ∈ asked, 0 < faces) (s : σ) : ∀ face ∈ (r.answers asked s).1, 1 ≤ face := by
  induction asked generalizing s with
  | nil => simp [answers]
  | cons faces rest ih =>
    intro face member
    rw [answersCons] at member
    rcases List.mem_cons.mp member with rfl | later
    · exact positive s faces (real faces (by simp))
    · exact ih (fun f h => real f (by simp [h])) _ face later

theorem facesFromAnswers (r : Roller σ) (faces count : Nat) (rolled : List Nat) (s : σ) :
    facesFrom r faces count rolled s =
      (rolled.reverse ++ (r.answers (List.replicate count faces) s).1,
        (r.answers (List.replicate count faces) s).2) := by
  -- The faces already rolled wait in reverse order, and the rest is asked for one by one.
  induction count generalizing rolled s with
  | zero => rw [List.replicate_zero, answers, List.append_nil]; rfl
  | succ count ih =>
    rw [facesFrom, ih, List.replicate_succ, answersCons, List.reverse_cons, List.append_assoc,
      List.singleton_append]

def shown (r : Roller σ) (n : Numbering) (asked : List Nat) (s : σ) : List Nat :=
  List.zipWith n.shown asked (r.answers asked s).1

theorem shownAppend (r : Roller σ) (n : Numbering) (xs ys : List Nat) (s : σ) :
    r.shown n (xs ++ ys) s = r.shown n xs s ++ r.shown n ys (r.answers xs s).2 := by
  unfold shown
  rw [answersAppend, List.zipWith_append (r.answersLength xs s).symm]

theorem shownReplicate (r : Roller σ) (n : Numbering) (count faces : Nat) (s : σ) :
    r.shown n (List.replicate count faces) s =
      (r.answers (List.replicate count faces) s).1.map (n.shown faces) := by
  unfold shown
  induction count generalizing s with
  | zero => rfl
  | succ count ih =>
    rw [List.replicate_succ, answersCons, List.zipWith_cons_cons, ih, List.map_cons]

theorem outcomesAnswers (r : Roller σ) (n : Numbering) (count faces : Nat) (s : σ) :
    r.outcomes n count faces s =
      (r.shown n (List.replicate count faces) s,
        (r.answers (List.replicate count faces) s).2) := by
  have lowered : (· - n.offset faces) = n.shown faces := funext (n.subOffset faces)
  rw [outcomes, Roller.faces, facesFromAnswers, lowered, shownReplicate]
  rfl

theorem outcomesPlain (r : Roller σ) {n : Numbering} {faces : Nat}
    (plain : n.isZeroBased faces = false) (count : Nat) (s : σ) :
    (r.outcomes n count faces s).1 = (r.answers (List.replicate count faces) s).1 := by
  have shown : n.shown faces = id := by
    funext face
    rw [Numbering.shown, plain]
    rfl
  rw [outcomesAnswers, shownReplicate, shown, List.map_id]

theorem outcomesRecording (r : Roller σ) (n : Numbering) (count faces : Nat) (s : σ)
    (log : List Nat) :
    r.recording.outcomes n count faces (s, log) =
      ((r.outcomes n count faces s).1, (r.outcomes n count faces s).2,
        log ++ List.replicate count faces) := by
  rw [outcomesAnswers, outcomesAnswers, shown, answersRecording, shown]

end Roller
end Tabletop
