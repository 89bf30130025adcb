/-! Numbering of die faces. Ten-sided and hundred-sided dice may each be read from zero; every
other die counts from one. -/
namespace Tabletop

structure FaceRange where
  low : Nat
  high : Nat
  deriving DecidableEq, Repr

def FaceRange.contains (r : FaceRange) (x : Nat) : Bool := r.low ≤ x && x ≤ r.high

structure Numbering where
  zeroBasedTen : Bool := false
  zeroBasedHundred : Bool := false
  deriving DecidableEq, Repr, Inhabited

namespace Numbering

def isZeroBased (n : Numbering) : Nat → Bool
  | 10 => n.zeroBasedTen
  | 100 => n.zeroBasedHundred
  | _ => false

def offset (n : Numbering) (faces : Nat) : Nat := (n.isZeroBased faces).toNat

def range (n : Numbering) (faces : Nat) : FaceRange :=
  ⟨1 - n.offset faces, faces - n.offset faces⟩

theorem offsetLe (n : Numbering) (faces : Nat) : n.offset faces ≤ 1 := Bool.toNat_le _

end Numbering

/-! A roller answers a number of faces with a face between one and that number and moves to its
next state. One dice term asks once per die. -/

structure Roller (σ : Type) where
  roll : σ → Nat → Nat × σ

namespace Roller
variable {σ : Type}

def facesFrom (r : Roller σ) (faces : Nat) : Nat → List Nat → σ → List Nat × σ
  | 0, rolled, s => (rolled.reverse, s)
  | count + 1, rolled, s => facesFrom r faces count ((r.roll s faces).1 :: rolled) (r.roll s faces).2

def faces (r : Roller σ) (faces count : Nat) (s : σ) : List Nat × σ := facesFrom r faces count [] s

def outcomes (r : Roller σ) (n : Numbering) (count faces : Nat) (s : σ) : List Nat × σ :=
  let (rolled, after) := r.faces faces count s
  (rolled.map (· - n.offset faces), after)

theorem facesFromLength (r : Roller σ) (faces count : Nat) (rolled : List Nat) (s : σ) :
    (facesFrom r faces count rolled s).1.length = rolled.length + count := by
  induction count generalizing rolled s with
  | zero => simp [facesFrom]
  | succ count ih => simp [facesFrom, ih]; omega

theorem outcomesLength (r : Roller σ) (n : Numbering) (count faces : Nat) (s : σ) :
    (r.outcomes n count faces s).1.length = count := by
  simp [outcomes, Roller.faces, facesFromLength]

def stepping (step : Nat) : Roller Nat where
  roll current faces := ((current - 1) % faces + 1, current + step)

/-- The state is the values that are still to come before the first one comes again. -/
def cycling (values : List Nat) : Roller (List Nat) where
  roll coming faces :=
    match coming, values with
    | v :: rest, _ => (v % faces + 1, rest)
    | [], v :: rest => (v % faces + 1, rest)
    | [], [] => (1, [])

end Roller
end Tabletop
