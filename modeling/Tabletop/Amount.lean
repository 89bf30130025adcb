/-! Amounts are integers kept within signed 64-bit words. One dice sum wraps around the ends
of the range; a total that would leave it stops at the nearer end. -/
namespace Tabletop.Amount

def lowest : Int := -0x8000000000000000
def highest : Int := 0x7FFFFFFFFFFFFFFF

def Fits (x : Int) : Prop := lowest ≤ x ∧ x ≤ highest
instance (x : Int) : Decidable (Fits x) := by unfold Fits; infer_instance

/-- The representative modulo 2^64 that fits. -/
def wrap (x : Int) : Int := Int.bmod x 0x10000000000000000

def clamp (x : Int) : Int := max lowest (min highest x)

theorem wrapFits (x : Int) : Fits (wrap x) := by
  have low := Int.le_bmod (x := x) (m := 0x10000000000000000) (by decide)
  have high := Int.bmod_lt (x := x) (m := 0x10000000000000000) (by decide)
  simp only [Fits, lowest, highest, wrap]
  omega

theorem wrapOfFits {x : Int} (h : Fits x) : wrap x = x := by
  simp only [Fits, lowest, highest] at h
  exact Int.bmod_eq_of_le_mul_two (by omega) (by omega)

theorem clampFits (x : Int) : Fits (clamp x) := by
  simp only [Fits, lowest, highest, clamp]
  omega

theorem clampOfFits {x : Int} (h : Fits x) : clamp x = x := by
  simp only [Fits, lowest, highest] at h
  simp only [clamp, lowest, highest]
  omega

end Tabletop.Amount

/-! The sign of a term, as its operator states it. -/
namespace Tabletop

inductive Sign where
  | positive
  | negative
  deriving DecidableEq, Repr, Inhabited

namespace Sign

def ofOperator? : Char → Option Sign
  | '+' => some .positive
  | '-' => some .negative
  | _ => none

def operator : Sign → Char
  | positive => '+'
  | negative => '-'

def isNegative : Sign → Bool
  | positive => false
  | negative => true

/-- The negative of the lowest amount is the lowest amount again. -/
def apply : Sign → Int → Int
  | positive, x => x
  | negative, x => Amount.wrap (-x)

theorem ofOperatorOperator (s : Sign) : ofOperator? s.operator = some s := by
  cases s <;> rfl

theorem operatorOfOperator {c : Char} {s : Sign} (h : ofOperator? c = some s) : s.operator = c := by
  unfold ofOperator? at h
  split at h <;> simp_all [operator] <;> subst h <;> rfl

theorem applyNegative {x : Int} (fits : Amount.Fits (-x)) : negative.apply x = -x :=
  Amount.wrapOfFits fits

end Sign
end Tabletop
