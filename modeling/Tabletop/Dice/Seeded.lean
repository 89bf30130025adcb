import Tabletop.Dice.Roller
/-! Even draws from 32-bit words. The product of a word and the number of faces has the face in
its upper half; words whose lower half lies beyond the zone are passed over, so that every face
is left with equally many words. -/
namespace Tabletop

structure WordSource (σ : Type) where
  next : σ → UInt32 × σ

namespace WordSource

def ofList : WordSource (List UInt32) where
  next
    | [] => (0, [])
    | w :: rest => (w, rest)

end WordSource

namespace Uniform
variable {σ : Type}

def leadingZeros (n : Nat) : Nat := if n = 0 then 32 else 31 - n.log2

def zone (faces : Nat) : Nat := faces <<< leadingZeros faces - 1

def accepts (faces : Nat) (word : UInt32) : Bool := word.toNat * faces % UInt32.size ≤ zone faces

/-- What a die with this number of faces can answer. -/
structure Face (faces : Nat) where
  value : Nat
  least : 1 ≤ value
  most : 0 < faces → value ≤ faces

def face (faces : Nat) (word : UInt32) : Face faces where
  value := 1 + word.toNat * faces / UInt32.size
  least := Nat.le_add_right 1 _
  most real := by
    rw [Nat.add_comm]
    exact Nat.div_lt_of_lt_mul (Nat.mul_lt_mul_of_pos_right (UInt32.toNat_lt word) real)

/-- The answer to the next word if that is accepted, else the state after it. -/
def attempt (source : WordSource σ) (faces : Nat) (s : σ) : σ ⊕ Face faces × σ :=
  let (word, after) := source.next s
  if accepts faces word then .inr (face faces word, after) else .inl after

/-- Attempts until one gives an answer. On a stream without accepted words there is none, and no
more is known of it than its type says. -/
def draw (source : WordSource σ) (faces : Nat) (s : σ) : Face faces × σ :=
  have : Nonempty (Face faces × σ) := ⟨face faces 0, s⟩
  Id.run (repeatM (pure ∘ attempt source faces) s)

theorem drawAttempt (source : WordSource σ) (faces : Nat) (s : σ) :
    draw source faces s =
      match attempt source faces s with
      | .inl after => draw source faces after
      | .inr drawn => drawn := by
  have : Nonempty (Face faces × σ) := ⟨face faces 0, s⟩
  have turn := repeatM_eq_of_monadTail (m := Id) (f := pure ∘ attempt source faces) s
  refine (congrArg Id.run turn).trans ?_
  unfold repeatM.body
  cases tried : attempt source faces s with
  | inl after =>
    simp only [Function.comp_apply, tried, pure_bind]
    rfl
  | inr drawn => simp only [Function.comp_apply, tried, pure_bind, Id.run_pure]

def roller (source : WordSource σ) : Roller σ where
  roll s faces :=
    let (answer, after) := draw source faces s
    (answer.value, after)

end Uniform

/-! The word stream of a seed: the key stream of the ChaCha cipher with twelve rounds, its key
spread from the 64-bit seed by a linear congruential generator. -/

structure Seeded where
  key : Vector UInt32 8
  block : UInt64
  words : List UInt32
  deriving Repr

namespace Seeded

def advance (state : UInt64) : UInt64 := state * 6364136223846793005 + 11634580027462260723

def keyWord (state : UInt64) : UInt32 :=
  let word := (((state >>> 18) ^^^ state) >>> 27).toUInt32
  let turn := (state >>> 59).toUInt32
  (word >>> turn) ||| (word <<< (32 - turn))

def keyWords : Nat → UInt64 → List UInt32
  | 0, _ => []
  | n + 1, state => keyWord (advance state) :: keyWords n (advance state)

theorem keyWordsLength (n : Nat) (state : UInt64) : (keyWords n state).length = n := by
  induction n generalizing state with
  | zero => rfl
  | succ n ih => simp [keyWords, ih]

def keyOf (seed : UInt64) : Vector UInt32 8 :=
  ⟨(keyWords 8 seed).toArray, by simp [keyWordsLength]⟩

abbrev Matrix := Vector UInt32 16

def rotateLeft (x : UInt32) (amount : UInt32) : UInt32 := (x <<< amount) ||| (x >>> (32 - amount))

def quarterRound (m : Matrix) (a b c d : Fin 16) : Matrix :=
  let (xa, xb, xc, xd) := (m[a], m[b], m[c], m[d])
  let xa := xa + xb
  let xd := rotateLeft (xd ^^^ xa) 16
  let xc := xc + xd
  let xb := rotateLeft (xb ^^^ xc) 12
  let xa := xa + xb
  let xd := rotateLeft (xd ^^^ xa) 8
  let xc := xc + xd
  let xb := rotateLeft (xb ^^^ xc) 7
  (((m.set a xa).set b xb).set c xc).set d xd

def doubleRound (m : Matrix) : Matrix :=
  let m := quarterRound m 0 4 8 12
  let m := quarterRound m 1 5 9 13
  let m := quarterRound m 2 6 10 14
  let m := quarterRound m 3 7 11 15
  let m := quarterRound m 0 5 10 15
  let m := quarterRound m 1 6 11 12
  let m := quarterRound m 2 7 8 13
  quarterRound m 3 4 9 14

def initial (key : Vector UInt32 8) (block : UInt64) : Matrix :=
  let constants : Vector UInt32 4 := #v[0x61707865, 0x3320646e, 0x79622d32, 0x6b206574]
  let counter : Vector UInt32 4 := #v[block.toUInt32, (block >>> 32).toUInt32, 0, 0]
  constants ++ key ++ counter

def blockWords (key : Vector UInt32 8) (block : UInt64) : Matrix :=
  let start := initial key block
  let mixed := Nat.repeat doubleRound 6 start
  Vector.zipWith (· + ·) mixed start

def ofSeed (seed : UInt64) : Seeded := ⟨keyOf seed, 0, []⟩

def next (s : Seeded) : UInt32 × Seeded :=
  match s.words with
  | w :: rest => (w, { s with words := rest })
  | [] =>
    let block := blockWords s.key s.block
    (block.head, ⟨s.key, s.block + 1, block.tail.toList⟩)

def source : WordSource Seeded := ⟨next⟩

def roller : Roller Seeded := Uniform.roller source

end Seeded
end Tabletop
