import Mathlib.Algebra.Order.Floor.Div
import Mathlib.Data.FinEnum
import Mathlib.Order.Interval.Finset.Nat
import Tabletop.Dice.Seeded
import Tabletop.Proofs.Roll.Draws

/-! Dice drawn from 32-bit words are even. The products of the words with the number of faces are
its multiples, and the accepted ones lie in one window below each face; all windows are equally
wide, and their width is a multiple of the number of faces, so every window holds equally many. -/
namespace Tabletop

namespace WordSource
variable {σ : Type}

def skip (source : WordSource σ) : Nat → σ → σ
  | 0, s => s
  | n + 1, s => source.skip n (source.next s).2

def word (source : WordSource σ) (n : Nat) (s : σ) : UInt32 := (source.next (source.skip n s)).1

def Leads (source : WordSource σ) (led : UInt32 → σ) : Prop := ∀ w, (source.next (led w)).1 = w

end WordSource

namespace Uniform
variable {σ : Type}

theorem zoneNext {faces : Nat} (real : 0 < faces) :
    zone faces + 1 = faces * 2 ^ leadingZeros faces := by
  have some : 0 < faces * 2 ^ leadingZeros faces := Nat.mul_pos real (Nat.two_pow_pos _)
  rw [zone, Nat.shiftLeft_eq, Nat.sub_add_cancel some]

/- Shifted by its leading zeros, the number of faces still fits, with its highest bit in front. -/
theorem shiftedWord {faces : Nat} (real : 0 < faces) (word : faces < UInt32.size) :
    UInt32.size ≤ 2 * (faces * 2 ^ leadingZeros faces) ∧
    faces * 2 ^ leadingZeros faces < UInt32.size := by
  have bits : faces.log2 < 32 := (Nat.log2_lt (Nat.ne_of_gt real)).mpr word
  have reached : 2 ^ faces.log2 ≤ faces := Nat.log2_self_le (Nat.ne_of_gt real)
  have below : faces < 2 ^ (faces.log2 + 1) := Nat.lt_log2_self
  have half : 2 ^ faces.log2 * 2 ^ (31 - faces.log2) = 2 ^ 31 := by
    rw [← Nat.pow_add, Nat.add_sub_cancel' (Nat.le_of_lt_succ bits)]
  have whole : 2 ^ (faces.log2 + 1) * 2 ^ (31 - faces.log2) = 2 * 2 ^ 31 := by
    rw [Nat.pow_succ', Nat.mul_assoc, half]
  rw [leadingZeros, if_neg (Nat.ne_of_gt real)]
  constructor
  · calc UInt32.size
        = 2 * (2 ^ faces.log2 * 2 ^ (31 - faces.log2)) := by rw [half]; rfl
      _ ≤ 2 * (faces * 2 ^ (31 - faces.log2)) :=
        Nat.mul_le_mul_left 2 (Nat.mul_le_mul_right _ reached)
  · calc faces * 2 ^ (31 - faces.log2)
        < 2 ^ (faces.log2 + 1) * 2 ^ (31 - faces.log2) :=
          Nat.mul_lt_mul_of_pos_right below (Nat.two_pow_pos _)
      _ = UInt32.size := whole

theorem zoneWord {faces : Nat} (real : 0 < faces) (word : faces < UInt32.size) :
    zone faces = (faces <<< leadingZeros faces + (UInt32.size - 1)) % UInt32.size := by
  have next := zoneNext real
  have fits := (shiftedWord real word).2
  rw [Nat.shiftLeft_eq, ← next]
  simp only [UInt32.size] at fits ⊢
  omega

/- The window of a face starts where the upper half of the product reaches the number below it. -/
theorem acceptedIff {faces : Nat} (real : 0 < faces) (word : faces < UInt32.size) {w : UInt32}
    {below : Nat} : accepts faces w = true ∧ (face faces w).value = below + 1 ↔
      below * UInt32.size ≤ faces * w.toNat ∧
      faces * w.toNat < below * UInt32.size + faces * 2 ^ leadingZeros faces := by
  have next := zoneNext real
  have fits := (shiftedWord real word).2
  have value : (face faces w).value = 1 + faces * w.toNat / UInt32.size := by
    rw [Nat.mul_comm]
    rfl
  rw [accepts, value, decide_eq_true_iff, Nat.mul_comm w.toNat]
  simp only [UInt32.size] at fits ⊢
  omega

theorem windowIff {faces start count w : Nat} (real : 0 < faces) :
    start ≤ faces * w ∧ faces * w < start + faces * count ↔
      start ⌈/⌉ faces ≤ w ∧ w < start ⌈/⌉ faces + count := by
  have above : ∀ v, start ⌈/⌉ faces ≤ v ↔ start ≤ faces * v := fun v => ceilDiv_le_iff_le_mul real
  have before : faces * w < start + faces * count ↔ w < start ⌈/⌉ faces + count := by
    rcases Nat.lt_or_ge w count with few | many
    · have product : faces * w < faces * count := Nat.mul_lt_mul_of_pos_left few real
      omega
    · obtain ⟨v, rfl⟩ := Nat.exists_eq_add_of_le many
      have moved := above v
      rw [Nat.mul_add]
      omega
  rw [above, before]

theorem windowWords {faces below n : Nat} (real : 0 < faces) (word : faces < UInt32.size)
    (face : below < faces)
    (inside : faces * n < below * UInt32.size + faces * 2 ^ leadingZeros faces) :
    n < UInt32.size := by
  have fits := (shiftedWord real word).2
  apply Nat.lt_of_mul_lt_mul_left (a := faces)
  calc faces * n
      < below * UInt32.size + faces * 2 ^ leadingZeros faces := inside
    _ ≤ (below + 1) * UInt32.size := by
      rw [Nat.succ_mul]
      exact Nat.add_le_add_left (Nat.le_of_lt fits) _
    _ ≤ faces * UInt32.size := Nat.mul_le_mul_right _ face

theorem wordsOfFace {faces value : Nat} (real : 0 < faces) (word : faces < UInt32.size)
    (low : 1 ≤ value) (high : value ≤ faces) :
    (Finset.univ.filter fun w => accepts faces w = true ∧ (face faces w).value = value).card =
      2 ^ leadingZeros faces := by
  obtain ⟨below, rfl⟩ := Nat.exists_eq_add_of_le' low
  -- Read as numbers, the words of one face are an interval.
  have interval : (Finset.univ.filter fun w =>
        accepts faces w = true ∧ (face faces w).value = below + 1).map
          ⟨UInt32.toNat, fun _ _ => UInt32.toNat_inj.mp⟩ =
      Finset.Ico (below * UInt32.size ⌈/⌉ faces)
        (below * UInt32.size ⌈/⌉ faces + 2 ^ leadingZeros faces) := by
    ext n
    simp only [Finset.mem_map, Finset.mem_filter, Finset.mem_univ, true_and, acceptedIff real word,
      windowIff real, Finset.mem_Ico]
    constructor
    · rintro ⟨w, inside, rfl⟩
      exact inside
    · intro inside
      have small := windowWords real word high ((windowIff real).mpr inside).2
      have same : (UInt32.ofNat n).toNat = n := UInt32.toNat_ofNat_of_lt' small
      exact ⟨UInt32.ofNat n, same.symm ▸ inside, same⟩
  rw [← Finset.card_map, interval, Nat.card_Ico, Nat.add_sub_cancel_left]

section Loop
variable (source : WordSource σ) {faces : Nat} {s : σ}

theorem rollAccepted (accepted : accepts faces (source.next s).1 = true) :
    (roller source).roll s faces = ((face faces (source.next s).1).value, (source.next s).2) := by
  have tried : attempt source faces s =
      .inr (face faces (source.next s).1, (source.next s).2) := if_pos accepted
  have last := drawAttempt source faces s
  rw [tried] at last
  exact congrArg (fun drawn => (drawn.1.value, drawn.2)) last

theorem rollRejected (rejected : accepts faces (source.next s).1 = false) :
    (roller source).roll s faces = (roller source).roll (source.next s).2 faces := by
  have tried : attempt source faces s = .inl (source.next s).2 :=
    if_neg (Bool.eq_false_iff.mp rejected)
  have later := drawAttempt source faces s
  rw [tried] at later
  exact congrArg (fun drawn => (drawn.1.value, drawn.2)) later

theorem rollFirst {passed : Nat}
    (rejected : ∀ n < passed, accepts faces (source.word n s) = false)
    (accepted : accepts faces (source.word passed s) = true) :
    (roller source).roll s faces =
      ((face faces (source.word passed s)).value, source.skip (passed + 1) s) := by
  -- Every word that is passed over moves the source by one.
  induction passed generalizing s with
  | zero => exact rollAccepted source accepted
  | succ passed ih =>
    have first : accepts faces (source.next s).1 = false := rejected 0 (Nat.succ_pos passed)
    have later : ∀ n < passed, accepts faces (source.word n (source.next s).2) = false :=
      fun n small => rejected (n + 1) (Nat.succ_lt_succ small)
    rw [rollRejected source first]
    exact ih later accepted

theorem rollRange (real : 0 < faces) (s : σ) :
    1 ≤ ((roller source).roll s faces).1 ∧ ((roller source).roll s faces).1 ≤ faces :=
  ⟨(draw source faces s).1.least, (draw source faces s).1.most real⟩

theorem rollerWithin : (roller source).Within := fun s _ real _ => rollRange source real s

end Loop

section Shares
variable (source : WordSource σ) (led : UInt32 → σ)

/- The accepted words for which the roller answers this value, each of them in a state that it
leads. -/
def answering (faces value : Nat) : Finset UInt32 :=
  Finset.univ.filter fun w =>
    accepts faces w = true ∧ ((roller source).roll (led w) faces).1 = value

def showing (n : Numbering) (faces shown : Nat) : Finset UInt32 :=
  Finset.univ.filter fun w =>
    accepts faces w = true ∧ ((roller source).outcomes n 1 faces (led w)).1 = [shown]

variable {source led}

theorem answeringCard (leads : source.Leads led) {faces value : Nat} (real : 0 < faces)
    (word : faces < UInt32.size) (low : 1 ≤ value) (high : value ≤ faces) :
    (answering source led faces value).card = 2 ^ leadingZeros faces := by
  have same : answering source led faces value =
      Finset.univ.filter fun w => accepts faces w = true ∧ (face faces w).value = value := by
    apply Finset.filter_congr
    intro w _
    rw [and_congr_right_iff]
    intro accepted
    rw [rollAccepted source ((leads w).symm ▸ accepted), leads w]
  rw [same]
  exact wordsOfFace real word low high

theorem showingCard (leads : source.Leads led) (n : Numbering) {faces shown : Nat}
    (real : 0 < faces) (word : faces < UInt32.size)
    (inside : (n.range faces).contains shown = true) :
    (showing source led n faces shown).card = 2 ^ leadingZeros faces := by
  obtain ⟨low, high⟩ := FaceRange.containsIff.mp inside
  have offset : n.offset faces ≤ 1 := n.offsetLe faces
  simp only [Numbering.range] at low high
  have same : showing source led n faces shown =
      answering source led faces (shown + n.offset faces) := by
    apply Finset.filter_congr
    intro w _
    have least := (rollRange source real (led w)).1
    have one : ((roller source).outcomes n 1 faces (led w)).1 =
        [((roller source).roll (led w) faces).1 - n.offset faces] := rfl
    rw [one, List.singleton_inj]
    refine and_congr_right fun _ => ?_
    omega
  rw [same]
  exact answeringCard leads real word (by omega) (by omega)

end Shares

structure EvenDie (source : WordSource σ) (faces : Nat) : Prop where
  leading : UInt32.size ≤ 2 * (faces <<< leadingZeros faces) ∧
    faces <<< leadingZeros faces < UInt32.size
  accepted : ∀ w : UInt32, accepts faces w = true ↔
    w.toNat * faces % UInt32.size ≤ (faces <<< leadingZeros faces + (UInt32.size - 1)) % UInt32.size
  answers : ∀ s, 1 ≤ ((roller source).roll s faces).1 ∧ ((roller source).roll s faces).1 ≤ faces
  tries : ∀ s, accepts faces (source.next s).1 = false →
    (roller source).roll s faces = (roller source).roll (source.next s).2 faces
  first : ∀ s passed, (∀ n < passed, accepts faces (source.word n s) = false) →
    accepts faces (source.word passed s) = true →
    (roller source).roll s faces =
      (1 + (source.word passed s).toNat * faces / UInt32.size, source.skip (passed + 1) s)
  shares : ∀ led, source.Leads led → ∀ value, 1 ≤ value → value ≤ faces →
    (answering source led faces value).card = 2 ^ leadingZeros faces

theorem evenDie (source : WordSource σ) {faces : Nat} (real : 0 < faces)
    (word : faces < UInt32.size) : EvenDie source faces where
  leading := Nat.shiftLeft_eq faces _ ▸ shiftedWord real word
  accepted w := by rw [accepts, decide_eq_true_iff, zoneWord real word]
  answers := rollRange source real
  tries _ := rollRejected source
  first _ _ := rollFirst source
  shares _ leads _ := answeringCard leads real word

theorem diceDrawnEvenly (source : WordSource σ) :
    (∀ faces, 0 < faces → faces < UInt32.size → EvenDie source faces) ∧
    ∀ (o : Options) (input : Text) (s : σ),
      ∀ d ∈ (evaluate o (roller source) input s).outcome.diceTerms,
        (∀ x ∈ d.outcomes, d.range.contains x = true) ∧
        (∃ before, d.outcomes =
          ((roller source).outcomes o.numbering d.count d.faces before).1) ∧
        ∀ led, source.Leads led → ∀ x, d.range.contains x = true →
          (showing source led o.numbering d.faces x).card = 2 ^ leadingZeros d.faces := by
  constructor
  · exact fun _ => evenDie source
  · intro o input s d member
    have rolled := Outcome.diceTermIff.mp member
    have wellFormed := Evaluation.termsWellFormed o (rollerWithin source) _ s _ rolled d rfl
    refine ⟨wellFormed.inRange, Evaluation.termsRolled o (roller source) _ s _ rolled d rfl, ?_⟩
    intro led leads x inside
    rw [wellFormed.numbered] at inside
    exact showingCard leads o.numbering wellFormed.faces.1 wellFormed.faces.2 inside

theorem diceDrawnEvenlyPassing :
    let led : UInt32 → List UInt32 := fun w => [w]
    WordSource.ofList.Leads led ∧
    (roller .ofList).roll [0xFFFFFFFF, 0x80000000, 7] 3 = (2, [7]) ∧
    (answering .ofList led 3 2).card = 0x40000000 ∧
    (showing .ofList led ⟨true, false⟩ 10 0).card = 0x10000000 := by
  intro led
  have leads : WordSource.ofList.Leads led := fun _ => rfl
  obtain ⟨dice, terms⟩ := diceDrawnEvenly .ofList
  have three := dice 3 (by decide) (by decide)
  have rejected : ∀ n < 1,
      accepts 3 (WordSource.ofList.word n [0xFFFFFFFF, 0x80000000, 7]) = false := by decide
  have ten := (terms ⟨⟨true, false⟩, 1⟩ "d10".toList [] _ (List.mem_singleton_self _)).2.2
  exact ⟨leads, three.first _ 1 rejected (by decide), three.shares led leads 2 (by decide) (by decide),
    ten led leads 0 (by decide)⟩

end Uniform
end Tabletop
