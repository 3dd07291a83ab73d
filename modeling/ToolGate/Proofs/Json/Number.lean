import Mathlib.Data.List.Basic
import Mathlib.Data.List.TakeWhile
import Mathlib.Tactic.Ring
import ToolGate.Json.Literal

/-!
# Integers read back

An integer of 64 bits is written as a literal that stands for it. The range check lets every such
literal pass although it computes with rounded numbers, because a rounded natural number is at most
about twice the number.

* `Literal.nearest_le`: how much rounding adds;
* `Literal.ofText?_signed`: the parts of a written integer;
* `Literal.isInRange_signed`, `Literal.number_signed`: it is in range and stands for the integer.
-/

namespace ToolGate.Json

/-! ## Written digits -/

namespace Number

theorem digitsValue_eq (start : Nat) (cs : List Char) :
    digitsValue start cs = Nat.ofDigitChars 10 cs start := rfl

theorem digitsValue_natural (n : Nat) : digitsValue 0 (natural n) = n := by
  rw [digitsValue_eq, natural, Nat.ofDigitChars_ten_toDigits]

theorem isDigit_of_mem_natural {n : Nat} {c : Char} (hc : c ∈ natural n) : c.isDigit = true :=
  Nat.isDigit_of_mem_toDigits (by decide) (by decide) hc

theorem natural_ne_nil (n : Nat) : natural n ≠ [] := Nat.toDigits_ne_nil

/-- Further digits make a number no less. -/
theorem le_digitsValue (m : Nat) (cs : List Char) : m ≤ digitsValue m cs := by
  induction cs generalizing m with
  | nil => exact Nat.le_refl m
  | cons c cs ih =>
    have hcs := ih (10 * m + (c.toNat - 48))
    change m ≤ digitsValue (10 * m + (c.toNat - 48)) cs
    omega

/-- Only zero begins with a zero. -/
theorem head?_natural {n : Nat} (hn : n ≠ 0) : (natural n).head? ≠ some '0' := by
  induction n using Nat.strongRecOn with
  | ind n ih =>
    unfold natural at ih ⊢
    by_cases hlt : n < 10
    · rw [Nat.toDigits_of_lt_base hlt]
      have hdigit : ∀ d, d < 10 → d ≠ 0 → [Nat.digitChar d].head? ≠ some '0' := by decide
      exact hdigit n hlt hn
    · -- the digits of `n / 10` come first, and `n / 10` is not zero either
      rw [Nat.toDigits_of_base_le (by decide) (by omega), List.head?_append_of_ne_nil _
        Nat.toDigits_ne_nil]
      exact ih (n / 10) (by omega) (by omega)

end Number

namespace Literal

/-- Written digits are a whole part: a zero alone, or none at the beginning. -/
theorem isWholePart_natural (n : Nat) : isWholePart (Number.natural n) = true := by
  by_cases hn : n = 0
  · subst hn
    decide
  · have hhead := Number.head?_natural hn
    have hdigits := fun c => Number.isDigit_of_mem_natural (n := n) (c := c)
    cases hcs : Number.natural n with
    | nil => exact absurd hcs (Number.natural_ne_nil n)
    | cons c cs =>
      rw [hcs] at hhead hdigits
      have hc : c ≠ '0' := fun h => hhead (by rw [h, List.head?_cons])
      have hall : cs.all Char.isDigit = true :=
        List.all_eq_true.2 fun d hd => hdigits d (List.mem_cons_of_mem c hd)
      simp [isWholePart, hc, hdigits c List.mem_cons_self, hall]

/-- They are read as a literal with neither fraction nor exponent. -/
theorem unsigned?_natural (negative : Bool) (n : Nat) :
    unsigned? negative (Number.natural n) = some ⟨negative, Number.natural n, [], none⟩ := by
  have hall : ∀ c ∈ Number.natural n, c.isDigit = true := fun c => Number.isDigit_of_mem_natural
  have htake : (Number.natural n).takeWhile Char.isDigit = Number.natural n := by
    rw [List.takeWhile_eq_self_iff]
    exact hall
  have hdrop : (Number.natural n).dropWhile Char.isDigit = [] := by
    rw [List.dropWhile_eq_nil_iff]
    exact hall
  unfold unsigned?
  simp only [htake, hdrop, isWholePart_natural, if_true]

/-- A written integer is a literal of its sign and its digits. -/
theorem ofText?_signed (z : Int) :
    ofText? (Number.signed z) = some ⟨decide (z < 0), Number.natural z.natAbs, [], none⟩ := by
  unfold Number.signed
  split
  · rename_i hneg
    rw [decide_eq_true hneg]
    exact unsigned?_natural true z.natAbs
  · rename_i hneg
    rw [decide_eq_false hneg]
    have hdigits := fun c => Number.isDigit_of_mem_natural (n := z.natAbs) (c := c)
    have hread := unsigned?_natural false z.natAbs
    revert hdigits hread
    cases Number.natural z.natAbs with
    | nil => exact fun _ hread => hread
    | cons c cs =>
      intro hdigits hread
      -- a first digit is not taken for a sign
      have hc : c ≠ '-' := by
        rintro rfl
        exact absurd (hdigits '-' List.mem_cons_self) (by decide)
      unfold ofText?
      split
      · rename_i hsign
        exact absurd (List.cons.inj hsign).1 hc
      · exact hread

/-- A written integer that fits 64 bits stands for itself. -/
theorem number_signed {z : Int} (hz : Number.fits64 z = true) :
    number ⟨decide (z < 0), Number.natural z.natAbs, [], none⟩ = .integer z := by
  have hvalue : (if z < 0 then -(z.natAbs : Int) else z.natAbs) = z := by
    split <;> omega
  unfold number
  simp only [Number.digitsValue_natural, decide_eq_true_eq, hvalue, hz]
  rw [if_neg]
  rintro (⟨hneg, hzero⟩ | hfits)
  · omega
  · contradiction

end Literal

/-! ## Rounding -/

namespace Binary64

theorem floor_of_nonneg {m : Nat} {e : Int} (he : 0 ≤ e) : floor ⟨m, e⟩ = m * 2 ^ e.toNat := by
  have hneg : (-e).toNat = 0 := by omega
  simp [floor, rescale, hneg]

theorem floor_of_nonpos {m : Nat} {e : Int} (he : e ≤ 0) : floor ⟨m, e⟩ = m / 2 ^ (-e).toNat := by
  have hpos : e.toNat = 0 := by omega
  simp [floor, rescale, hpos]

/-- Half a mantissa with the next exponent is the same float. -/
theorem floor_half (m : Nat) (e : Int) : floor ⟨m, e + 1⟩ = floor ⟨2 * m, e⟩ := by
  rcases Int.lt_or_le e 0 with he | he
  · have hexp : (-e).toNat = (-(e + 1)).toNat + 1 := by omega
    rw [floor_of_nonpos (by omega), floor_of_nonpos (by omega), hexp, Nat.pow_succ',
      Nat.mul_div_mul_left _ _ (by decide)]
  · have hexp : (e + 1).toNat = e.toNat + 1 := by omega
    rw [floor_of_nonneg (by omega), floor_of_nonneg he, hexp, Nat.pow_succ]
    ring

/-- A mantissa one binary digit too long gives it to the exponent. -/
theorem floor_carry (m : Nat) (e : Int) :
    floor (if m = 2 * leastMantissa then ⟨leastMantissa, e + 1⟩ else ⟨m, e⟩) = floor ⟨m, e⟩ := by
  split
  · rename_i hm
    rw [hm, floor_half]
  · rfl

theorem divNearest_le (a b : Nat) : divNearest a b ≤ a / b + 1 := by
  unfold divNearest
  simp only
  split <;> omega

/-- A natural number rounded at a place below its own is at most about twice as great. -/
theorem floor_divNearest_le {n : Nat} {e : Int} (he : 0 ≤ e → 2 ^ e.toNat ≤ n) :
    floor ⟨divNearest (n * 2 ^ (-e).toNat) (2 ^ e.toNat), e⟩ ≤ 2 * n + 1 := by
  have hround := divNearest_le (n * 2 ^ (-e).toNat) (2 ^ e.toNat)
  rcases Int.lt_or_le e 0 with hneg | hpos
  · -- the place is behind the point: at most one is added to a multiple of `2 ^ -e`
    have hexp : e.toNat = 0 := by omega
    have hpow := Nat.two_pow_pos (-e).toNat
    rw [hexp, Nat.pow_zero, Nat.div_one] at hround
    rw [hexp, Nat.pow_zero, floor_of_nonpos (by omega)]
    calc divNearest (n * 2 ^ (-e).toNat) 1 / 2 ^ (-e).toNat
        ≤ (n * 2 ^ (-e).toNat + 1) / 2 ^ (-e).toNat := Nat.div_le_div_right hround
      _ ≤ (n * 2 ^ (-e).toNat + 2 ^ (-e).toNat) / 2 ^ (-e).toNat :=
        Nat.div_le_div_right (Nat.add_le_add_left hpow _)
      _ = n + 1 := by rw [← Nat.succ_mul, Nat.mul_div_cancel _ hpow]
      _ ≤ 2 * n + 1 := by omega
  · -- the place is before the point: at most one unit of the place is added
    have hexp : (-e).toNat = 0 := by omega
    have hplace := he hpos
    rw [hexp, Nat.pow_zero, Nat.mul_one] at hround
    rw [hexp, Nat.pow_zero, Nat.mul_one, floor_of_nonneg hpos]
    calc divNearest n (2 ^ e.toNat) * 2 ^ e.toNat
        ≤ (n / 2 ^ e.toNat + 1) * 2 ^ e.toNat := Nat.mul_le_mul_right _ hround
      _ = n / 2 ^ e.toNat * 2 ^ e.toNat + 2 ^ e.toNat := by rw [Nat.succ_mul]
      _ ≤ n + n := Nat.add_le_add (Nat.div_mul_le_self _ _) hplace
      _ ≤ 2 * n + 1 := by omega

/-- The last place of a mantissa is below the number, if it is before the point. -/
theorem two_pow_place_le {n : Nat} {e : Int} (he : e ≤ max leastExponent ((n.log2 : Int) - 52))
    (hpos : 0 ≤ e) : 2 ^ e.toNat ≤ n := by
  unfold leastExponent at he
  have hlog : e.toNat ≤ n.log2 := by omega
  have hn : n ≠ 0 := by
    rintro rfl
    simp at he
    omega
  calc 2 ^ e.toNat ≤ 2 ^ n.log2 := Nat.pow_le_pow_right (by decide) hlog
    _ ≤ n := Nat.log2_self_le hn

/-- The float nearest to a natural number is at most about twice as great. -/
theorem floor_ofRatio_le (n : Nat) : (ofRatio n 1).floor ≤ 2 * n + 1 := by
  have hone : Nat.log2 1 = 0 := by decide
  unfold ofRatio
  simp only [rescale, floor_carry, Nat.one_mul, Nat.pow_eq, hone, Int.natCast_zero, Int.sub_zero]
  refine floor_divNearest_le (two_pow_place_le (max_le_max_left leastExponent ?_))
  split <;> omega

end Binary64

namespace Literal

/-! ## Range -/

/-- Digits of a number of 64 bits are all kept. -/
theorem appendDigits_of_lt {m : Nat} {cs : List Char}
    (h : Number.digitsValue m cs < Nat.pow 2 64) :
    appendDigits m cs = (Number.digitsValue m cs, 0) := by
  induction cs generalizing m with
  | nil => rfl
  | cons c cs ih =>
    have hrest : Number.digitsValue (Number.digitsValue m [c]) cs =
        Number.digitsValue m (c :: cs) := rfl
    have hgrows := Number.le_digitsValue (Number.digitsValue m [c]) cs
    have hc : Number.digitsValue m [c] < Nat.pow 2 64 := by omega
    unfold appendDigits
    simp only [if_pos hc]
    rw [ih (by omega), hrest]

theorem nearest_le (n : Nat) : nearest n ≤ 2 * n + 1 := Binary64.floor_ofRatio_le n

/-- The product of two rounded integers of 64 bits stays far below the greatest float. -/
theorem nearest_mul_lt {m n k l : Nat} (hm : m < 2 ^ 64) (hn : n < 2 ^ 64) (hk : 200 ≤ k)
    (hl : k < l) : nearest m * nearest n < Nat.pow 2 l - Nat.pow 2 k := by
  have hproduct : nearest m * nearest n < 2 ^ 200 := calc
    nearest m * nearest n ≤ (2 * m + 1) * (2 * n + 1) :=
      Nat.mul_le_mul (nearest_le m) (nearest_le n)
    _ ≤ 2 ^ 65 * 2 ^ 65 := Nat.mul_le_mul (by omega) (by omega)
    _ < 2 ^ 200 := by decide
  have hsmall : 2 ^ 200 ≤ 2 ^ k := Nat.pow_le_pow_right (by decide) hk
  have hdouble : 2 ^ (k + 1) ≤ 2 ^ l := Nat.pow_le_pow_right (by decide) hl
  rw [Nat.pow_succ] at hdouble
  simp only [Nat.pow_eq]
  omega

/-- Rounding does not take an integer of 64 bits out of range. -/
theorem isInRange_natural (negative : Bool) {n : Nat} (hn : n < 2 ^ 64) :
    isInRange ⟨negative, Number.natural n, [], none⟩ = true := by
  have hdigits : appendDigits 0 (Number.natural n) = (n, 0) := by
    have hvalue := Number.digitsValue_natural n
    rw [appendDigits_of_lt (by rw [hvalue]; exact hn), hvalue]
  have hten : Nat.pow 10 0 < 2 ^ 64 := by decide
  have hproduct := nearest_mul_lt hn hten (k := 970) (l := 1024) (by omega) (by omega)
  unfold isInRange
  simp only [hdigits, appendDigits, Option.getD_none, List.length_nil, Int.natCast_zero,
    Int.add_zero, Int.sub_zero, Int.toNat_zero, decide_eq_true hproduct]
  simp

end Literal

/-- A written integer that fits 64 bits is a literal in range that stands for the integer. -/
theorem Literal.exists_of_fits64 {z : Int} (hz : Number.fits64 z = true) :
    ∃ l, ofText? (Number.signed z) = some l ∧ l.isInRange = true ∧ l.number = .integer z := by
  have hsmall : z.natAbs < 2 ^ 64 := by
    unfold Number.fits64 at hz
    rw [Bool.and_eq_true, decide_eq_true_eq, decide_eq_true_eq] at hz
    omega
  exact ⟨_, ofText?_signed z, isInRange_natural _ hsmall, number_signed hz⟩

end ToolGate.Json
