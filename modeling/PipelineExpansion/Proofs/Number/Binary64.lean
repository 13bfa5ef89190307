import PipelineExpansion.Number.Binary64

/-!
# Whole numbers among the numbers of 64 bits

A whole number of at most 53 binary places is a number of 64 bits: its places are moved up until
they fill the significand, and the exponent says by how many (`ofInt_eq`). It is found again by
`toInt?`, and by `saturate` where the bounds let it through.

Several numbers may stand for one whole number: zero has two signs. They count as the same
(`same_of_toInt?`).
-/

namespace PipelineExpansion.Binary64

theorem divRound_one (n : Nat) : divRound n 1 = n := by
  simp [divRound, Nat.mod_one]

/-- A whole number reaches the power of two that its logarithm says. -/
theorem reaches_log2 {n : Nat} (h : n ≠ 0) : reaches n 1 (n.log2 : Int) = true := by
  have hle : Nat.pow 2 n.log2 ≤ n := Nat.log2_self_le h
  simpa [reaches] using hle

theorem scaled_neg (n k : Nat) : scaled n 1 (-(k : Int)) = n * Nat.pow 2 k := by
  cases k with
  | zero => simp [scaled, divRound_one]
  | succ k => exact divRound_one _

/-- **Whole numbers below `2 ^ 53` are kept exactly**: their places are moved up, and the exponent
moves them down by as many. -/
theorem ofInt_eq {n : Int} (h : n.natAbs < Nat.pow 2 53) :
    ∃ k : Nat, ofInt n = .finite (decide (n < 0)) (n.natAbs * Nat.pow 2 k) (-(k : Int)) := by
  rcases Nat.eq_zero_or_pos n.natAbs with hzero | hpos
  · obtain rfl : n = 0 := Int.natAbs_eq_zero.mp hzero
    obtain ⟨k, hk⟩ : ∃ k : Nat, k = 1074 := ⟨_, rfl⟩
    refine ⟨k, ?_⟩
    rw [Int.natAbs_zero, Nat.zero_mul, hk]
    rfl
  · have hne : n.natAbs ≠ 0 := Nat.ne_of_gt hpos
    have hlog : n.natAbs.log2 < 53 := (Nat.log2_lt hne).mpr h
    refine ⟨52 - n.natAbs.log2, ?_⟩
    have hexponent :
        max ((n.natAbs.log2 : Int) - 52) (-1074) = -((52 - n.natAbs.log2 : Nat) : Int) := by
      omega
    have hfits : n.natAbs * Nat.pow 2 (52 - n.natAbs.log2) < Nat.pow 2 53 := by
      have hplaces : n.natAbs.log2 + 1 + (52 - n.natAbs.log2) = 53 := by omega
      calc n.natAbs * Nat.pow 2 (52 - n.natAbs.log2)
          < Nat.pow 2 (n.natAbs.log2 + 1) * Nat.pow 2 (52 - n.natAbs.log2) :=
            Nat.mul_lt_mul_of_pos_right Nat.lt_log2_self (Nat.two_pow_pos _)
        _ = Nat.pow 2 (n.natAbs.log2 + 1 + (52 - n.natAbs.log2)) := (Nat.pow_add 2 _ _).symm
        _ = Nat.pow 2 53 := congrArg (Nat.pow 2) hplaces
    have hguess : (n.natAbs.log2 : Int) - ((1 : Nat).log2 : Int) = n.natAbs.log2 := by
      rw [show (1 : Nat).log2 = 0 by decide]
      exact Int.sub_zero _
    have hsome : ¬ (decide (n.natAbs = 0) || decide (1 = 0)) = true := by simp [hne]
    have hlarge : ¬ (971 : Int) < -((52 - n.natAbs.log2 : Nat) : Int) := by omega
    rw [ofInt, ofFraction, if_neg hsome]
    simp only [hguess, reaches_log2 hne, if_true, hexponent, scaled_neg]
    rw [if_neg (Nat.ne_of_lt hfits), if_neg hlarge]

/-- What a significand that was moved up stands for. -/
theorem truncate_neg (negative : Bool) (n k : Nat) :
    truncate negative (n * Nat.pow 2 k) (-(k : Int)) = if negative then -(n : Int) else n := by
  cases k with
  | zero => simp [truncate]
  | succ k =>
      have hdiv : n * Nat.pow 2 (k + 1) / Nat.pow 2 (k + 1) = n :=
        Nat.mul_div_cancel n (Nat.two_pow_pos _)
      rw [show (-((k + 1 : Nat) : Int)) = Int.negSucc k from rfl, truncate]
      simp only [hdiv]

theorem truncate_ofInt (n : Int) (k : Nat) :
    truncate (decide (n < 0)) (n.natAbs * Nat.pow 2 k) (-(k : Int)) = n := by
  rw [truncate_neg]
  simp only [decide_eq_true_eq]
  split <;> omega

/-- A whole number is found again. -/
theorem toInt?_ofInt {n : Int} (h : n.natAbs < Nat.pow 2 53) : (ofInt n).toInt? = some n := by
  obtain ⟨k, hk⟩ := ofInt_eq h
  have htruncate := truncate_ofInt n k
  rw [hk]
  cases k with
  | zero => exact congrArg some htruncate
  | succ k =>
      rw [show (-((k + 1 : Nat) : Int)) = Int.negSucc k from rfl] at htruncate ⊢
      have hmod : n.natAbs * Nat.pow 2 (k + 1) % Nat.pow 2 (k + 1) = 0 := Nat.mul_mod_left _ _
      simp only [toInt?, hmod, if_true, htruncate]

/-- A whole number within bounds is not changed by them. -/
theorem saturate_ofInt {n low high : Int} (h : n.natAbs < Nat.pow 2 53) (hlow : low ≤ n)
    (hhigh : n ≤ high) : (ofInt n).saturate low high = n := by
  obtain ⟨k, hk⟩ := ofInt_eq h
  rw [hk, saturate, truncate_ofInt]
  omega

/-! ### Numbers that are the same -/

/-- A significand with its sign. -/
def signedSignificand (negative : Bool) (significand : Nat) : Int :=
  if negative then -(significand : Int) else significand

theorem signedSignificand_mul (s : Bool) (m k : Nat) :
    signedSignificand s m * k = signedSignificand s (m * k) := by
  cases s with
  | false => exact (Int.natCast_mul m k).symm
  | true => exact (Int.neg_mul m k).trans (congrArg Int.neg (Int.natCast_mul m k).symm)

/-- The places of a whole number, moved up until none is behind the point. -/
theorem shift_of_toInt? {s : Bool} {m : Nat} {p i : Int} (h : (finite s m p).toInt? = some i) {b : Nat}
    (hb : 0 ≤ p + b) :
    signedSignificand s m * (Nat.pow 2 (p + b).toNat : Nat) = i * (Nat.pow 2 b : Nat) := by
  cases p with
  | ofNat a =>
      have hi : signedSignificand s (m * Nat.pow 2 a) = i := Option.some.inj h
      have hplaces : (Int.ofNat a + b).toNat = a + b := rfl
      have hsplit : Nat.pow 2 (a + b) = Nat.pow 2 a * Nat.pow 2 b := Nat.pow_add 2 a b
      rw [← hi, hplaces, hsplit, signedSignificand_mul, signedSignificand_mul, Nat.mul_assoc]
  | negSucc a =>
      obtain ⟨hmod, hi⟩ : m % Nat.pow 2 (a + 1) = 0 ∧ truncate s m (Int.negSucc a) = i := by
        simpa [toInt?] using h
      obtain ⟨c, rfl⟩ : ∃ c, b = a + 1 + c := ⟨b - (a + 1), by omega⟩
      have hplaces : (Int.negSucc a + ((a + 1 + c : Nat) : Int)).toNat = c := by omega
      have hsplit : Nat.pow 2 (a + 1 + c) = Nat.pow 2 (a + 1) * Nat.pow 2 c := Nat.pow_add 2 _ c
      have hwhole : m / Nat.pow 2 (a + 1) * Nat.pow 2 (a + 1) = m :=
        Nat.div_mul_cancel (Nat.dvd_of_mod_eq_zero hmod)
      have hi : signedSignificand s (m / Nat.pow 2 (a + 1)) = i := hi
      rw [← hi, hplaces, hsplit, signedSignificand_mul, signedSignificand_mul, ← Nat.mul_assoc, hwhole]

/-- **Numbers that stand for one whole number are the same.** -/
theorem same_of_toInt? {a b : Binary64} {i : Int} (ha : a.toInt? = some i) (hb : b.toInt? = some i) :
    a.same b = true := by
  match a, b with
  | .finite s m p, .finite t n q =>
      -- both are compared with their places moved by the least exponent, here moved on to whole ones
      have hsame : signedSignificand s m * (Nat.pow 2 (p - min p q).toNat : Nat) =
          signedSignificand t n * (Nat.pow 2 (q - min p q).toNat : Nat) := by
        have hup (x : Int) (hx : min p q ≤ x) :
            Nat.pow 2 (x - min p q).toNat * Nat.pow 2 (min p q + (min p q).natAbs).toNat =
              Nat.pow 2 (x + (min p q).natAbs).toNat := by
          rw [show (x + (min p q).natAbs).toNat =
            (x - min p q).toNat + (min p q + (min p q).natAbs).toNat by omega]
          exact (Nat.pow_add 2 _ _).symm
        have hpos : ((Nat.pow 2 (min p q + (min p q).natAbs).toNat : Nat) : Int) ≠ 0 :=
          Int.natCast_ne_zero.mpr (Nat.ne_of_gt (Nat.two_pow_pos _))
        refine Int.eq_of_mul_eq_mul_right hpos ?_
        rw [Int.mul_assoc, Int.mul_assoc, ← Int.natCast_mul, ← Int.natCast_mul, hup p (by omega),
          hup q (by omega), shift_of_toInt? ha (by omega), shift_of_toInt? hb (by omega)]
      have hcompare : compare (signedSignificand s m * (Nat.pow 2 (p - min p q).toNat : Nat))
          (signedSignificand t n * (Nat.pow 2 (q - min p q).toNat : Nat)) = .eq := by
        rw [hsame]
        exact Std.ReflCmp.compare_self
      exact decide_eq_true (congrArg some hcompare)
end PipelineExpansion.Binary64
