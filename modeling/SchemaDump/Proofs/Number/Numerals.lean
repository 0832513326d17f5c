import SchemaDump.Proofs.Number.Rounding
import SchemaDump.Number.Amount

/-! Decimal numerals. What is shown of a number reads as the number rounded to the places shown. -/
namespace SchemaDump

variable {places n : Nat} {s t ds fs : Text} {q r : Rat}

/-- No zeros stand in front of a number but in zero itself. -/
theorem head?_toDigits_ne_zero (h : 0 < n) : (Nat.toDigits 10 n).head? ≠ some '0' := by
  induction n using Nat.strongRecOn with
  | ind n ih =>
    rw [Nat.toDigits_eq_if (by decide)]
    split
    · next hn =>
      have hall : ∀ n < 10, 0 < n → [Nat.digitChar n].head? ≠ some '0' := by decide
      exact hall n hn h
    · next hn =>
      rw [List.head?_append_of_ne_nil _ Nat.toDigits_ne_nil]
      exact ih (n / 10) (by omega) (by omega)

/-- The digits of a whole number. -/
structure IsWhole (ds : Text) : Prop where
  isDigit : ∀ c ∈ ds, c.isDigit = true
  ne_nil : ds ≠ []
  eq_zero : ds.head? = some '0' → ds = ['0']

/-- A numeral with so many places behind the point, and without a point if there are none. -/
inductive IsNumeral : Nat → Text → Prop
  | whole {ds : Text} : IsWhole ds → IsNumeral 0 ds
  | pointed {ds fs : Text} : IsWhole ds → (∀ c ∈ fs, c.isDigit = true) → fs ≠ [] →
      IsNumeral fs.length (ds ++ '.' :: fs)

theorem IsNumeral.isDigit_or_point (h : IsNumeral places s) :
    ∀ c ∈ s, c.isDigit = true ∨ c = '.' := by
  intro c hc
  cases h with
  | whole hwhole => exact Or.inl (hwhole.isDigit c hc)
  | pointed hwhole hfraction hne =>
    rcases List.mem_append.mp hc with hc | hc
    · exact Or.inl (hwhole.isDigit c hc)
    · rcases List.mem_cons.mp hc with rfl | hc
      · exact Or.inr rfl
      · exact Or.inl (hfraction c hc)

/-- The number that a numeral denotes. -/
def reading (s : Text) : Rat :=
  let fraction := (s.dropWhile (· ≠ '.')).drop 1
  (Nat.ofDigitChars 10 (s.takeWhile (· ≠ '.') ++ fraction) 0 : Rat) / 10 ^ fraction.length

/-- `r` is `q` rounded to so many decimal places, a half to the even last digit. -/
def IsRounded (places : Nat) (q r : Rat) : Prop :=
  ∃ n : Int, IsNearest (q * 10 ^ places) n ∧ r = n / 10 ^ places

/-- Half of the last of so many decimal places. -/
def halfPlace (places : Nat) : Rat := 1 / (2 * 10 ^ places)

theorem isWhole_toDigits (n : Nat) : IsWhole (Nat.toDigits 10 n) where
  isDigit _ hc := Nat.isDigit_of_mem_toDigits (by decide) (by decide) hc
  ne_nil := Nat.toDigits_ne_nil
  eq_zero h := by
    obtain rfl | hpos := Nat.eq_zero_or_pos n
    · rfl
    · exact (head?_toDigits_ne_zero hpos h).elim

theorem ne_point_of_isDigit (h : ∀ c ∈ ds, c.isDigit = true) :
    ∀ c ∈ ds, decide (c ≠ '.') = true := by
  intro c hc
  have hdigit := h c hc
  rw [decide_eq_true_eq]
  rintro rfl
  exact absurd hdigit (by decide)

theorem reading_whole (h : ∀ c ∈ ds, c.isDigit = true) :
    reading ds = Nat.ofDigitChars 10 ds 0 := by
  have hpoint := ne_point_of_isDigit h
  rw [← List.append_nil ds, reading, List.takeWhile_append_of_pos hpoint,
    List.dropWhile_append_of_pos hpoint]
  simp

theorem reading_point (h : ∀ c ∈ ds, c.isDigit = true) (fs : Text) :
    reading (ds ++ '.' :: fs) = (Nat.ofDigitChars 10 (ds ++ fs) 0 : Rat) / 10 ^ fs.length := by
  have hpoint := ne_point_of_isDigit h
  rw [reading, List.takeWhile_append_of_pos hpoint, List.dropWhile_append_of_pos hpoint]
  simp

namespace Binary64

/-- The digits of `n`, with zeros in front of them so that there is one before the point. -/
def padded (places n : Nat) : Text :=
  List.replicate (places + 1 - (Nat.toDigits 10 n).length) '0' ++ Nat.toDigits 10 n

theorem pointed_eq (places n : Nat) : pointed places n =
    if places = 0 then padded places n
    else (padded places n).take ((padded places n).length - places) ++
      '.' :: (padded places n).drop ((padded places n).length - places) := rfl

theorem isDigit_of_mem_padded : ∀ c ∈ padded places n, c.isDigit = true := by
  intro c hc
  rcases List.mem_append.mp hc with hc | hc
  · rw [List.eq_of_mem_replicate hc]
    rfl
  · exact (isWhole_toDigits n).isDigit c hc

theorem ofDigitChars_padded (places n : Nat) : Nat.ofDigitChars 10 (padded places n) 0 = n := by
  rw [padded, Nat.ofDigitChars_append, Nat.ofDigitChars_replicate_zero, Nat.mul_zero,
    Nat.ofDigitChars_ten_toDigits]

theorem lt_length_padded (places n : Nat) : places < (padded places n).length := by
  rw [padded, List.length_append, List.length_replicate]
  omega

theorem isWhole_take_padded (places n : Nat) :
    IsWhole ((padded places n).take ((padded places n).length - places)) := by
  have hlength := lt_length_padded places n
  refine ⟨fun c hc => isDigit_of_mem_padded c (List.mem_of_mem_take hc), ?_, ?_⟩
  · intro hnil
    have := congrArg List.length hnil
    rw [List.length_take, List.length_nil] at this
    omega
  · intro hhead
    by_cases hshort : (Nat.toDigits 10 n).length ≤ places
    · -- a zero was put before the point
      have hpadded : padded places n =
          '0' :: (List.replicate (places - (Nat.toDigits 10 n).length) '0' ++
            Nat.toDigits 10 n) := by
        rw [padded, Nat.sub_add_comm hshort, List.replicate_succ, List.cons_append]
      have hone : (padded places n).length - places = 1 := by
        rw [padded, List.length_append, List.length_replicate]
        omega
      rw [hone, hpadded]
      rfl
    · have hpadded : padded places n = Nat.toDigits 10 n := by
        rw [padded, Nat.sub_eq_zero_of_le (by omega)]
        rfl
      rw [hpadded] at hhead ⊢
      rw [List.head?_take, if_neg (by omega)] at hhead
      rw [(isWhole_toDigits n).eq_zero hhead] at hshort ⊢
      obtain rfl : places = 0 := by simpa using hshort
      rfl

theorem isNumeral_pointed (places n : Nat) : IsNumeral places (pointed places n) := by
  rw [pointed_eq]
  split
  · next h =>
    subst h
    have hwhole := isWhole_take_padded 0 n
    rw [Nat.sub_zero, List.take_length] at hwhole
    exact .whole hwhole
  · next h =>
    have hlength : ((padded places n).drop ((padded places n).length - places)).length =
        places := by
      have := lt_length_padded places n
      rw [List.length_drop]
      omega
    have hne : (padded places n).drop ((padded places n).length - places) ≠ [] :=
      List.ne_nil_of_length_pos (by omega)
    have hnumeral := IsNumeral.pointed (isWhole_take_padded places n)
      (fun c hc => isDigit_of_mem_padded c (List.mem_of_mem_drop hc)) hne
    rwa [hlength] at hnumeral

theorem reading_pointed (places n : Nat) : reading (pointed places n) = (n : Rat) / 10 ^ places := by
  rw [pointed_eq]
  split
  · next h =>
    rw [reading_whole isDigit_of_mem_padded, ofDigitChars_padded, h, pow_zero, div_one]
  · rw [reading_point (isWhole_take_padded places n).isDigit, List.take_append_drop,
      ofDigitChars_padded, List.length_drop]
    have := lt_length_padded places n
    congr 2
    omega

theorem isNumeral_fixed (places : Nat) (q : Rat) : IsNumeral places ((finite false q).fixed places) :=
  isNumeral_pointed places _

theorem isRounded_fixed (h : 0 ≤ q) (places : Nat) :
    IsRounded places q (reading ((finite false q).fixed places)) := by
  have hnonneg : 0 ≤ roundHalfEven (q * 10 ^ places) :=
    roundHalfEven_nonneg (mul_nonneg h (by positivity))
  refine ⟨roundHalfEven (q * 10 ^ places), isNearest_roundHalfEven _, ?_⟩
  calc reading ((finite false q).fixed places)
      = ((roundHalfEven (q * 10 ^ places)).toNat : Rat) / 10 ^ places := reading_pointed _ _
    _ = (roundHalfEven (q * 10 ^ places) : Rat) / 10 ^ places := by
      rw [← Int.cast_natCast, Int.toNat_of_nonneg hnonneg]

end Binary64

namespace IsRounded

variable {q' r' : Rat}

theorem mono (h : IsRounded places q r) (h' : IsRounded places q' r') (hle : q ≤ q') : r ≤ r' := by
  obtain ⟨n, hn, rfl⟩ := h
  obtain ⟨n', hn', rfl⟩ := h'
  have hscaled : q * 10 ^ places ≤ q' * 10 ^ places := by gcongr
  have hcast : (n : Rat) ≤ n' := by exact_mod_cast hn.le_of_le hn' hscaled
  gcongr

theorem natCast (places n : Nat) : IsRounded places n n :=
  ⟨n * 10 ^ places, by simpa using isNearest_intCast (n * 10 ^ places), by simp⟩

/-- A whole number is not passed. -/
theorem le_natCast (h : IsRounded places q r) (hle : q ≤ n) : r ≤ n := h.mono (natCast places n) hle

theorem natCast_le (h : IsRounded places q r) (hle : n ≤ q) : n ≤ r := (natCast places n).mono h hle

/-- An even number is reached from half of the last place below it on. -/
theorem even_le_iff (h : IsRounded places q r) (hn : Even n) :
    n ≤ r ↔ (n : Rat) - halfPlace places ≤ q := by
  obtain ⟨m, hm, rfl⟩ := h
  have heven : Even (n * 10 ^ places : Int) := ((Int.even_coe_nat n).mpr hn).mul_right _
  have hpow : (0 : Rat) < 10 ^ places := by positivity
  have hcast : (n : Rat) ≤ m / 10 ^ places ↔ (n * 10 ^ places : Int) ≤ m := by
    rw [le_div_iff₀ hpow]
    exact_mod_cast Iff.rfl
  have hscaled : ((n * 10 ^ places : Int) : Rat) - 1 / 2 =
      (n - halfPlace places) * 10 ^ places := by
    rw [halfPlace]
    push_cast
    field_simp
  rw [hcast, hm.even_le_iff heven, hscaled, mul_le_mul_iff_of_pos_right hpow]

/-- Below an even number, the rounding gets to it at most, and only from half of the last place
below it on. -/
theorem reaches_even (h : IsRounded places q r) (hn : Even n) (hlt : q < n) :
    r ≤ n ∧ (r = n ↔ (n : Rat) - halfPlace places ≤ q) := by
  have hle : r ≤ n := h.le_natCast hlt.le
  refine ⟨hle, ?_⟩
  rw [← h.even_le_iff hn]
  constructor
  · intro heq
    exact heq.ge
  · intro hge
    exact le_antisymm hle hge

end IsRounded
end SchemaDump
