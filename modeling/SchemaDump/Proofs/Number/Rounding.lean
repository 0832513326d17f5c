import SchemaDump.Number.Binary64
import Mathlib.Algebra.Order.Field.Power
import Mathlib.Algebra.Ring.Int.Parity
import Mathlib.Data.Rat.Floor
import Mathlib.Tactic.FieldSimp
import Mathlib.Tactic.Linarith

/-! Rounding to the nearest integer, and to the nearest binary64 number. The first keeps the order
and fixes the integers, the second fixes fractions that are short enough. -/
namespace SchemaDump

variable {p q : Rat} {m n : Int}

/-- `n` is the integer nearest to `q`, and of two the even one. -/
structure IsNearest (q : Rat) (n : Int) : Prop where
  error_le : |q - n| ≤ 1 / 2
  even : |q - n| = 1 / 2 → Even n

theorem IsNearest.bounds (h : IsNearest q n) : (n : Rat) - 1 / 2 ≤ q ∧ q ≤ n + 1 / 2 := by
  obtain ⟨hlow, hhigh⟩ := abs_le.mp h.error_le
  constructor <;> linarith

theorem IsNearest.le_of_le (hp : IsNearest p m) (hq : IsNearest q n) (h : p ≤ q) : m ≤ n := by
  by_contra hlt
  obtain ⟨hp₁, -⟩ := hp.bounds
  obtain ⟨-, hq₂⟩ := hq.bounds
  have hle : n + 1 ≤ m := by omega
  have hcast : (n : Rat) + 1 ≤ m := by exact_mod_cast hle
  -- both lie halfway between `n` and `m`
  have hpm : p = m - 1 / 2 := by linarith
  have hqn : q = n + 1 / 2 := by linarith
  have hm : Even m := hp.even (by rw [hpm]; norm_num [abs_of_neg])
  have hn : Even n := hq.even (by rw [hqn]; norm_num [abs_of_pos])
  have hmn : m = n + 1 := by
    have : (m : Rat) = n + 1 := by linarith
    exact_mod_cast this
  rw [hmn] at hm
  exact (Int.not_even_iff_odd.mpr hn.add_one) hm

theorem IsNearest.unique (hm : IsNearest q m) (hn : IsNearest q n) : m = n :=
  le_antisymm (hm.le_of_le hn le_rfl) (hn.le_of_le hm le_rfl)

theorem isNearest_intCast (n : Int) : IsNearest n n where
  error_le := by norm_num
  even h := by norm_num at h

/-- An even integer is reached from half a place below it on. -/
theorem IsNearest.even_le_iff (h : IsNearest q m) (hn : Even n) : n ≤ m ↔ (n : Rat) - 1 / 2 ≤ q := by
  have hhalf : IsNearest ((n : Rat) - 1 / 2) n := {
    error_le := by norm_num [abs_of_neg]
    even := fun _ => hn }
  constructor
  · intro hle
    have hcast : (n : Rat) ≤ m := by exact_mod_cast hle
    have hlow := h.bounds.1
    linarith
  · exact fun hle => hhalf.le_of_le h hle

theorem isNearest_roundHalfEven (q : Rat) : IsNearest q (roundHalfEven q) := by
  have hfloor : (q.floor : Rat) ≤ q := Rat.floor_le q
  have hnext : q < (q.floor : Rat) + 1 := by exact_mod_cast Rat.lt_floor_add_one q
  rw [roundHalfEven]
  split
  · next hup =>
    have hhalf : 1 ≤ 2 * (q - q.floor) := by
      rcases hup with h | ⟨h, -⟩ <;> linarith
    have herror : |q - (q.floor + 1 : Int)| = q.floor + 1 - q := by
      push_cast
      rw [abs_sub_comm, abs_of_pos]
      linarith
    refine ⟨by rw [herror]; linarith, fun htie => ?_⟩
    rw [herror] at htie
    rcases hup with h | ⟨-, hodd⟩
    · linarith
    · exact (Int.odd_iff.mpr hodd).add_one
  · next hdown =>
    obtain ⟨hle, heven⟩ := not_or.mp hdown
    have herror : |q - q.floor| = q - q.floor := abs_of_nonneg (by linarith)
    refine ⟨by rw [herror]; linarith, fun htie => ?_⟩
    rw [herror] at htie
    have hodd : ¬ q.floor % 2 = 1 := fun hodd => heven ⟨by linarith, hodd⟩
    rw [Int.even_iff]
    omega

theorem roundHalfEven_intCast (n : Int) : roundHalfEven n = n :=
  (isNearest_roundHalfEven n).unique (isNearest_intCast n)

theorem roundHalfEven_nonneg (h : 0 ≤ q) : 0 ≤ roundHalfEven q :=
  (isNearest_intCast 0).le_of_le (isNearest_roundHalfEven q) (by exact_mod_cast h)

theorem two_zpow_floorLog2_le (hq : 0 < q) : (2 : Rat) ^ floorLog2 q ≤ q := by
  have hnum : 0 < q.num := Rat.num_pos.mpr hq
  have hden : (0 : Rat) < q.den := by exact_mod_cast q.den_pos
  have hlow : (2 : Rat) ^ q.num.natAbs.log2 ≤ q.num := by
    have hle : 2 ^ q.num.natAbs.log2 ≤ q.num.natAbs := Nat.log2_self_le (by omega)
    have hint : (2 : Int) ^ q.num.natAbs.log2 ≤ q.num := by
      rw [← Int.natAbs_of_nonneg hnum.le]
      exact_mod_cast hle
    exact_mod_cast hint
  have hhigh : (q.den : Rat) ≤ 2 ^ (q.den.log2 + 1) := by
    exact_mod_cast (Nat.lt_log2_self (n := q.den)).le
  -- a quotient of two numbers has at least the difference of their lengths, but for one
  have hprev : (2 : Rat) ^ ((q.num.natAbs.log2 : Int) - q.den.log2 - 1) ≤ q := by
    calc (2 : Rat) ^ ((q.num.natAbs.log2 : Int) - q.den.log2 - 1)
        = 2 ^ q.num.natAbs.log2 / 2 ^ (q.den.log2 + 1) := by
          rw [sub_sub, zpow_sub₀ two_ne_zero, zpow_natCast]
          norm_cast
      _ ≤ q.num / q.den := div_le_div₀ (by exact_mod_cast hnum.le) hlow hden hhigh
      _ = q := Rat.num_div_den q
  rw [floorLog2]
  split
  · exact hprev
  · next h => exact not_lt.mp h

theorem floorLog2_lt {e : Int} (hq : 0 < q) (h : q < 2 ^ e) : floorLog2 q < e := by
  rw [← zpow_lt_zpow_iff_right₀ (one_lt_two (α := Rat))]
  exact (two_zpow_floorLog2_le hq).trans_lt h

namespace Binary64

theorem spacing_pos (q : Rat) : 0 < spacing q := zpow_pos two_pos _

theorem nearest?_of_multiple (hn : q = n * spacing q) (hlt : q < 2 ^ (1024 : Int)) :
    nearest? q = some q := by
  rw [nearest?]
  split
  · next hzero => rw [hzero]
  · have hquotient : q / spacing q = n := (div_eq_iff (spacing_pos q).ne').mpr hn
    have hrounded : roundHalfEven (q / spacing q) * spacing q = q := by
      rw [hquotient, roundHalfEven_intCast, ← hn]
    rw [hrounded, if_pos hlt]

/-- A fraction of at most 53 binary digits, of which not too many stand behind the point, is a
binary64 number. -/
theorem nearest?_eq_self {m k : Nat} (hm : m < 2 ^ 53) (hk : k ≤ 1074) :
    nearest? ((m : Rat) / 2 ^ k) = some ((m : Rat) / 2 ^ k) := by
  obtain rfl | hpos := Nat.eq_zero_or_pos m
  · simp [nearest?]
  generalize hq : (m : Rat) / 2 ^ k = q
  have hzpow : q = m * 2 ^ (-(k : Int)) := by
    rw [← hq, zpow_neg, zpow_natCast, div_eq_mul_inv]
  have hcast : (m : Rat) < 2 ^ (53 : Int) := by exact_mod_cast hm
  have hlog : floorLog2 q < 53 + -(k : Int) := by
    apply floorLog2_lt
    · rw [← hq]
      positivity
    · rw [hzpow, zpow_add₀ two_ne_zero]
      gcongr
  obtain ⟨j, hj⟩ : ∃ j : Nat, -(k : Int) = j + max (floorLog2 q - 52) (-1074) :=
    ⟨(-(k : Int) - max (floorLog2 q - 52) (-1074)).toNat, by omega⟩
  apply nearest?_of_multiple (n := m * 2 ^ j)
  · calc q = m * 2 ^ (-(k : Int)) := hzpow
      _ = m * (2 ^ j * spacing q) := by rw [hj, zpow_add₀ two_ne_zero, zpow_natCast, spacing]
      _ = ((m * 2 ^ j : Int) : Rat) * spacing q := by push_cast; ring
  · calc q = (m : Rat) / 2 ^ k := hq.symm
      _ ≤ m := div_le_self (by positivity) (one_le_pow₀ one_le_two)
      _ < 2 ^ (53 : Int) := hcast
      _ < 2 ^ (1024 : Int) := zpow_lt_zpow_right₀ one_lt_two (by norm_num)

theorem nearest?_nonneg {r : Rat} (hq : 0 ≤ q) (h : nearest? q = some r) : 0 ≤ r := by
  rw [nearest?] at h
  split at h
  · cases h
    exact le_rfl
  · have hround : (0 : Rat) ≤ roundHalfEven (q / spacing q) := by
      exact_mod_cast roundHalfEven_nonneg (div_nonneg hq (spacing_pos q).le)
    have hrounded := mul_nonneg hround (spacing_pos q).le
    dsimp only at h
    split at h <;> cases h
    exact hrounded

end Binary64
end SchemaDump
