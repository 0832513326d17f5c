import SchemaDump.Report
import SchemaDump.Proofs.Number.Numerals

/-! Sizes as they are shown. A size is divided until it is below 1024, without any error, and rounded
once in the end; so a larger size is never shown as a smaller quantity, whatever the units are. -/
namespace SchemaDump.Report

open Binary64

variable {n n' i u : Nat} {a : Amount} {us : List String} {unit : String} {number : Text}

/-- The amount is `n / 1024 ^ i`, by whatever divisions. -/
inductive IsPart (n : Nat) : Nat → Amount → Prop
  | whole : IsPart n 0 (.whole n)
  | divided (i : Nat) : IsPart n i (.binary (.finite false ((n : Rat) / 1024 ^ i)))

theorem nearest?_part (hn : n < 2 ^ 53) (hi : i ≤ 107) :
    nearest? ((n : Rat) / 1024 ^ i) = some ((n : Rat) / 1024 ^ i) := by
  have hpow : (1024 : Rat) ^ i = 2 ^ (10 * i) := by
    rw [pow_mul]
    norm_num
  rw [hpow]
  exact nearest?_eq_self hn (by omega)

namespace IsPart

theorem atLeast_iff (h : IsPart n i a) : a.atLeast 1024 = true ↔ 1024 ^ (i + 1) ≤ n := by
  cases h with
  | whole => simp [Amount.atLeast]
  | divided i =>
    have hiff : (1024 : Rat) ≤ n / 1024 ^ i ↔ 1024 ^ (i + 1) ≤ n := by
      rw [le_div_iff₀ (by positivity), ← pow_succ']
      exact_mod_cast Iff.rfl
    simpa [Amount.atLeast] using hiff

theorem divide (h : IsPart n i a) (hn : n < 2 ^ 53) (hi : i ≤ 106) :
    a.divide 1024 = .ok (.finite false ((n : Rat) / 1024 ^ (i + 1))) := by
  have hnearest := nearest?_part (i := i + 1) hn (by omega)
  cases h with
  | whole =>
    rw [zero_add, pow_one] at hnearest ⊢
    simp [Amount.divide, hnearest]
  | divided i =>
    have hquotient : (n : Rat) / 1024 ^ i / (1024 : Nat) = n / 1024 ^ (i + 1) := by
      rw [div_div, pow_succ, Nat.cast_ofNat]
    rw [Amount.divide, ofMagnitude, hquotient, hnearest]

theorem toBinary (h : IsPart n i a) (hn : n < 2 ^ 53) :
    a.toBinary = .ok (.finite false ((n : Rat) / 1024 ^ i)) := by
  cases h with
  | whole =>
    have hnearest := nearest?_part (i := 0) hn (by omega)
    rw [pow_zero, div_one] at hnearest ⊢
    simp [Amount.toBinary, hnearest]
  | divided i => rfl

end IsPart

/-- As long as there is a next unit, the number shown is below 1024 before it is rounded. -/
theorem exists_inUnits (h : IsPart n i a) (hn : n < 2 ^ 53) (hi : i + us.length ≤ 107)
    (hus : us ≠ []) :
    ∃ k unit, us[k]? = some unit ∧
      inUnits a us = .ok ((finite false ((n : Rat) / 1024 ^ (i + k))).fixed 2 ++ ' ' :: unit.toList) ∧
      (k = 0 ∨ 1024 ^ (i + k) ≤ n) ∧ (k + 1 < us.length → n < 1024 ^ (i + k + 1)) := by
  induction us generalizing a i with
  | nil => exact (hus rfl).elim
  | cons unit us ih =>
    rw [List.length_cons] at hi
    rw [inUnits]
    split
    · next hstep =>
      obtain ⟨hatLeast, hne⟩ : a.atLeast 1024 = true ∧ us ≠ [] := by simpa using hstep
      have hle := h.atLeast_iff.mp hatLeast
      rw [h.divide hn (by omega)]
      obtain ⟨k, unit', hunit, hshown, hlow, hhigh⟩ :=
        ih (.divided (n := n) (i + 1)) (by omega) hne
      have hadd : i + 1 + k = i + (k + 1) := by omega
      rw [hadd] at hshown hlow hhigh
      refine ⟨k + 1, unit', by simpa using hunit, hshown, Or.inr ?_, ?_⟩
      · rcases hlow with rfl | hlow
        · exact hle
        · exact hlow
      · intro hk
        rw [List.length_cons] at hk
        exact hhigh (by omega)
    · next hstop =>
      refine ⟨0, unit, rfl, ?_, Or.inl rfl, ?_⟩
      · rw [h.toBinary hn]
        rfl
      · intro hk
        have hne : us ≠ [] := by
          rintro rfl
          simp at hk
        have hatLeast : ¬ a.atLeast 1024 = true := by
          intro hatLeast
          exact hstop (by simpa using ⟨hatLeast, hne⟩)
        rw [h.atLeast_iff] at hatLeast
        exact not_le.mp hatLeast

/-- `number` shows the size `n` in the unit `u`, the largest that is not larger than the size. -/
structure Shows (n u : Nat) (number : Text) : Prop where
  unit_le : u ≤ 3
  pow_le : 1024 ^ u ≤ max n 1
  greatest : ∀ v ≤ 3, 1024 ^ v ≤ n → v ≤ u
  isNumeral : IsNumeral 2 number
  isRounded : IsRounded 2 ((n : Rat) / 1024 ^ u) (reading number)

theorem exists_shows (hn : n < 2 ^ 53) : ∃ u unit number, units[u]? = some unit ∧
    size (.whole n) = .ok (number ++ ' ' :: unit.toList) ∧ Shows n u number := by
  obtain ⟨u, unit, hunit, hsize, hlow, hhigh⟩ :=
    exists_inUnits .whole hn (by decide) (show units ≠ [] by decide)
  rw [zero_add] at hsize hlow hhigh
  have hu : u < 4 := (List.getElem?_eq_some_iff.mp hunit).1
  refine ⟨u, unit, _, hunit, hsize, ?_⟩
  refine ⟨by omega, ?_, ?_, isNumeral_fixed 2 _, isRounded_fixed (by positivity) 2⟩
  · rcases hlow with rfl | hlow
    · simp
    · exact hlow.trans (le_max_left _ _)
  · intro v hv hle
    by_contra hlt
    have hnext : n < 1024 ^ (u + 1) := hhigh (show u + 1 < 4 by omega)
    have hpow : 1024 ^ (u + 1) ≤ 1024 ^ v := Nat.pow_le_pow_right (by decide) (by omega)
    omega

namespace Shows

theorem pow_le_of_ne_zero (h : Shows n u number) (hu : u ≠ 0) : 1024 ^ u ≤ n := by
  have hmax := h.pow_le
  have hone : 1 < 1024 ^ u := Nat.one_lt_pow hu (by decide)
  omega

theorem lt_pow (h : Shows n u number) (hu : u < 3) : n < 1024 ^ (u + 1) := by
  by_contra hle
  have := h.greatest (u + 1) hu (not_lt.mp hle)
  omega

/-- Below the last unit, the rounding reaches 1024 at most. -/
theorem reading_le (h : Shows n u number) (hu : u < 3) : reading number ≤ 1024 := by
  apply h.isRounded.le_natCast (n := 1024)
  have hlt : (n : Rat) < 1024 ^ (u + 1) := by exact_mod_cast h.lt_pow hu
  rw [div_le_iff₀ (by positivity), Nat.cast_ofNat, ← pow_succ']
  exact hlt.le

theorem one_le_reading (h : Shows n u number) (hu : u ≠ 0) : 1 ≤ reading number := by
  have hcast : (1024 : Rat) ^ u ≤ n := by exact_mod_cast h.pow_le_of_ne_zero hu
  have hpart : (1 : Nat) ≤ (n : Rat) / 1024 ^ u := by
    rw [le_div_iff₀ (by positivity), Nat.cast_one, one_mul]
    exact hcast
  simpa using h.isRounded.natCast_le hpart

/-- A larger size is shown as at least the same quantity. -/
theorem mono {u' : Nat} {number' : Text} (h' : Shows n' u' number') (h : Shows n u number)
    (hle : n' ≤ n) : reading number' * 1024 ^ u' ≤ reading number * 1024 ^ u := by
  have hunits : u' ≤ u := by
    by_cases hzero : u' = 0
    · omega
    · exact h.greatest u' h'.unit_le ((h'.pow_le_of_ne_zero hzero).trans hle)
  obtain hlt | rfl := hunits.lt_or_eq
  · -- the smaller size rounds to 1024 at most, and that is one of the next unit
    have hsmall := h'.reading_le (lt_of_lt_of_le hlt h.unit_le)
    have hlarge := h.one_le_reading (by omega)
    calc reading number' * 1024 ^ u' ≤ 1024 * 1024 ^ u' := by gcongr
      _ = 1024 ^ (u' + 1) := (pow_succ' _ _).symm
      _ ≤ 1024 ^ u := pow_le_pow_right₀ (by norm_num) hlt
      _ ≤ reading number * 1024 ^ u := le_mul_of_one_le_left (by positivity) hlarge
  · have hpart : (n' : Rat) / 1024 ^ u' ≤ n / 1024 ^ u' := by gcongr
    gcongr
    exact h'.isRounded.mono h.isRounded hpart

end Shows

/-- The number of bytes that a size denotes as it is shown. -/
def quantity (s : Text) : Rat :=
  let unit := String.ofList ((s.dropWhile (· ≠ ' ')).drop 1)
  reading (s.takeWhile (· ≠ ' ')) * 1024 ^ units.idxOf unit

theorem quantity_eq {places : Nat} (hnumeral : IsNumeral places number)
    (hunit : units[u]? = some unit) :
    quantity (number ++ ' ' :: unit.toList) = reading number * 1024 ^ u := by
  have hblank : ∀ c ∈ number, decide (c ≠ ' ') = true := by
    intro c hc
    have hmark := hnumeral.isDigit_or_point c hc
    rw [decide_eq_true_eq]
    rintro rfl
    revert hmark
    decide
  have hidx : units.idxOf unit = u := by
    obtain ⟨hu, rfl⟩ := List.getElem?_eq_some_iff.mp hunit
    exact List.Nodup.idxOf_getElem (by decide) u hu
  rw [quantity, List.takeWhile_append_of_pos hblank, List.dropWhile_append_of_pos hblank]
  simp [hidx]

/-- A size is shown in the largest unit that is not larger, rounded to two places, and a larger size
is never shown as a smaller quantity. -/
theorem size_whole {n : Nat} (hn : n < 2 ^ 53) :
    ∃ u unit number, units[u]? = some unit ∧
      size (.whole n) = .ok (number ++ ' ' :: unit.toList) ∧
      (u ≤ 3 ∧ 1024 ^ u ≤ max n 1 ∧ ∀ v ≤ 3, 1024 ^ v ≤ n → v ≤ u) ∧
      IsNumeral 2 number ∧ IsRounded 2 ((n : Rat) / 1024 ^ u) (reading number) ∧
      quantity (number ++ ' ' :: unit.toList) = reading number * 1024 ^ u ∧
      ∀ n' ≤ n, ∃ s', size (.whole n') = .ok s' ∧
        quantity s' ≤ quantity (number ++ ' ' :: unit.toList) := by
  obtain ⟨u, unit, number, hunit, hsize, h⟩ := exists_shows hn
  have hquantity := quantity_eq h.isNumeral hunit
  refine ⟨u, unit, number, hunit, hsize, ⟨h.unit_le, h.pow_le, h.greatest⟩, h.isNumeral,
    h.isRounded, hquantity, ?_⟩
  intro n' hle
  obtain ⟨u', unit', number', hunit', hsize', h'⟩ := exists_shows (lt_of_le_of_lt hle hn)
  refine ⟨_, hsize', ?_⟩
  rw [hquantity, quantity_eq h'.isNumeral hunit']
  exact h'.mono h hle

/-- The largest size in the second unit, and the smallest in the third. -/
theorem size_whole_across_units :
    1048576 < 2 ^ 53 ∧ 1048575 ≤ 1048576 ∧
      size (.whole 1048575) = .ok "1024.00 kB".toList ∧
      size (.whole 1048576) = .ok "1.00 MB".toList ∧
      quantity "1024.00 kB".toList ≤ quantity "1.00 MB".toList := by
  have hsmall : size (.whole 1048575) = .ok "1024.00 kB".toList := by decide +kernel
  have hlarge : size (.whole 1048576) = .ok "1.00 MB".toList := by decide +kernel
  obtain ⟨u, unit, number, -, hsize, -, -, -, -, hmono⟩ :=
    size_whole (n := 1048576) (by decide)
  obtain ⟨s', hs', hle⟩ := hmono 1048575 (by decide)
  obtain rfl : "1024.00 kB".toList = s' := Except.ok.inj (hsmall.symm.trans hs')
  obtain hnumber : "1.00 MB".toList = number ++ ' ' :: unit.toList :=
    Except.ok.inj (hlarge.symm.trans hsize)
  exact ⟨by decide, by decide, hsmall, hlarge, hnumber ▸ hle⟩

end SchemaDump.Report
