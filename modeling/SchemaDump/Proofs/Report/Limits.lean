import SchemaDump.Proofs.Report.Sizes

/-! Limits of the numbers that are shown. The unit is chosen before the number is rounded, so just
below a limit the number is shown as the limit itself. -/
namespace SchemaDump.Report

open Binary64

variable {x seconds : Rat} {a : Amount} {n u : Nat} {number : Text}

/-- The amount is the number `x`, which is not negative. -/
inductive IsAmount : Rat → Amount → Prop
  | whole (n : Nat) : IsAmount n (.whole n)
  | binary {x : Rat} : 0 ≤ x → IsAmount x (.binary (.finite false x))

namespace IsAmount

theorem nonneg (h : IsAmount x a) : 0 ≤ x := by
  cases h with
  | whole n => positivity
  | binary hx => exact hx

theorem below_iff (h : IsAmount x a) (n : Nat) : a.below n = true ↔ x < n := by
  cases h with
  | whole k => simp [Amount.below]
  | binary hx => simp [Amount.below]

theorem not_below (h : IsAmount x a) (hx : 1000 ≤ x) : ¬ a.below 1000 = true := by
  rw [h.below_iff]
  exact not_lt.mpr hx

theorem toBinary (h : IsAmount x a) (hx : x < 1000) : a.toBinary = .ok (.finite false x) := by
  cases h with
  | whole n =>
    have hn : n < 1000 := by exact_mod_cast hx
    have hnearest := nearest?_eq_self (m := n) (k := 0) (by omega) (by decide)
    rw [pow_zero, div_one] at hnearest
    simp [Amount.toBinary, hnearest]
  | binary hx => rfl

theorem divide_of_some (h : IsAmount x a) (hs : nearest? (x / 1000) = some seconds) :
    a.divide 1000 = .ok (.finite false seconds) := by
  cases h with
  | whole n => simp [Amount.divide, hs]
  | binary hx => simp [Amount.divide, ofMagnitude, hs]

/-- An integer that is too large is refused, a binary number would be infinite. -/
theorem divide_of_none (h : IsAmount x a) (hs : nearest? (x / 1000) = none) :
    a.divide 1000 = .error .quotientTooLarge ∨ a.divide 1000 = .ok (.infinite false) := by
  cases h with
  | whole n =>
    left
    simp [Amount.divide, hs]
  | binary hx =>
    right
    simp [Amount.divide, ofMagnitude, hs]

end IsAmount

theorem duration_of_lt (h : IsAmount x a) (hx : x < 1000) :
    duration a = .ok ((finite false x).fixed 0 ++ " ms".toList) := by
  rw [duration, if_pos ((h.below_iff 1000).mpr hx), h.toBinary hx]
  rfl

theorem duration_of_some (h : IsAmount x a) (hx : 1000 ≤ x)
    (hs : nearest? (x / 1000) = some seconds) :
    duration a = if seconds < 60 then .ok ((finite false seconds).fixed 2 ++ " sec".toList)
      else minutes (finite false seconds) := by
  rw [duration, if_neg (h.not_below hx), h.divide_of_some hs]
  simp [Amount.below]

theorem exists_error_of_none (h : IsAmount x a) (hx : 1000 ≤ x) (hs : nearest? (x / 1000) = none) :
    ∃ e, duration a = .error e := by
  rw [duration, if_neg (h.not_below hx)]
  rcases h.divide_of_none hs with hd | hd
  · exact ⟨_, by rw [hd]⟩
  · exact ⟨_, by rw [hd]; rfl⟩

/-- The number is some sixties and a remainder. -/
theorem exists_sixties (hseconds : 0 ≤ seconds) :
    ∃ k : Nat, 60 * (k : Rat) ≤ seconds ∧ seconds < 60 * (k + 1) ∧
      modSixty seconds = seconds - 60 * k := by
  have hlow : ((seconds / 60).floor : Rat) ≤ seconds / 60 := Rat.floor_le _
  have hhigh : seconds / 60 < ((seconds / 60).floor : Rat) + 1 := by
    exact_mod_cast Rat.lt_floor_add_one (seconds / 60)
  have hnonneg : 0 ≤ (seconds / 60).floor := by
    rw [Rat.le_floor_iff]
    push_cast
    positivity
  obtain ⟨k, hk⟩ := Int.eq_ofNat_of_zero_le hnonneg
  rw [modSixty, hk]
  rw [hk, Int.cast_natCast] at hlow hhigh
  refine ⟨k, by linarith, by linarith, by rw [Int.cast_natCast]⟩

/-- What is shown of `x` gets to the limit at most, and just where `x` lies below it by half of the
last place or less. -/
structure Reaches (limit : Nat) (places : Nat) (x : Rat) (number : Text) : Prop where
  isNumeral : IsNumeral places number
  le_limit : reading number ≤ limit
  eq_limit_iff : reading number = limit ↔ limit - halfPlace places ≤ x

theorem reaches_fixed {limit : Nat} (places : Nat) (heven : Even limit) (hx : 0 ≤ x)
    (hlt : x < limit) : Reaches limit places x ((finite false x).fixed places) := by
  have hreaches := (isRounded_fixed hx places).reaches_even heven hlt
  exact ⟨isNumeral_fixed places x, hreaches.1, hreaches.2⟩

theorem Shows.reaches (h : Shows n u number) (hu : u < 3) :
    Reaches 1024 2 ((n : Rat) / 1024 ^ u) number := by
  have hlt : (n : Rat) / 1024 ^ u < (1024 : Nat) := by
    rw [div_lt_iff₀ (by positivity), Nat.cast_ofNat, ← pow_succ']
    exact_mod_cast h.lt_pow hu
  have hreaches := h.isRounded.reaches_even (by decide) hlt
  exact ⟨h.isNumeral, hreaches.1, hreaches.2⟩

/-- Below a minute there is one number, and from a minute on the seconds that are left. -/
theorem exists_reaches_seconds (h : IsAmount x a) (hx : 1000 ≤ x)
    (hs : nearest? (x / 1000) = some seconds) :
    (seconds < 60 ∧ ∃ number, duration a = .ok (number ++ " sec".toList) ∧
      Reaches 60 2 seconds number) ∨
    (60 ≤ seconds ∧ ∃ whole number : Text, ∃ k : Nat,
      duration a = .ok (whole ++ " min ".toList ++ number ++ " sec".toList) ∧
      IsNumeral 0 whole ∧ 60 * (k : Rat) ≤ seconds ∧ seconds < 60 * (k + 1) ∧
      Reaches 60 0 (seconds - 60 * k) number) := by
  have hnonneg : 0 ≤ seconds := nearest?_nonneg (div_nonneg h.nonneg (by norm_num)) hs
  have hduration := duration_of_some h hx hs
  by_cases hlt : seconds < 60
  · left
    rw [if_pos hlt] at hduration
    exact ⟨hlt, _, hduration, reaches_fixed 2 (by decide) hnonneg hlt⟩
  · right
    rw [if_neg hlt] at hduration
    obtain ⟨k, hlow, hhigh, hmod⟩ := exists_sixties hnonneg
    rw [minutes, hmod] at hduration
    refine ⟨not_lt.mp hlt, _, _, k, hduration, .whole (isWhole_toDigits _), hlow, hhigh, ?_⟩
    exact reaches_fixed 0 (by decide) (by linarith) (by push_cast; linarith)

/-- A size in a unit below the last, a number of milliseconds, a number of seconds, and the seconds
left of some minutes: each is shown as its limit at most, and as the limit itself just where it lies
below it by half of the last place or less before it is rounded. -/
theorem limit_shown_iff (hn : n < 2 ^ 53) (h : IsAmount x a) :
    (∃ u unit number, units[u]? = some unit ∧
      size (.whole n) = .ok (number ++ ' ' :: unit.toList) ∧ IsNumeral 2 number ∧
      (u < 3 → Reaches 1024 2 ((n : Rat) / 1024 ^ u) number)) ∧
    ((x < 1000 ∧ ∃ number, duration a = .ok (number ++ " ms".toList) ∧
      Reaches 1000 0 x number) ∨
    (1000 ≤ x ∧ nearest? (x / 1000) = none ∧ ∃ e, duration a = .error e) ∨
    (1000 ≤ x ∧ ∃ seconds, nearest? (x / 1000) = some seconds ∧
      ((seconds < 60 ∧ ∃ number, duration a = .ok (number ++ " sec".toList) ∧
        Reaches 60 2 seconds number) ∨
      (60 ≤ seconds ∧ ∃ whole number : Text, ∃ k : Nat,
        duration a = .ok (whole ++ " min ".toList ++ number ++ " sec".toList) ∧
        IsNumeral 0 whole ∧ 60 * (k : Rat) ≤ seconds ∧ seconds < 60 * (k + 1) ∧
        Reaches 60 0 (seconds - 60 * k) number)))) := by
  constructor
  · obtain ⟨u, unit, number, hunit, hsize, hshows⟩ := exists_shows hn
    exact ⟨u, unit, number, hunit, hsize, hshows.isNumeral, hshows.reaches⟩
  by_cases hx : x < 1000
  · left
    exact ⟨hx, _, duration_of_lt h hx, reaches_fixed 0 (by decide) h.nonneg hx⟩
  right
  rw [not_lt] at hx
  cases hs : nearest? (x / 1000) with
  | none => exact Or.inl ⟨hx, rfl, exists_error_of_none h hx hs⟩
  | some seconds => exact Or.inr ⟨hx, seconds, rfl, exists_reaches_seconds h hx hs⟩

/-- The largest size in the second unit, and half a millisecond less than a second. -/
theorem limit_shown_of_just_below :
    1048575 < 2 ^ 53 ∧ IsAmount (1999 / 2) (.binary (.finite false (1999 / 2))) ∧
      (∃ u unit number, units[u]? = some unit ∧
        size (.whole 1048575) = .ok (number ++ ' ' :: unit.toList) ∧
        (u < 3 → Reaches 1024 2 (((1048575 : Nat) : Rat) / 1024 ^ u) number)) ∧
      ∃ number, duration (.binary (.finite false (1999 / 2))) = .ok (number ++ " ms".toList) ∧
        reading number = 1000 := by
  have hamount : IsAmount (1999 / 2) (.binary (.finite false (1999 / 2))) := .binary (by norm_num)
  obtain ⟨⟨u, unit, number, hunit, hsize, -, hreaches⟩, hduration⟩ :=
    limit_shown_iff (n := 1048575) (by decide) hamount
  refine ⟨by decide, hamount, ⟨u, unit, number, hunit, hsize, hreaches⟩, ?_⟩
  obtain ⟨-, number, hms, hreaches⟩ | ⟨hx, -⟩ | ⟨hx, -⟩ := hduration
  · refine ⟨number, hms, ?_⟩
    have heq := hreaches.eq_limit_iff.mpr (by norm_num [halfPlace])
    simpa using heq
  · norm_num at hx
  · norm_num at hx

/-- Each of the limits is shown. -/
theorem limits_are_shown :
    (∃ number, size (.whole 1048575) = .ok (number ++ " kB".toList) ∧ ¬ reading number < 1024) ∧
    (∃ number, duration (.binary (.finite false (1999 / 2))) = .ok (number ++ " ms".toList) ∧
      ¬ reading number < 1000) ∧
    (∃ number, duration (.whole 59999) = .ok (number ++ " sec".toList) ∧ ¬ reading number < 60) ∧
    ∃ number, duration (.whole 119999) = .ok ("1 min ".toList ++ number ++ " sec".toList) ∧
      ¬ reading number ≤ 59 :=
  ⟨⟨"1024.00".toList, by decide +kernel⟩, ⟨"1000".toList, by decide +kernel⟩,
    ⟨"60.00".toList, by decide +kernel⟩, ⟨"60".toList, by decide +kernel⟩⟩

end SchemaDump.Report
