import SchemaDump.Json.Bytes
import SchemaDump.Proofs.Encoding.Utf8
import Mathlib.Algebra.BigOperators.Group.List.Basic

/-! Strings in JSON documents: what is read is what was written, whatever characters it has. -/
namespace SchemaDump

variable {n d : Nat} {s : Text}

/-- A further digit stands at the end, whether or not there are zeros in front. -/
theorem Text.hex_succ (width n : Nat) :
    hex (width + 2) n = hex (width + 1) (n / 0x10) ++ [Nat.digitChar (n % 0x10)] := by
  have hdigits := Nat.toDigits_eq_if (b := 16) (n := n) (by decide)
  split at hdigits
  · next h =>
    have hzero : Nat.toDigits 16 (n / 0x10) = ['0'] := by rw [Nat.div_eq_of_lt h]; rfl
    simp [hex, hdigits, hzero, Nat.mod_eq_of_lt h, List.replicate_succ']
  · simp [hex, hdigits]

theorem Text.hex_four (h : n < 0x10000) :
    hex 4 n = [Nat.digitChar (n / 0x1000), Nat.digitChar (n / 0x100 % 0x10),
      Nat.digitChar (n / 0x10 % 0x10), Nat.digitChar (n % 0x10)] := by
  have hfirst : hex 1 (n / 0x1000) = [Nat.digitChar (n / 0x1000)] := by
    rw [hex, Nat.toDigits_eq_if (by decide), if_pos (by omega)]
    rfl
  rw [hex_succ, hex_succ, hex_succ, Nat.div_div_eq_div_mul, Nat.div_div_eq_div_mul, hfirst]
  simp [Nat.div_div_eq_div_mul]

/-- A character has one unit, which is no surrogate, or a pair of them. -/
theorem Utf16.units_cases (c : Char) :
    (units c = [c.toNat] ∧ c.toNat < 0x10000 ∧ isHigh c.toNat = false ∧ isLow c.toNat = false) ∨
      ∃ high low, units c = [high, low] ∧ isHigh high = true ∧ isLow low = true ∧
        joined high low = c := by
  have hvalid : c.toNat.isValidChar := c.valid
  have hchar : Char.ofNat c.toNat = c := Char.ofNat_toNat c
  simp only [Nat.isValidChar] at hvalid
  simp only [units]
  generalize c.toNat = n at hvalid hchar ⊢
  split
  · next hn =>
    refine Or.inl ⟨rfl, hn, ?_, ?_⟩ <;>
      simp only [isHigh, isLow, Bool.and_eq_false_iff, decide_eq_false_iff_not] <;> omega
  · next hn =>
    have hnumber : 0x10000 + (0xD800 + (n - 0x10000) / 0x400 - 0xD800) * 0x400 +
        (0xDC00 + (n - 0x10000) % 0x400 - 0xDC00) = n := by omega
    refine Or.inr ⟨_, _, rfl, ?_, ?_, ?_⟩
    · simp only [isHigh, Bool.and_eq_true, decide_eq_true_eq]
      omega
    · simp only [isLow, Bool.and_eq_true, decide_eq_true_eq]
      omega
    · rw [joined, hnumber, hchar]

namespace Json

theorem hexDigit?_digitChar (h : d < 0x10) : hexDigit? (Nat.digitChar d) = some d := by
  have hall : ∀ d < 0x10, hexDigit? (Nat.digitChar d) = some d := by decide
  exact hall d h

theorem unit?_hex (h : n < 0x10000) (s : Text) : unit? (Text.hex 4 n ++ s) = some (n, s) := by
  rw [Text.hex_four h]
  simp only [List.cons_append, List.nil_append, unit?]
  rw [hexDigit?_digitChar (by omega), hexDigit?_digitChar (by omega),
    hexDigit?_digitChar (by omega), hexDigit?_digitChar (by omega)]
  simp only [Option.bind_eq_bind, Option.bind_some, Option.pure_def, Option.some.injEq,
    Prod.mk.injEq, and_true]
  omega

theorem escapedUnit?_single (h : n < 0x10000) (hhigh : Utf16.isHigh n = false) (s : Text) :
    escapedUnit? (Text.hex 4 n ++ s) = some (character n, s) := by
  rw [escapedUnit?, unit?_hex h]
  simp only [Option.bind_eq_bind, Option.bind_some]
  split <;> simp [hhigh]

theorem escapedUnit?_pair {high low : Nat} (hhigh : Utf16.isHigh high = true)
    (hlow : Utf16.isLow low = true) (s : Text) :
    escapedUnit? (Text.hex 4 high ++ unit low ++ s) = some (Utf16.joined high low, s) := by
  have hh : high < 0x10000 := by
    simp only [Utf16.isHigh, Bool.and_eq_true, decide_eq_true_eq] at hhigh
    omega
  have hl : low < 0x10000 := by
    simp only [Utf16.isLow, Bool.and_eq_true, decide_eq_true_eq] at hlow
    omega
  rw [escapedUnit?, List.append_assoc, unit?_hex hh, unit]
  simp [hhigh, unit?_hex hl, hlow]

/-- One character is read from as many as it was written with. -/
theorem characters_renderChar (read : Text) (n : Nat) (c : Char) (s : Text) :
    characters read (n + 1) (renderChar c ++ s) = characters (c :: read) n s := by
  rw [renderChar]
  split_ifs with hquote hprintable hn hr ht hb hf
  · obtain rfl | rfl := hquote <;> simp [characters, escaped?]
  · have hcontrol : ¬ c.toNat < 0x20 := by
      have hspace : (' ' : Char).toNat ≤ c.toNat := hprintable.1
      exact Nat.not_lt.mpr hspace
    obtain ⟨hq, hb⟩ := not_or.mp hquote
    simp [characters, hq, hb, hcontrol]
  · simp [characters, escaped?, hn]
  · simp [characters, escaped?, hr]
  · simp [characters, escaped?, ht]
  · simp [characters, escaped?, hb]
  · simp [characters, escaped?, hf]
  · obtain ⟨hunits, hlt, hhigh, hlow⟩ | ⟨high, low, hunits, hhigh, hlow, hjoined⟩ :=
      Utf16.units_cases c
    · have hread := escapedUnit?_single hlt hhigh s
      have hchar : character c.toNat = c := by simp [character, hhigh, hlow]
      rw [hchar] at hread
      simp [hunits, characters, escaped?, unit, hread]
    · have hread := escapedUnit?_pair hhigh hlow s
      rw [hjoined, unit, List.append_assoc] at hread
      simp only [List.cons_append] at hread
      simp [hunits, characters, escaped?, unit, hread]

/-- A string is read as it is, up to its closing quote. -/
theorem characters_flatMap (read : Text) (h : s.length < n) (rest : Text) :
    characters read n (s.flatMap renderChar ++ '"' :: rest) = some (read.reverse ++ s, rest) := by
  induction s generalizing read n with
  | nil =>
    obtain ⟨n, rfl⟩ := Nat.exists_eq_add_of_lt h
    simp [characters]
  | cons c s ih =>
    obtain ⟨n, rfl⟩ : ∃ m, n = m + 1 := ⟨n - 1, by simp at h; omega⟩
    rw [List.flatMap_cons, List.append_assoc, characters_renderChar,
      ih (c :: read) (by simpa using h)]
    simp

theorem one_le_length_renderChar (c : Char) : 1 ≤ (renderChar c).length := by
  rw [renderChar]
  obtain ⟨hunits, -⟩ | ⟨high, low, hunits, -⟩ := Utf16.units_cases c <;>
    split_ifs <;> simp [hunits, unit]

theorem length_le_length_flatMap (s : Text) : s.length ≤ (s.flatMap renderChar).length := by
  have hone : ∀ n ∈ s.map fun c => (renderChar c).length, 1 ≤ n := by
    simpa using fun c _ => one_le_length_renderChar c
  have hsum := List.length_le_sum_of_one_le _ hone
  rwa [List.length_map, ← List.length_flatMap] at hsum

theorem skip_cons {c : Char} (hc : isSpace c = false) (s : Text) : skip (c :: s) = c :: s :=
  List.dropWhile_cons_of_neg (by simp [hc])

theorem skip_space (s : Text) : skip (' ' :: s) = skip s := List.dropWhile_cons_of_pos rfl

theorem value?_string (h : s.length < n) (rest : Text) :
    value? (n + 1) (renderString s ++ rest) = some (string s, rest) := by
  rw [renderString, List.append_assoc, List.cons_append, List.singleton_append, value?,
    characters_flatMap [] h]
  rfl

/-- A document that begins with a brace and a quote is in UTF-8. -/
theorem text?_brace_quote (s : Bytes) :
    text? (0x7B :: 0x22 :: s) = ofUtf8? (0x7B :: 0x22 :: s) := by
  -- the encodings are told apart by up to four bytes
  obtain _ | ⟨b, _ | ⟨c, s⟩⟩ := s <;> rfl

theorem text?_encode (s : Text) :
    text? (Utf8.encode ('{' :: '"' :: s)) = some ('{' :: '"' :: s) := by
  have hbrace : String.utf8EncodeChar '{' = [0x7B] := by decide
  have hquote : String.utf8EncodeChar '"' = [0x22] := by decide
  have hbytes : Utf8.encode ('{' :: '"' :: s) = 0x7B :: 0x22 :: Utf8.encode s := by
    rw [Utf8.encode_cons, Utf8.encode_cons, hbrace, hquote]
    rfl
  rw [hbytes, text?_brace_quote, ← hbytes, ofUtf8?, Utf8.decode_encode]
  rfl

end Json
end SchemaDump
