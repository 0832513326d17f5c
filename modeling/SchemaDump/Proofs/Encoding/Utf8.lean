import SchemaDump.Encoding.Utf8
import Mathlib.Data.List.Basic

/-! Encoding and decoding: the text of some bytes is encoded as the same bytes, and the bytes of a
text are decoded as the same text. -/
namespace SchemaDump.Utf8

variable {b : UInt8} {bytes : Bytes} {lead : Lead} {s read : Text} {n start : Nat}
  {bits low high length count : Nat}

@[simp] theorem encode_append (s t : Text) : encode (s ++ t) = encode s ++ encode t :=
  List.flatMap_append

theorem encode_cons (c : Char) (s : Text) : encode (c :: s) = String.utf8EncodeChar c ++ encode s :=
  List.flatMap_cons

theorem continued_succ (h : continued bits low high length (count + 1) bytes = .ok n) :
    ∃ b rest, bytes = b :: rest ∧ low ≤ b.toNat ∧ b.toNat ≤ high ∧
      continued (bits * 64 + (b.toNat - 0x80)) 0x80 0xBF (length + 1) count rest = .ok n := by
  cases bytes with
  | nil => simp [continued] at h
  | cons b rest =>
    rw [continued] at h
    split at h
    · next hb => exact ⟨b, rest, rfl, hb.1, hb.2, h⟩
    · cases h

/-- What a first byte announces, by the length of the sequence that it begins. -/
theorem lead_cases (h : lead? b = some lead) :
    (lead.count = 0 ∧ lead.bits = b.toNat ∧ lead.bits < 0x80) ∨
      (lead.count = 1 ∧ lead.bits + 0xC0 = b.toNat ∧ 2 ≤ lead.bits ∧ lead.bits < 0x20 ∧
        lead.low = 0x80 ∧ lead.high = 0xBF) ∨
      (lead.count = 2 ∧ lead.bits + 0xE0 = b.toNat ∧ lead.bits < 0x10 ∧ 0x80 ≤ lead.low ∧
        lead.high ≤ 0xBF ∧ (lead.bits = 0 → lead.low = 0xA0) ∧
        (lead.bits = 0xD → lead.high = 0x9F)) ∨
      (lead.count = 3 ∧ lead.bits + 0xF0 = b.toNat ∧ lead.bits ≤ 4 ∧ 0x80 ≤ lead.low ∧
        lead.high ≤ 0xBF ∧ (lead.bits = 0 → lead.low = 0x90) ∧
        (lead.bits = 4 → lead.high = 0x8F)) := by
  rw [lead?] at h
  generalize b.toNat = m at h ⊢
  split_ifs at h
  all_goals
    first
    | contradiction
    | injection h with h; subst h; dsimp only; omega

theorem val_ofNat (h : n.isValidChar) : (Char.ofNat n).val.toNat = n := by
  rw [Char.ofNat, dif_pos h]
  rfl

/-- A sequence of bytes is the encoding of the character whose number it is read as. -/
theorem utf8EncodeChar_of_lead (hl : lead? b = some lead)
    (hn : continued lead.bits lead.low lead.high 1 lead.count bytes = .ok n) :
    String.utf8EncodeChar (Char.ofNat n) = b :: bytes.take lead.count := by
  obtain ⟨hc, hb, hlt⟩ | ⟨hc, hb, hmin, hlt, hlow, hhigh⟩ |
    ⟨hc, hb, hlt, hlow, hhigh, hfirst, hlast⟩ | ⟨hc, hb, hle, hlow, hhigh, hfirst, hlast⟩ :=
    lead_cases hl
  · rw [hc] at hn ⊢
    obtain rfl : lead.bits = n := by simpa [continued] using hn
    have hv : lead.bits.isValidChar := Or.inl (by omega)
    rw [String.utf8EncodeChar, val_ofNat hv, if_pos (by omega), hb, UInt8.ofNat_toNat]
    rfl
  · rw [hc] at hn ⊢
    obtain ⟨b₁, rest, rfl, hl₁, hh₁, hn⟩ := continued_succ hn
    rw [continued, Except.ok.injEq] at hn
    have hv : n.isValidChar := Or.inl (by omega)
    have h₀ : n / 64 % 32 + 192 = b.toNat := by omega
    have h₁ : n % 64 + 128 = b₁.toNat := by omega
    rw [String.utf8EncodeChar, val_ofNat hv, if_neg (by omega), if_pos (by omega), h₀, h₁,
      UInt8.ofNat_toNat, UInt8.ofNat_toNat]
    rfl
  · rw [hc] at hn ⊢
    obtain ⟨b₁, rest, rfl, hl₁, hh₁, hn⟩ := continued_succ hn
    obtain ⟨b₂, rest, rfl, hl₂, hh₂, hn⟩ := continued_succ hn
    rw [continued, Except.ok.injEq] at hn
    have hv : n.isValidChar := by
      simp only [Nat.isValidChar]
      omega
    have h₀ : n / 4096 % 16 + 224 = b.toNat := by omega
    have h₁ : n / 64 % 64 + 128 = b₁.toNat := by omega
    have h₂ : n % 64 + 128 = b₂.toNat := by omega
    rw [String.utf8EncodeChar, val_ofNat hv, if_neg (by omega), if_neg (by omega),
      if_pos (by omega), h₀, h₁, h₂, UInt8.ofNat_toNat, UInt8.ofNat_toNat, UInt8.ofNat_toNat]
    rfl
  · rw [hc] at hn ⊢
    obtain ⟨b₁, rest, rfl, hl₁, hh₁, hn⟩ := continued_succ hn
    obtain ⟨b₂, rest, rfl, hl₂, hh₂, hn⟩ := continued_succ hn
    obtain ⟨b₃, rest, rfl, hl₃, hh₃, hn⟩ := continued_succ hn
    rw [continued, Except.ok.injEq] at hn
    have hv : n.isValidChar := Or.inr (by omega)
    have h₀ : n / 262144 % 8 + 240 = b.toNat := by omega
    have h₁ : n / 4096 % 64 + 128 = b₁.toNat := by omega
    have h₂ : n / 64 % 64 + 128 = b₂.toNat := by omega
    have h₃ : n % 64 + 128 = b₃.toNat := by omega
    rw [String.utf8EncodeChar, val_ofNat hv, if_neg (by omega), if_neg (by omega),
      if_neg (by omega), h₀, h₁, h₂, h₃, UInt8.ofNat_toNat, UInt8.ofNat_toNat, UInt8.ofNat_toNat,
      UInt8.ofNat_toNat]
    rfl

theorem exists_of_decodeOnto (h : decodeOnto read start bytes = .ok s) :
    ∃ t, s = read.reverse ++ t ∧ encode t = bytes := by
  induction read, start, bytes using decodeOnto.induct with
  | case1 read start =>
    rw [decodeOnto, Except.ok.injEq] at h
    exact ⟨[], by rw [← h, List.append_nil], rfl⟩
  | case2 read start b bytes hl =>
    rw [decodeOnto, hl] at h
    cases h
  | case3 read start b bytes lead hl n hn ih =>
    rw [decodeOnto, hl] at h
    dsimp only at h
    rw [hn] at h
    obtain ⟨t, rfl, ht⟩ := ih h
    refine ⟨Char.ofNat n :: t, by simp, ?_⟩
    rw [encode_cons, utf8EncodeChar_of_lead hl hn, ht, List.cons_append, List.take_append_drop]
  | case4 read start b bytes lead hl length defect hn =>
    rw [decodeOnto, hl] at h
    dsimp only at h
    rw [hn] at h
    cases h

/-- Bytes that are decoded are the encoding of their text. -/
theorem encode_of_decode (h : decode bytes = .ok s) : encode s = bytes := by
  obtain ⟨t, rfl, ht⟩ := exists_of_decodeOnto h
  exact ht

theorem lead?_one (h : b.toNat < 0x80) : lead? b = some ⟨b.toNat, 0, 0x80, 0xBF⟩ := by
  rw [lead?, if_pos h]

theorem lead?_two (h : 0xC2 ≤ b.toNat) (h' : b.toNat < 0xE0) :
    lead? b = some ⟨b.toNat - 0xC0, 1, 0x80, 0xBF⟩ := by
  rw [lead?, if_neg (by omega), if_neg (by omega), if_pos h']

theorem lead?_three (h : 0xE0 ≤ b.toNat) (h' : b.toNat < 0xF0) :
    lead? b = some ⟨b.toNat - 0xE0, 2, if b.toNat = 0xE0 then 0xA0 else 0x80,
      if b.toNat = 0xED then 0x9F else 0xBF⟩ := by
  rw [lead?]
  generalize b.toNat = m at h h' ⊢
  split_ifs <;> first | omega | simp_all

theorem lead?_four (h : 0xF0 ≤ b.toNat) (h' : b.toNat ≤ 0xF4) :
    lead? b = some ⟨b.toNat - 0xF0, 3, if b.toNat = 0xF0 then 0x90 else 0x80,
      if b.toNat = 0xF4 then 0x8F else 0xBF⟩ := by
  rw [lead?]
  generalize b.toNat = m at h h' ⊢
  split_ifs <;> first | omega | simp_all

theorem continued_cons (hlow : low ≤ b.toNat) (hhigh : b.toNat ≤ high) :
    continued bits low high length (count + 1) (b :: bytes) =
      continued (bits * 64 + (b.toNat - 0x80)) 0x80 0xBF (length + 1) count bytes := by
  rw [continued, if_pos ⟨hlow, hhigh⟩]

/-- The encoding of a character is read as its number, whatever follows it. -/
theorem exists_lead (c : Char) (bytes : Bytes) :
    ∃ b rest lead, String.utf8EncodeChar c = b :: rest ∧ lead? b = some lead ∧
      rest.length = lead.count ∧
      continued lead.bits lead.low lead.high 1 lead.count (rest ++ bytes) = .ok c.val.toNat := by
  have hvalid : c.val.toNat.isValidChar := c.valid
  have hbyte {k : Nat} (hk : k < 256) : (UInt8.ofNat k).toNat = k :=
    UInt8.toNat_ofNat_of_lt' hk
  simp only [Nat.isValidChar] at hvalid
  simp only [String.utf8EncodeChar]
  generalize c.val.toNat = v at hvalid ⊢
  split_ifs with h₁ h₂ h₃
  · have h₀ := hbyte (show v < 256 by omega)
    refine ⟨_, _, _, rfl, lead?_one (by omega), rfl, ?_⟩
    rw [continued, h₀]
  · have h₀ := hbyte (show v / 64 % 32 + 192 < 256 by omega)
    have h₁ := hbyte (show v % 64 + 128 < 256 by omega)
    refine ⟨_, _, _, rfl, lead?_two (by omega) (by omega), rfl, ?_⟩
    simp only [List.cons_append, List.nil_append]
    rw [continued_cons (by omega) (by omega), continued, h₀, h₁, Except.ok.injEq]
    omega
  · have h₀ := hbyte (show v / 4096 % 16 + 224 < 256 by omega)
    have h₁ := hbyte (show v / 64 % 64 + 128 < 256 by omega)
    have h₂ := hbyte (show v % 64 + 128 < 256 by omega)
    refine ⟨_, _, _, rfl, lead?_three (by omega) (by omega), rfl, ?_⟩
    simp only [List.cons_append, List.nil_append]
    rw [continued_cons (by split_ifs <;> omega) (by split_ifs <;> omega),
      continued_cons (by omega) (by omega), continued, h₀, h₁, h₂, Except.ok.injEq]
    omega
  · have h₀ := hbyte (show v / 262144 % 8 + 240 < 256 by omega)
    have h₁ := hbyte (show v / 4096 % 64 + 128 < 256 by omega)
    have h₂ := hbyte (show v / 64 % 64 + 128 < 256 by omega)
    have h₃ := hbyte (show v % 64 + 128 < 256 by omega)
    refine ⟨_, _, _, rfl, lead?_four (by omega) (by omega), rfl, ?_⟩
    simp only [List.cons_append, List.nil_append]
    rw [continued_cons (by split_ifs <;> omega) (by split_ifs <;> omega),
      continued_cons (by omega) (by omega), continued_cons (by omega) (by omega), continued, h₀,
      h₁, h₂, h₃, Except.ok.injEq]
    omega

theorem decodeOnto_encode (read : Text) (start : Nat) (s : Text) :
    decodeOnto read start (encode s) = .ok (read.reverse ++ s) := by
  induction s generalizing read start with
  | nil => simp [encode, decodeOnto]
  | cons c s ih =>
    obtain ⟨b, rest, lead, hc, hl, hcount, hn⟩ := exists_lead c (encode s)
    have hchar : Char.ofNat c.val.toNat = c := Char.ofNat_toNat c
    rw [encode_cons, hc, List.cons_append, decodeOnto, hl]
    dsimp only
    rw [hn, ← hcount, List.drop_left]
    dsimp only
    rw [ih, hchar]
    simp

/-- The bytes of a text are decoded as the text. -/
theorem decode_encode (s : Text) : decode (encode s) = .ok s := decodeOnto_encode [] 0 s

/-- A byte below 128 stands for the character of its number and for no other. -/
theorem mem_utf8EncodeChar_iff {c : Char} (hb : b.toNat < 0x80) :
    b ∈ String.utf8EncodeChar c ↔ c.val.toNat = b.toNat := by
  simp only [String.utf8EncodeChar]
  split_ifs <;>
    simp only [List.mem_cons, List.not_mem_nil, or_false, ← UInt8.toNat_inj, UInt8.toNat_ofNat'] <;>
    omega

theorem mem_encode_iff {c : Char} (hb : b.toNat < 0x80) (hc : c.val.toNat = b.toNat) :
    b ∈ encode s ↔ c ∈ s := by
  rw [encode, List.mem_flatMap]
  constructor
  · rintro ⟨d, hd, hmem⟩
    have heq := (mem_utf8EncodeChar_iff hb).mp hmem
    have hcd : c = d := Char.ext (UInt32.toNat_inj.mp (hc.trans heq.symm))
    exact hcd ▸ hd
  · intro h
    exact ⟨c, h, (mem_utf8EncodeChar_iff hb).mpr hc⟩

end SchemaDump.Utf8
