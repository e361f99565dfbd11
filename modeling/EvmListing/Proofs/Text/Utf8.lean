import EvmListing.Text.Utf8
import Mathlib.Tactic.Lemma
import Mathlib.Tactic.SplitIfs

/-! Reading the UTF-8 bytes of a text gives the text back. The bytes of ASCII are the characters
themselves, and all other characters have bytes outside it. -/
namespace EvmListing.Utf8

@[simp] theorem encode_cons (c : Char) (s : List Char) :
    encode (c :: s) = String.utf8EncodeChar c ++ encode s := rfl

lemma length_encode_le (s t : List Char) : (encode t).length ≤ (encode (s ++ t)).length := by
  rw [encode_append, List.length_append]
  exact Nat.le_add_left _ _

lemma isContinuation_ofNat (n : Nat) :
    isContinuation (UInt8.ofNat (n % 64 + 0x80)) = true := by
  simp only [isContinuation, Bool.and_eq_true, decide_eq_true_eq, UInt8.le_iff_toNat_le,
    UInt8.lt_iff_toNat_lt, UInt8.toNat_ofNat']
  change 128 ≤ (n % 64 + 128) % 256 ∧ (n % 64 + 128) % 256 < 192
  omega

lemma payload_ofNat (n : Nat) : payload (UInt8.ofNat (n % 64 + 0x80)) = n % 64 := by
  rw [payload, UInt8.toNat_ofNat']
  omega

/-- The character with the number of a character is that character. -/
lemma scalar_toNat {least n : Nat} {c : Char} (hn : n = c.toNat) (h : least ≤ c.toNat) :
    scalar least n = some c := by
  have hv : c.toNat.isValidChar := c.valid
  rw [hn, scalar, if_pos ⟨hv, h⟩, Char.ofNat_toNat]

/-- Whether a byte is in a range, by its number. -/
lemma inRange (low high a : UInt8) :
    (low ≤ a && a < high) = decide (low.toNat ≤ a.toNat ∧ a.toNat < high.toNat) := by
  simp [UInt8.le_iff_toNat_le, UInt8.lt_iff_toNat_lt]

/-- A byte from the upper limit of a range on is past it. -/
lemma past_range (high : UInt8) {a : UInt8} (h : high.toNat ≤ a.toNat) (low : UInt8) :
    (low ≤ a && a < high) = false := by
  rw [inRange, decide_eq_false_iff_not]
  exact fun hr => absurd hr.2 (Nat.not_lt.mpr h)

lemma not_ascii {a : UInt8} (h : 0x80 ≤ a.toNat) : ¬a < 0x80 := by
  rw [UInt8.lt_iff_toNat_lt]
  exact Nat.not_lt.mpr h

section
variable {a b d e : UInt8} {c : Char} (rest : Bytes)

lemma split_one (ha : a.toNat = c.toNat) (h : c.toNat < 0x80) :
    split (a :: rest) = (c :: (split rest).1, (split rest).2) := by
  have hlt : a < 0x80 := UInt8.lt_iff_toNat_lt.mpr (ha ▸ h)
  simp only [split.eq_def (a :: rest), if_pos hlt, ha, Char.ofNat_toNat]

lemma split_two (ha : a.toNat = c.toNat / 64 + 0xC0) (hb : isContinuation b = true)
    (pb : payload b = c.toNat % 64) (h : 0x80 ≤ c.toNat) (h' : c.toNat < 0x800) :
    split (a :: b :: rest) = (c :: (split rest).1, (split rest).2) := by
  have hge : ¬a < 0x80 := not_ascii (by omega)
  have hlead : (0xC0 ≤ a && a < 0xE0) = true := by
    rw [inRange, ha, decide_eq_true_eq]
    change 0xC0 ≤ c.toNat / 64 + 0xC0 ∧ c.toNat / 64 + 0xC0 < 0xE0
    omega
  have hn : a.toNat % 32 * 64 + payload b = c.toNat := by omega
  simp only [split.eq_def (a :: b :: rest), if_neg hge, hb, hlead, scalar_toNat hn h,
    Bool.not_true, Bool.false_eq_true, if_false, if_true]

lemma split_three (ha : a.toNat = c.toNat / 4096 + 0xE0) (hb : isContinuation b = true)
    (pb : payload b = c.toNat / 64 % 64) (hd : isContinuation d = true)
    (pd : payload d = c.toNat % 64) (h : 0x800 ≤ c.toNat) (h' : c.toNat < 0x10000) :
    split (a :: b :: d :: rest) = (c :: (split rest).1, (split rest).2) := by
  have hge : ¬a < 0x80 := not_ascii (by omega)
  have hpast : 0xE0 ≤ a.toNat := by omega
  have hlead : (0xE0 ≤ a && a < 0xF0) = true := by
    rw [inRange, ha, decide_eq_true_eq]
    change 0xE0 ≤ c.toNat / 4096 + 0xE0 ∧ c.toNat / 4096 + 0xE0 < 0xF0
    omega
  have hn : (a.toNat % 16 * 64 + payload b) * 64 + payload d = c.toNat := by omega
  simp only [split.eq_def (a :: b :: d :: rest), if_neg hge, hb, hd, hlead,
    past_range 0xE0 hpast, scalar_toNat hn h, Bool.not_true, Bool.false_eq_true, if_false, if_true]

lemma split_four (ha : a.toNat = c.toNat / 262144 + 0xF0) (hb : isContinuation b = true)
    (pb : payload b = c.toNat / 4096 % 64) (hd : isContinuation d = true)
    (pd : payload d = c.toNat / 64 % 64) (he : isContinuation e = true)
    (pe : payload e = c.toNat % 64) (h : 0x10000 ≤ c.toNat) (h' : c.toNat < 0x110000) :
    split (a :: b :: d :: e :: rest) = (c :: (split rest).1, (split rest).2) := by
  have hge : ¬a < 0x80 := not_ascii (by omega)
  have hpast : 0xE0 ≤ a.toNat := by omega
  have hpast' : 0xF0 ≤ a.toNat := by omega
  have hlead : (0xF0 ≤ a && a < 0xF8) = true := by
    rw [inRange, ha, decide_eq_true_eq]
    change 0xF0 ≤ c.toNat / 262144 + 0xF0 ∧ c.toNat / 262144 + 0xF0 < 0xF8
    omega
  have hn : ((a.toNat % 8 * 64 + payload b) * 64 + payload d) * 64 + payload e = c.toNat := by omega
  simp only [split.eq_def (a :: b :: d :: e :: rest), if_neg hge, hb, hd, he, hlead,
    past_range 0xE0 hpast, past_range 0xF0 hpast', scalar_toNat hn h, Bool.not_true,
    Bool.false_eq_true, if_false, if_true]

end

lemma toNat_lt (c : Char) : c.toNat < 0x110000 := by
  have h : c.toNat.isValidChar := c.valid
  simp only [Nat.isValidChar] at h
  omega

theorem split_encodeChar (c : Char) (rest : Bytes) :
    split (String.utf8EncodeChar c ++ rest) = (c :: (split rest).1, (split rest).2) := by
  have hv : c.val.toNat = c.toNat := rfl
  have hlt := toNat_lt c
  simp only [String.utf8EncodeChar, hv]
  split
  · exact split_one rest (by rw [UInt8.toNat_ofNat']; omega) (by omega)
  · split
    · exact split_two rest (by rw [UInt8.toNat_ofNat']; omega) (isContinuation_ofNat _)
        (payload_ofNat _) (by omega) (by omega)
    · split
      · exact split_three rest (by rw [UInt8.toNat_ofNat']; omega) (isContinuation_ofNat _)
          (payload_ofNat _) (isContinuation_ofNat _) (payload_ofNat _) (by omega) (by omega)
      · exact split_four rest (by rw [UInt8.toNat_ofNat']; omega) (isContinuation_ofNat _)
          (payload_ofNat _) (isContinuation_ofNat _) (payload_ofNat _) (isContinuation_ofNat _)
          (payload_ofNat _) (by omega) hlt

theorem split_encode (s : List Char) : split (encode s) = (s, []) := by
  induction s with
  | nil => rfl
  | cons c s ih => rw [encode_cons, split_encodeChar, ih]

@[simp] theorem decode?_encode (s : List Char) : decode? (encode s) = some s := by
  simp [decode?, split_encode]

theorem encode_injective : Function.Injective encode := by
  intro s t h
  have hdecode := congrArg decode? h
  rw [decode?_encode, decode?_encode] at hdecode
  exact Option.some.inj hdecode

lemma encodeChar_ascii {c : Char} (h : c.toNat < 0x80) :
    String.utf8EncodeChar c = [UInt8.ofNat c.toNat] := by
  have hv : c.val.toNat ≤ 0x7F := Nat.le_of_lt_succ h
  rw [String.utf8EncodeChar, if_pos hv]
  rfl

lemma toNat_byte {c : Char} (h : c.toNat < 0x80) : (UInt8.ofNat c.toNat).toNat = c.toNat := by
  rw [UInt8.toNat_ofNat', Nat.mod_eq_of_lt (by omega)]

/-- Characters of ASCII are told apart by their bytes. -/
lemma ascii_inj {c d : Char} (hc : c.toNat < 0x80) (hd : d.toNat < 0x80)
    (h : UInt8.ofNat c.toNat = UInt8.ofNat d.toNat) : c = d := by
  rw [← Char.toNat_inj, ← toNat_byte hc, h, toNat_byte hd]

lemma encode_cons_ascii {c : Char} (h : c.toNat < 0x80) (t : List Char) :
    encode (c :: t) = UInt8.ofNat c.toNat :: encode t := by
  rw [encode_cons, encodeChar_ascii h]
  rfl

lemma high_of_not_ascii {c : Char} (h : 0x80 ≤ c.toNat) :
    ∀ b ∈ String.utf8EncodeChar c, 0x80 ≤ b.toNat := by
  intro b hb
  have hlt := toNat_lt c
  have hv : c.val.toNat = c.toNat := rfl
  simp only [String.utf8EncodeChar, hv] at hb
  split_ifs at hb <;> simp only [List.mem_cons, List.not_mem_nil, or_false] at hb
  · omega
  · obtain rfl | rfl := hb <;> rw [UInt8.toNat_ofNat'] <;> omega
  · obtain rfl | rfl | rfl := hb <;> rw [UInt8.toNat_ofNat'] <;> omega
  · obtain rfl | rfl | rfl | rfl := hb <;> rw [UInt8.toNat_ofNat'] <;> omega

lemma encodeChar_ne_nil (c : Char) : String.utf8EncodeChar c ≠ [] := by
  rw [String.utf8EncodeChar]
  split_ifs <;> exact List.cons_ne_nil _ _

lemma length_le_encode (s : List Char) : s.length ≤ (encode s).length := by
  induction s with
  | nil => exact Nat.le_refl 0
  | cons c s ih =>
    have hc := List.length_pos_iff.mpr (encodeChar_ne_nil c)
    rw [encode_cons, List.length_append, List.length_cons]
    omega

lemma exists_byte_of_not_ascii {c : Char} (h : 0x80 ≤ c.toNat) :
    ∃ b ∈ String.utf8EncodeChar c, 0x80 ≤ b.toNat := by
  obtain ⟨b, hb⟩ := List.exists_mem_of_ne_nil _ (encodeChar_ne_nil c)
  exact ⟨b, hb, high_of_not_ascii h b hb⟩

/-- A text whose bytes are all of ASCII has one byte for each character. -/
lemma map_encode {t : List Char} (h : ∀ b ∈ encode t, b.toNat < 0x80) :
    (encode t).map (fun b => Char.ofNat b.toNat) = t := by
  induction t with
  | nil => rfl
  | cons c t ih =>
    have hc : c.toNat < 0x80 := by
      refine Nat.lt_of_not_le fun hge => ?_
      obtain ⟨b, hb, hhigh⟩ := exists_byte_of_not_ascii hge
      have hlow := h b (List.mem_append_left _ hb)
      omega
    rw [encode_cons_ascii hc] at h ⊢
    rw [List.map_cons, ih fun b hb => h b (List.mem_cons_of_mem _ hb), toNat_byte hc,
      Char.ofNat_toNat]

end EvmListing.Utf8
