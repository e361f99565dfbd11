import EvmListing.Proofs.Hex
import EvmListing.Proofs.Json.Scanning
import EvmListing.Proofs.Json.Syntax

/-! Strings in the bytes that encode them. A string is read as the text that it stands for, and not
at all if half of a surrogate pair is missing in it; passed over, it ends at the same place either
way. -/
namespace EvmListing.Json
open Utf8 (encode)

/-- The bytes of a character that stands for itself in a string. -/
def Plain (b : UInt8) : Prop := b ≠ Ascii.quote ∧ b ≠ Ascii.backslash ∧ ¬b < Ascii.space

lemma plain_encodeChar {c : Char} (printable : 0x20 ≤ c.toNat) (free : c ≠ '"' ∧ c ≠ '\\') :
    ∀ b ∈ String.utf8EncodeChar c, Plain b := by
  intro b hb
  have hspace : 0x20 ≤ b := Utf8.printable_encode (s := [c]) (by simpa using printable) b
    (List.mem_append_left _ hb)
  have hne {d : Char} (hd : d.toNat < 0x80) (h : c ≠ d) : b ≠ UInt8.ofNat d.toNat := by
    intro heq
    by_cases hc : c.toNat < 0x80
    · rw [Utf8.encodeChar_ascii hc, List.mem_singleton] at hb
      exact h (Utf8.ascii_inj hc hd (hb.symm.trans heq))
    · have hhigh := Utf8.high_of_not_ascii (Nat.le_of_not_lt hc) b hb
      rw [heq, Utf8.toNat_byte hd] at hhigh
      omega
  exact ⟨hne (d := '"') (by decide) free.1, hne (d := '\\') (by decide) free.2,
    UInt8.not_lt.mpr hspace⟩

lemma stringWithin_byte {b : UInt8} (h : Plain b) (bound : Nat) (t : Bytes) :
    stringWithin (bound + 1) (b :: t) = ((b :: ·) <$> stringWithin bound) t := by
  obtain ⟨hquote, hslash, hspace⟩ := h
  have hquote : b = ⟨34#8⟩ → False := hquote
  have hslash : b = ⟨92#8⟩ → False := hslash
  rw [stringWithin, bind_of_ok (next_cons b t)]
  simp only [hspace]
  rfl

lemma stringWithin_plain {bs : Bytes} (h : ∀ b ∈ bs, Plain b) (bound : Nat) (t : Bytes) :
    stringWithin (bs.length + bound) (bs ++ t) = ((bs ++ ·) <$> stringWithin bound) t := by
  induction bs with
  | nil =>
    rw [List.length_nil, Nat.zero_add]
    exact (congrFun (id_map (stringWithin bound)) t).symm
  | cons b bs ih =>
    obtain ⟨hb, hbs⟩ := List.forall_mem_cons.mp h
    have hlength : (b :: bs).length + bound = bs.length + bound + 1 := by
      rw [List.length_cons]
      omega
    rw [hlength, List.cons_append, stringWithin_byte hb]
    change (stringWithin _ (bs ++ t) >>= fun p => pure (b :: p.1, p.2)) = _
    rw [ih hbs]
    change ((stringWithin bound t >>= fun p => pure (bs ++ p.1, p.2)) >>= _) =
      (stringWithin bound t >>= fun p => pure (b :: bs ++ p.1, p.2))
    rw [bind_assoc]
    rfl

lemma stringWithin_escape (bound : Nat) (t : Bytes) :
    stringWithin (bound + 1) (Ascii.backslash :: t) = (do
      let c ← escape
      let more ← stringWithin bound
      return encode [c] ++ more) t := rfl

/-! ### Escapes -/

lemma hexValue_encode {ds : List Char} {m n : Nat}
    (h : ds.foldlM (fun n d => (hexDigit? d).map (16*n + ·)) m = some n) :
    (encode ds).length = ds.length ∧
      (encode ds).foldlM (fun n b => (Hex.value? b).map (16*n + ·)) m = some n := by
  induction ds generalizing m with
  | nil => exact ⟨rfl, h⟩
  | cons d ds ih =>
    rw [List.foldlM_cons] at h
    obtain ⟨k, hk, hrest⟩ := Option.bind_eq_some_iff.mp h
    obtain ⟨value, hvalue, rfl⟩ := Option.map_eq_some_iff.mp hk
    have hlow := Hex.ascii_of_hexDigit? hvalue
    have hbyte : Hex.value? (UInt8.ofNat d.toNat) = some value := by
      rw [Hex.value?_eq, Utf8.toNat_byte hlow, Char.ofNat_toNat, hvalue]
    obtain ⟨hlength, hmore⟩ := ih hrest
    rw [Utf8.encode_cons_ascii hlow, List.length_cons, List.length_cons, hlength, List.foldlM_cons,
      hbyte]
    exact ⟨rfl, hmore⟩

lemma fourDigits_encode {ds : List Char} {n : Nat} (four : ds.length = 4)
    (h : hexNumber ds = some n) (r : List Char) :
    fourDigits (encode (ds ++ r)) = .ok (n, encode r) := by
  obtain ⟨hlength, hvalue⟩ := hexValue_encode h
  rw [four] at hlength
  have hlong : ¬(encode ds ++ encode r).length < 4 := by
    rw [List.length_append]
    omega
  rw [fourDigits, Utf8.encode_append, if_neg hlong, List.take_left' hlength,
    List.drop_left' hlength, hexValue, hvalue]

/-- Four hex digits do not reach past the first plane. -/
lemma hexNumber_lt {ds : List Char} {n : Nat} (four : ds.length = 4) (h : hexNumber ds = some n) :
    n < 0x10000 := by
  obtain ⟨a, b, c, d, rfl⟩ : ∃ a b c d, ds = [a, b, c, d] := by
    match ds, four with
    | [a, b, c, d], _ => exact ⟨a, b, c, d, rfl⟩
  simp only [hexNumber, List.foldlM_cons, List.foldlM_nil, Option.bind_eq_bind,
    Option.bind_eq_some_iff, Option.map_eq_some_iff, Option.pure_def, Option.some.injEq] at h
  obtain ⟨_, ⟨i, hi, rfl⟩, _, ⟨j, hj, rfl⟩, _, ⟨k, hk, rfl⟩, _, ⟨l, hl, rfl⟩, rfl⟩ := h
  have hi := (Hex.toLower_of_hexDigit? hi).1
  have hj := (Hex.toLower_of_hexDigit? hj).1
  have hk := (Hex.toLower_of_hexDigit? hk).1
  have hl := (Hex.toLower_of_hexDigit? hl).1
  omega

lemma toNat_ofNat {n : Nat} (h : n.isValidChar) : (Char.ofNat n).toNat = n := by
  rw [Char.ofNat, dif_pos h]
  rfl

lemma pairByte_cons (b : UInt8) (t : Bytes) : pairByte b (b :: t) = .ok ((), t) := by
  rw [pairByte, bind_of_ok (next_cons b t)]
  simp only [if_true]
  rfl

lemma pairByte_of_ne {b : UInt8} {t : Bytes} (h : t.head? ≠ some b) :
    ∃ fault, pairByte b t = .error fault := by
  cases t with
  | nil => exact ⟨_, rfl⟩
  | cons c t =>
    have hne : c ≠ b := fun heq => h (congrArg some heq)
    rw [pairByte, bind_of_ok (next_cons c t)]
    simp only [hne, if_false]
    exact ⟨_, rfl⟩

/-- What follows the number of a high surrogate. -/
def lowHalf (high : Nat) : Scanner Char := do
  pairByte Ascii.backslash
  pairByte Ascii.lowerU
  let low ← fourDigits
  if isTrailSurrogate low then
    return Char.ofNat (0x10000 + (high - 0xD800) * 0x400 + (low - 0xDC00))
  else fail .loneSurrogate

section
variable {ds : List Char} {n : Nat} (four : ds.length = 4) (value : hexNumber ds = some n)
  (r : List Char)
include four value

lemma hexEscape_scalar (h : ¬IsHighSurrogate n ∧ ¬IsLowSurrogate n) :
    hexEscape (encode (ds ++ r)) = .ok (Char.ofNat n, encode r) := by
  have hlow : isTrailSurrogate n = false := by
    simpa [isTrailSurrogate, IsLowSurrogate] using h.2
  have hscalar : n < 0xD800 ∨ 0xDBFF < n := by
    have hhigh := h.1
    unfold IsHighSurrogate at hhigh
    omega
  rw [hexEscape, bind_of_ok (fourDigits_encode four value r)]
  simp only [hlow, hscalar, if_true, Bool.false_eq_true, if_false]
  rfl

lemma hexEscape_high (h : IsHighSurrogate n) :
    hexEscape (encode (ds ++ r)) = lowHalf n (encode r) := by
  unfold IsHighSurrogate at h
  have hlow : isTrailSurrogate n = false := by
    simp [isTrailSurrogate]
    omega
  have hscalar : ¬(n < 0xD800 ∨ 0xDBFF < n) := by omega
  rw [hexEscape, bind_of_ok (fourDigits_encode four value r)]
  simp only [hlow, hscalar, Bool.false_eq_true, if_false]
  rfl

lemma hexEscape_low (h : IsLowSurrogate n) :
    ∃ fault, hexEscape (encode (ds ++ r)) = .error fault := by
  have hlow : isTrailSurrogate n = true := by
    simpa [isTrailSurrogate, IsLowSurrogate] using h
  rw [hexEscape, bind_of_ok (fourDigits_encode four value r)]
  simp only [hlow, if_true]
  exact ⟨_, rfl⟩

lemma lowHalf_numbered (high : Nat) :
    lowHalf high (encode ('\\' :: 'u' :: (ds ++ r))) =
      (if isTrailSurrogate n then
        pure (Char.ofNat (0x10000 + (high - 0xD800) * 0x400 + (n - 0xDC00)))
      else fail .loneSurrogate : Scanner Char) (encode r) := by
  have hslash : pairByte Ascii.backslash (encode ('\\' :: 'u' :: (ds ++ r))) =
      .ok ((), encode ('u' :: (ds ++ r))) := pairByte_cons _ _
  have hu : pairByte Ascii.lowerU (encode ('u' :: (ds ++ r))) = .ok ((), encode (ds ++ r)) :=
    pairByte_cons _ _
  rw [lowHalf, bind_of_ok hslash, bind_of_ok hu, bind_of_ok (fourDigits_encode four value r)]

end

lemma escape_named {name c : Char} (known : namedEscape? name = some c) (r : List Char) :
    escape (encode (name :: r)) = .ok (c, encode r) := by
  unfold namedEscape? at known
  split at known
  case h_9 => cases known
  all_goals
    cases known
    rfl

lemma escape_numbered {c : Char} {s : List Char} (number : Numbered c s) (r : List Char) :
    escape (encode ('u' :: (s ++ r))) = .ok (c, encode r) := by
  change hexEscape (encode (s ++ r)) = _
  cases number with
  | one four value =>
    have hvalid : c.toNat.isValidChar := c.valid
    have hscalar : ¬IsHighSurrogate c.toNat ∧ ¬IsLowSurrogate c.toNat := by
      simp only [Nat.isValidChar, IsHighSurrogate, IsLowSurrogate] at hvalid ⊢
      omega
    rw [hexEscape_scalar four value r hscalar, Char.ofNat_toNat]
  | @two ds es high low four four' first second leads trails value =>
    have htrail : isTrailSurrogate low = true := by
      simpa [isTrailSurrogate, IsLowSurrogate] using trails
    rw [List.append_assoc, hexEscape_high four first _ leads, List.cons_append, List.cons_append,
      lowHalf_numbered four' second, if_pos htrail, ← value, Char.ofNat_toNat]
    rfl

/-! ### Reading -/

/-- One spelled character is read in no more steps than it has bytes. -/
lemma Written.read {c : Char} {s : List Char} (h : Written c s) (bound : Nat) (r : List Char) :
    ∃ bound' ≥ bound, stringWithin ((encode s).length + bound) (encode (s ++ r)) =
      ((encode [c] ++ ·) <$> stringWithin bound') (encode r) := by
  have hescaped {u : List Char} (hu : escape (encode (u ++ r)) = .ok (c, encode r)) :
      ∃ bound' ≥ bound, stringWithin ((encode ('\\' :: u)).length + bound)
        (encode ('\\' :: u ++ r)) = ((encode [c] ++ ·) <$> stringWithin bound') (encode r) := by
    refine ⟨(encode u).length + bound, Nat.le_add_left _ _, ?_⟩
    have hlength : (encode ('\\' :: u)).length + bound = (encode u).length + bound + 1 := by
      change (encode u).length + 1 + bound = _
      omega
    rw [hlength, map_eq_pure_bind]
    change stringWithin _ (Ascii.backslash :: encode (u ++ r)) = _
    rw [stringWithin_escape, bind_of_ok hu]
  cases h with
  | plain printable free =>
    refine ⟨bound, Nat.le_refl _, ?_⟩
    have hplain : ∀ b ∈ encode [c], Plain b := fun b hb => by
      rw [encode, List.flatMap_singleton] at hb
      exact plain_encodeChar printable free b hb
    rw [Utf8.encode_append, stringWithin_plain hplain]
  | named known => exact hescaped (escape_named known r)
  | numbered number => exact hescaped (escape_numbered number r)

theorem stringWithin_encode {cs t : List Char} (h : Body cs t) (r : List Char) {bound : Nat}
    (hbound : (encode (t ++ r)).length ≤ bound) :
    stringWithin bound (encode (t ++ r)) = .ok (encode cs, encode r) := by
  induction h generalizing bound with
  | done =>
    cases bound with
    | zero => cases hbound
    | succ bound => rfl
  | @more c cs s t first rest ih =>
    rw [List.append_assoc, Utf8.encode_append, List.length_append] at hbound
    obtain ⟨k, rfl⟩ := Nat.exists_eq_add_of_le hbound
    rw [Nat.add_assoc, List.append_assoc]
    obtain ⟨bound', hle, hread⟩ := first.read ((encode (t ++ r)).length + k) (t ++ r)
    rw [hread, map_of_ok (ih (by omega)), ← Utf8.encode_append]
    rfl

/-- An escape that is half of a surrogate pair without the other half. -/
def Broken (t : List Char) : Prop := ∀ r, ∃ fault, hexEscape (encode (t ++ r)) = .error fault

/-- The other half is an escape as well. -/
lemma IsBody.lowHalf_first {t : List Char} (h : IsBody t) (high : Nat) :
    (∃ es u m, es.length = 4 ∧ hexNumber es = some m ∧ IsLowSurrogate m ∧ IsBody u ∧
      t = '\\' :: 'u' :: (es ++ u)) ∨
    ∀ r, ∃ fault, lowHalf high (encode (t ++ r)) = .error fault := by
  have hfirst {t : List Char} (hne : t.head? ≠ some '\\') :
      ∃ fault, lowHalf high (encode t) = .error fault := by
    obtain ⟨fault, hfault⟩ := pairByte_of_ne (Utf8.head?_ne (by decide) hne)
    exact ⟨fault, bind_of_error hfault _⟩
  cases h with
  | done => exact .inr fun r => hfirst (by simp)
  | plain _ free _ => exact .inr fun r => hfirst fun heq => free.2 (Option.some.inj heq)
  | @named name t known _ =>
    refine .inr fun r => ?_
    have hname : (name :: (t ++ r)).head? ≠ some 'u' := by
      rintro ⟨⟩
      cases known
    obtain ⟨fault, hfault⟩ := pairByte_of_ne (Utf8.head?_ne (by decide) hname)
    have hslash : pairByte Ascii.backslash (encode ('\\' :: name :: (t ++ r))) =
      .ok ((), encode (name :: (t ++ r))) := pairByte_cons _ _
    exact ⟨fault, (bind_of_ok hslash _).trans (bind_of_error hfault _)⟩
  | @numbered es u four digits rest =>
    obtain ⟨m, hm⟩ := Option.isSome_iff_exists.mp digits
    by_cases hlow : IsLowSurrogate m
    · exact .inl ⟨es, u, m, four, hm, hlow, rest, rfl⟩
    · refine .inr fun r => ?_
      have htrail : ¬isTrailSurrogate m = true := by
        simpa [isTrailSurrogate, IsLowSurrogate] using hlow
      rw [List.cons_append, List.cons_append, List.append_assoc, lowHalf_numbered four hm,
        if_neg htrail]
      exact ⟨_, rfl⟩

/-- A spelled character in front, as long as no half of a pair is missing. -/
lemma IsBody.numbered_first {ds t : List Char} (four : ds.length = 4)
    (digits : (hexNumber ds).isSome) (rest : IsBody t) :
    (∃ c s u, Numbered c s ∧ IsBody u ∧ ds ++ t = s ++ u) ∨ Broken (ds ++ t) := by
  obtain ⟨n, hn⟩ := Option.isSome_iff_exists.mp digits
  have hlt := hexNumber_lt four hn
  by_cases hlow : IsLowSurrogate n
  · refine .inr fun r => ?_
    rw [List.append_assoc]
    exact hexEscape_low four hn _ hlow
  by_cases hhigh : IsHighSurrogate n
  · obtain ⟨es, u, m, four', hm, hlow', hu, rfl⟩ | hfault := rest.lowHalf_first n
    · have hpair : ∀ c : Char, c.toNat = 0x10000 + (n - 0xD800) * 0x400 + (m - 0xDC00) →
          Numbered c (ds ++ '\\' :: 'u' :: es) := fun c => .two four four' hn hm hhigh hlow'
      unfold IsHighSurrogate at hhigh
      unfold IsLowSurrogate at hlow'
      refine .inl ⟨_, _, u, hpair _ (toNat_ofNat ?_), hu, by simp⟩
      simp only [Nat.isValidChar]
      omega
    · refine .inr fun r => ?_
      rw [List.append_assoc, hexEscape_high four hn _ hhigh]
      exact hfault r
  · refine .inl ⟨Char.ofNat n, ds, t, .one four ?_, rest, rfl⟩
    rw [toNat_ofNat, hn]
    simp only [IsLowSurrogate, IsHighSurrogate, Nat.isValidChar] at hlow hhigh ⊢
    omega

lemma IsBody.first {t : List Char} (h : IsBody t) :
    t = ['"'] ∨ (∃ c s u, Written c s ∧ IsBody u ∧ t = s ++ u) ∨
      ∃ u, Broken u ∧ t = '\\' :: 'u' :: u := by
  cases h with
  | done => exact .inl rfl
  | plain printable free rest => exact .inr (.inl ⟨_, _, _, .plain printable free, rest, rfl⟩)
  | named known rest =>
    obtain ⟨c, hc⟩ := Option.isSome_iff_exists.mp known
    exact .inr (.inl ⟨_, _, _, .named hc, rest, rfl⟩)
  | numbered four digits rest =>
    obtain ⟨c, s, u, hs, hu, heq⟩ | hbroken := rest.numbered_first four digits
    · exact .inr (.inl ⟨c, _, u, .numbered hs, hu, by rw [heq]; rfl⟩)
    · exact .inr (.inr ⟨_, hbroken, rfl⟩)

/-- What is read as a string stands for a text. -/
lemma IsBody.body_of_read {t : List Char} (h : IsBody t) {r : List Char} {bound : Nat}
    (hbound : (encode (t ++ r)).length ≤ bound) {bs u : Bytes}
    (hread : stringWithin bound (encode (t ++ r)) = .ok (bs, u)) : ∃ cs, Body cs t := by
  induction hlength : t.length using Nat.strongRecOn generalizing t bound bs with
  | ind n ih =>
    subst hlength
    obtain rfl | ⟨c, s, t, first, rest, rfl⟩ | ⟨t, hbroken, rfl⟩ := h.first
    · exact ⟨[], .done⟩
    · rw [List.append_assoc, Utf8.encode_append, List.length_append] at hbound
      obtain ⟨k, rfl⟩ := Nat.exists_eq_add_of_le hbound
      obtain ⟨bound', hle, heq⟩ := first.read ((encode (t ++ r)).length + k) (t ++ r)
      rw [Nat.add_assoc, List.append_assoc, heq] at hread
      obtain ⟨bs', hread', -⟩ := map_ok hread
      have hshorter : t.length < (s ++ t).length := by
        obtain ⟨x, v, rfl, -⟩ := first.first
        simp only [List.length_append, List.length_cons]
        omega
      obtain ⟨cs, hcs⟩ := ih t.length hshorter rest (by omega) hread' rfl
      exact ⟨c :: cs, .more first hcs⟩
    · obtain ⟨fault, hfault⟩ := hbroken r
      cases bound with
      | zero => cases hbound
      | succ bound =>
        have hescape : escape (encode ('u' :: (t ++ r))) = .error fault := hfault
        have herror : stringWithin (bound + 1) (encode ('\\' :: 'u' :: (t ++ r))) =
            .error fault := by
          change stringWithin _ (Ascii.backslash :: encode ('u' :: (t ++ r))) = _
          rw [stringWithin_escape, bind_of_error hescape]
        rw [List.cons_append, List.cons_append, herror] at hread
        cases hread

theorem IsBody.string_iff {t : List Char} (h : IsBody t) (r : List Char) {bs u : Bytes} :
    string (encode (t ++ r)) = .ok (bs, u) ↔
      ∃ cs, Body cs t ∧ bs = encode cs ∧ u = encode r := by
  change stringWithin _ _ = _ ↔ _
  constructor
  · intro hread
    obtain ⟨cs, hcs⟩ := h.body_of_read (Nat.le_succ _) hread
    rw [stringWithin_encode hcs r (Nat.le_succ _)] at hread
    cases hread
    exact ⟨cs, hcs, rfl, rfl⟩
  · rintro ⟨cs, hcs, rfl, rfl⟩
    exact stringWithin_encode hcs r (Nat.le_succ _)

/-! ### Passing over -/

lemma skipStringWithin_byte {b : UInt8} (h : Plain b) (bound : Nat) (t : Bytes) :
    skipStringWithin (bound + 1) (b :: t) = skipStringWithin bound t := by
  obtain ⟨hquote, hslash, hspace⟩ := h
  have hpeek : peek (b :: t) = .ok (some b, b :: t) := rfl
  rw [skipStringWithin, bind_of_ok hpeek]
  simp only [hspace, hquote, hslash, if_false]
  rfl

lemma skipStringWithin_plain {bs : Bytes} (h : ∀ b ∈ bs, Plain b) (bound : Nat) (t : Bytes) :
    skipStringWithin (bs.length + bound) (bs ++ t) = skipStringWithin bound t := by
  induction bs with
  | nil => rw [List.length_nil, Nat.zero_add, List.nil_append]
  | cons b bs ih =>
    obtain ⟨hb, hbs⟩ := List.forall_mem_cons.mp h
    have hlength : (b :: bs).length + bound = bs.length + bound + 1 := by
      rw [List.length_cons]
      omega
    rw [hlength, List.cons_append, skipStringWithin_byte hb, ih hbs]

lemma skipStringWithin_escape (bound : Nat) (t : Bytes) :
    skipStringWithin (bound + 1) (Ascii.backslash :: t) =
      (skipEscape >>= fun _ => skipStringWithin bound) t := rfl

lemma skipEscape_named {name : Char} (known : (namedEscape? name).isSome) (r : List Char) :
    skipEscape (encode (name :: r)) = .ok ((), encode r) := by
  obtain ⟨c, hc⟩ := Option.isSome_iff_exists.mp known
  unfold namedEscape? at hc
  split at hc
  case h_9 => cases hc
  all_goals rfl

lemma skipEscape_numbered {ds : List Char} (four : ds.length = 4)
    (digits : (hexNumber ds).isSome) (r : List Char) :
    skipEscape (encode ('u' :: (ds ++ r))) = .ok ((), encode r) := by
  obtain ⟨n, hn⟩ := Option.isSome_iff_exists.mp digits
  change (fourDigits >>= fun _ => pure ()) (encode (ds ++ r)) = _
  rw [bind_of_ok (fourDigits_encode four hn r)]
  rfl

/-- A string is passed over whether or not it stands for a text. -/
theorem IsBody.skipStringWithin {t : List Char} (h : IsBody t) (r : List Char) {bound : Nat}
    (hbound : (encode (t ++ r)).length ≤ bound) :
    skipStringWithin bound (encode (t ++ r)) = .ok ((), encode r) := by
  have hescaped {u t : List Char} {bound : Nat}
      (hbound : (encode ('\\' :: (u ++ (t ++ r)))).length ≤ bound)
      (hu : skipEscape (encode (u ++ (t ++ r))) = .ok ((), encode (t ++ r)))
      (ih : ∀ {bound : Nat}, (encode (t ++ r)).length ≤ bound →
        Json.skipStringWithin bound (encode (t ++ r)) = .ok ((), encode r)) :
      Json.skipStringWithin bound (encode ('\\' :: (u ++ (t ++ r)))) = .ok ((), encode r) := by
    cases bound with
    | zero => cases hbound
    | succ bound =>
      have hlength : (encode ('\\' :: (u ++ (t ++ r)))).length =
          (encode u).length + (encode (t ++ r)).length + 1 := by
        change (encode (u ++ (t ++ r))).length + 1 = _
        rw [Utf8.encode_append, List.length_append]
      change Json.skipStringWithin _ (Ascii.backslash :: encode (u ++ (t ++ r))) = _
      rw [skipStringWithin_escape, bind_of_ok hu]
      exact ih (by omega)
  induction h generalizing bound with
  | done =>
    cases bound with
    | zero => cases hbound
    | succ bound => rfl
  | @plain c t printable free rest ih =>
    rw [List.cons_append, Utf8.encode_cons, List.length_append] at hbound
    obtain ⟨k, rfl⟩ := Nat.exists_eq_add_of_le hbound
    rw [List.cons_append, Utf8.encode_cons, Nat.add_assoc,
      skipStringWithin_plain (plain_encodeChar printable free)]
    exact ih (Nat.le_add_right _ _)
  | @named name t known rest ih =>
    exact hescaped (u := [name]) hbound (skipEscape_named known _) ih
  | @numbered ds t four digits rest ih =>
    have hskip := skipEscape_numbered four digits (t ++ r)
    rw [List.cons_append, List.cons_append, List.append_assoc] at hbound ⊢
    exact hescaped (u := 'u' :: ds) hbound hskip ih

theorem IsBody.skipString {t : List Char} (h : IsBody t) (r : List Char) :
    skipString (encode (t ++ r)) = .ok ((), encode r) := h.skipStringWithin r (Nat.le_succ _)

end EvmListing.Json
