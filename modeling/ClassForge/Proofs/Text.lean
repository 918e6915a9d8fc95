import ClassForge.Text.ModifiedUtf8
import Mathlib.Tactic.Common

/-!
# Text encodings

Decoding and encoding are inverse to each other, for UTF-16 and for modified UTF-8: what a decoder
accepts is exactly what the encoder writes.
-/

namespace ClassForge.Text

/-! ## UTF-16 -/

namespace Utf16

theorem toNat_ofNat_of_valid {n : Nat} (h : n.isValidChar) : (Char.ofNat n).toNat = n := by
  rw [Char.ofNat, dif_pos h]
  rfl

theorem toNat_joined {u v : UInt16} (hu : IsHigh u) (hv : IsLow v) :
    (joined u v).toNat = 0x10000 + (u.toNat - 0xD800) * 0x400 + (v.toNat - 0xDC00) := by
  obtain ⟨hu, hu'⟩ := hu
  obtain ⟨hv, hv'⟩ := hv
  exact toNat_ofNat_of_valid (Or.inr ⟨by omega, by omega⟩)

theorem ofChar_joined {u v : UInt16} (hu : IsHigh u) (hv : IsLow v) :
    ofChar (joined u v) = [u, v] := by
  have hn := toNat_joined hu hv
  obtain ⟨hu, hu'⟩ := hu
  obtain ⟨hv, hv'⟩ := hv
  have hbig : ¬(joined u v).toNat < 0x10000 := by omega
  have hhigh : 0xD800 + ((joined u v).toNat - 0x10000) / 0x400 = u.toNat := by omega
  have hlow : 0xDC00 + ((joined u v).toNat - 0x10000) % 0x400 = v.toNat := by omega
  rw [ofChar, if_neg hbig, hhigh, hlow, UInt16.ofNat_toNat, UInt16.ofNat_toNat]

theorem ofChar_ofNat {u : UInt16} (hh : ¬IsHigh u) (hl : ¬IsLow u) :
    ofChar (Char.ofNat u.toNat) = [u] := by
  have hu := u.toNat_lt
  unfold IsHigh at hh
  unfold IsLow at hl
  have hv : u.toNat.isValidChar := by unfold Nat.isValidChar; omega
  rw [ofChar, toNat_ofNat_of_valid hv, if_pos hu, UInt16.ofNat_toNat]

theorem decodeOnto_ofChar (acc : List Char) (c : Char) (rest : List UInt16) :
    decodeOnto acc (ofChar c ++ rest) = decodeOnto (c :: acc) rest := by
  have hc : c.toNat < 0xD800 ∨ 0xDFFF < c.toNat ∧ c.toNat < 0x110000 := c.valid
  by_cases hs : c.toNat < 0x10000
  · have hu : (UInt16.ofNat c.toNat).toNat = c.toNat := UInt16.toNat_ofNat_of_lt' hs
    have hl : ¬IsLow (UInt16.ofNat c.toNat) := by unfold IsLow; omega
    have hh : ¬IsHigh (UInt16.ofNat c.toNat) := by unfold IsHigh; omega
    rw [ofChar, if_pos hs, List.singleton_append, decodeOnto.eq_def]
    simp only [hl, hh, if_false, hu, Char.ofNat_toNat]
  · obtain ⟨u, hu⟩ : ∃ u, u = UInt16.ofNat (0xD800 + (c.toNat - 0x10000) / 0x400) := ⟨_, rfl⟩
    obtain ⟨v, hv⟩ : ∃ v, v = UInt16.ofNat (0xDC00 + (c.toNat - 0x10000) % 0x400) := ⟨_, rfl⟩
    have hun : u.toNat = 0xD800 + (c.toNat - 0x10000) / 0x400 := by
      rw [hu]; exact UInt16.toNat_ofNat_of_lt' (by simp only [UInt16.size]; omega)
    have hvn : v.toNat = 0xDC00 + (c.toNat - 0x10000) % 0x400 := by
      rw [hv]; exact UInt16.toNat_ofNat_of_lt' (by simp only [UInt16.size]; omega)
    have hl : ¬IsLow u := by unfold IsLow; omega
    have hh : IsHigh u := ⟨by omega, by omega⟩
    have hlow : IsLow v := ⟨by omega, by omega⟩
    have hn : 0x10000 + (u.toNat - 0xD800) * 0x400 + (v.toNat - 0xDC00) = c.toNat := by omega
    have hj : joined u v = c := by rw [joined, hn, Char.ofNat_toNat]
    rw [ofChar, if_neg hs, ← hu, ← hv, List.cons_append, List.singleton_append,
      decodeOnto.eq_def]
    simp only [hl, hh, hlow, hj, if_true, if_false]

theorem decodeOnto_eq_some {acc cs : List Char} {us : List UInt16} :
    decodeOnto acc us = some cs ↔ ∃ ds, cs = acc.reverse ++ ds ∧ us = ds.flatMap ofChar := by
  constructor
  · intro h
    fun_induction decodeOnto acc us with
    | case1 acc => exact ⟨[], by simpa using h.symm⟩
    | case2 => cases h
    | case3 => cases h
    | case4 acc u _ hh v rest hl ih =>
        obtain ⟨ds, rfl, rfl⟩ := ih h
        exact ⟨joined u v :: ds, by simp, by simp [ofChar_joined hh hl]⟩
    | case5 => cases h
    | case6 acc u rest hl hh ih =>
        obtain ⟨ds, rfl, rfl⟩ := ih h
        exact ⟨Char.ofNat u.toNat :: ds, by simp, by simp [ofChar_ofNat hh hl]⟩
  · rintro ⟨ds, rfl, rfl⟩
    induction ds generalizing acc with
    | nil => simp [decodeOnto]
    | cons d ds ih =>
        rw [List.flatMap_cons, decodeOnto_ofChar, ih]
        simp

theorem decode_eq_some {us : List UInt16} {s : String} : decode us = some s ↔ us = encode s := by
  simp only [decode, Option.map_eq_some_iff, decodeOnto_eq_some, encode]
  constructor
  · rintro ⟨cs, ⟨ds, rfl, rfl⟩, rfl⟩
    simp
  · rintro rfl
    exact ⟨s.toList, ⟨s.toList, by simp, rfl⟩, by simp⟩

/-- Units without a decoding are those of no string. -/
theorem decode_eq_none {us : List UInt16} : decode us = none ↔ ¬∃ s, encode s = us := by
  rw [Option.eq_none_iff_forall_not_mem]
  simp only [Option.mem_def, decode_eq_some, not_exists]
  exact forall_congr' fun s => not_congr eq_comm

end Utf16

/-! ## Modified UTF-8 -/

namespace ModifiedUtf8

theorem encodeUnits_cons (u : UInt16) (us : List UInt16) :
    encodeUnits (u :: us) = encodeUnit u ++ encodeUnits us := rfl

/-- The low bits of a number below a mark that has none of them. -/
theorem mask_or (n k mark : Nat) :
    n &&& 1 <<< k - 1 ||| mark <<< k = mark <<< k + n % (1 <<< k) := by
  rw [Nat.one_shiftLeft, Nat.and_two_pow_sub_one_eq_mod, Nat.shiftLeft_eq, Nat.mul_comm,
    Nat.or_comm, Nat.two_pow_add_eq_or_of_lt (Nat.mod_lt _ (Nat.two_pow_pos k))]

theorem tail_bits (n : Nat) : n &&& 0x3F ||| 0x80 = 0x80 + n % 0x40 := mask_or n 6 2

theorem encodeUnit_eq (u : UInt16) : encodeUnit u =
    if 0 < u.toNat ∧ u.toNat < 0x80 then [UInt8.ofNat u.toNat]
    else if u.toNat < 0x800 then
      [UInt8.ofNat (0xC0 + u.toNat / 0x40), UInt8.ofNat (0x80 + u.toNat % 0x40)]
    else
      [UInt8.ofNat (0xE0 + u.toNat / 0x1000), UInt8.ofNat (0x80 + u.toNat / 0x40 % 0x40),
       UInt8.ofNat (0x80 + u.toNat % 0x40)] := by
  have hu := u.toNat_lt
  have hmid : u.toNat >>> 6 = u.toNat / 0x40 := Nat.shiftRight_eq_div_pow u.toNat 6
  have htop : u.toNat >>> 12 = u.toNat / 0x1000 := Nat.shiftRight_eq_div_pow u.toNat 12
  have htwo : u.toNat / 0x40 &&& 0x1F ||| 0xC0 = 0xC0 + u.toNat / 0x40 % 0x20 := mask_or _ 5 6
  have hthree : u.toNat / 0x1000 &&& 0x0F ||| 0xE0 = 0xE0 + u.toNat / 0x1000 % 0x10 := mask_or _ 4 14
  simp only [encodeUnit, hmid, htop, tail_bits, htwo, hthree]
  split
  · rfl
  · split
    · rw [Nat.mod_eq_of_lt (by omega : u.toNat / 0x40 < 0x20)]
    · rw [Nat.mod_eq_of_lt (by omega : u.toNat / 0x1000 < 0x10)]

theorem continuation?_eq_some {b : UInt8} {n : Nat} :
    continuation? b = some n ↔ n < 0x40 ∧ b.toNat = 0x80 + n := by
  have hmark : ∀ k < 0x100, k &&& 0xC0 = 0x80 ↔ 0x80 ≤ k ∧ k < 0xC0 := by decide +kernel
  have hlow : b.toNat &&& 0x3F = b.toNat % 0x40 := Nat.and_two_pow_sub_one_eq_mod b.toNat 6
  unfold continuation?
  rw [hlow]
  simp only [hmark b.toNat b.toNat_lt]
  by_cases h : 0x80 ≤ b.toNat ∧ b.toNat < 0xC0
  · simp only [h, and_self, if_true, Option.some.injEq]
    omega
  · simp only [h, if_false, reduceCtorEq, false_iff]
    omega

/-- A field that is shifted past the bits of another one. -/
theorem shift_or {low k : Nat} (n : Nat) (h : low < 1 <<< k) : n <<< k ||| low = n <<< k + low := by
  rw [Nat.one_shiftLeft] at h
  rw [Nat.shiftLeft_eq, Nat.mul_comm, Nat.two_pow_add_eq_or_of_lt h]

theorem pair_bits {b : UInt8} {low : Nat} (hb : 0xC0 ≤ b.toNat ∧ b.toNat < 0xE0)
    (hlow : low < 0x40) :
    (b.toNat &&& 0x1F) <<< 6 ||| low = (b.toNat - 0xC0) * 0x40 + low := by
  have hlead : b.toNat &&& 0x1F = b.toNat % 0x20 := Nat.and_two_pow_sub_one_eq_mod b.toNat 5
  rw [shift_or _ hlow, hlead, Nat.shiftLeft_eq]
  omega

theorem triple_bits {b : UInt8} {mid low : Nat} (hb : 0xE0 ≤ b.toNat ∧ b.toNat < 0xF0)
    (hmid : mid < 0x40) (hlow : low < 0x40) :
    (b.toNat &&& 0x0F) <<< 12 ||| mid <<< 6 ||| low =
      (b.toNat - 0xE0) * 0x1000 + mid * 0x40 + low := by
  have hlead : b.toNat &&& 0x0F = b.toNat % 0x10 := Nat.and_two_pow_sub_one_eq_mod b.toNat 4
  have hrest : mid <<< 6 + low < 1 <<< 12 := by
    rw [Nat.shiftLeft_eq]
    omega
  rw [Nat.or_assoc, shift_or mid hlow, shift_or _ hrest, hlead, Nat.shiftLeft_eq, Nat.shiftLeft_eq]
  omega

theorem pair?_eq_some {b c : UInt8} {u : UInt16} (hb : 0xC0 ≤ b.toNat ∧ b.toNat < 0xE0) :
    pair? b c = some u ↔ (u.toNat = 0 ∨ 0x80 ≤ u.toNat) ∧ u.toNat < 0x800 ∧
      b.toNat = 0xC0 + u.toNat / 0x40 ∧ c.toNat = 0x80 + u.toNat % 0x40 := by
  unfold pair?
  simp only [Option.bind_eq_bind, Option.bind_eq_some_iff, continuation?_eq_some]
  constructor
  · rintro ⟨low, ⟨hlow, hc⟩, h⟩
    rw [pair_bits hb hlow] at h
    split at h
    · cases h
    · cases h
      have hn : (UInt16.ofNat ((b.toNat - 0xC0) * 0x40 + low)).toNat = (b.toNat - 0xC0) * 0x40 + low :=
        UInt16.toNat_ofNat_of_lt' (by simp only [UInt16.size]; omega)
      omega
  · rintro ⟨hu, hlt, hb', hc⟩
    have hn : (b.toNat - 0xC0) * 0x40 + u.toNat % 0x40 = u.toNat := by omega
    refine ⟨u.toNat % 0x40, ⟨by omega, hc⟩, ?_⟩
    rw [pair_bits hb (by omega), hn, if_neg (by omega), UInt16.ofNat_toNat]

theorem triple?_eq_some {b c d : UInt8} {u : UInt16} (hb : 0xE0 ≤ b.toNat ∧ b.toNat < 0xF0) :
    triple? b c d = some u ↔ 0x800 ≤ u.toNat ∧ b.toNat = 0xE0 + u.toNat / 0x1000 ∧
      c.toNat = 0x80 + u.toNat / 0x40 % 0x40 ∧ d.toNat = 0x80 + u.toNat % 0x40 := by
  unfold triple?
  simp only [Option.bind_eq_bind, Option.bind_eq_some_iff, continuation?_eq_some]
  constructor
  · rintro ⟨mid, ⟨hmid, hc⟩, low, ⟨hlow, hd⟩, h⟩
    rw [triple_bits hb hmid hlow] at h
    split at h
    · cases h
    · cases h
      have hn : (UInt16.ofNat ((b.toNat - 0xE0) * 0x1000 + mid * 0x40 + low)).toNat =
          (b.toNat - 0xE0) * 0x1000 + mid * 0x40 + low :=
        UInt16.toNat_ofNat_of_lt' (by simp only [UInt16.size]; omega)
      omega
  · rintro ⟨hu, hb', hc, hd⟩
    have hlt := u.toNat_lt
    have hn : (b.toNat - 0xE0) * 0x1000 + u.toNat / 0x40 % 0x40 * 0x40 + u.toNat % 0x40 = u.toNat := by
      omega
    refine ⟨u.toNat / 0x40 % 0x40, ⟨by omega, hc⟩, u.toNat % 0x40, ⟨by omega, hd⟩, ?_⟩
    rw [triple_bits hb (by omega) (by omega), hn, if_neg (by omega), UInt16.ofNat_toNat]

theorem ofNat_eq_of_toNat {b : UInt8} {n : Nat} (h : b.toNat = n) : UInt8.ofNat n = b := by
  rw [← h, UInt8.ofNat_toNat]

theorem encodeUnit_of_ascii {b : UInt8} (hb : 0 < b.toNat ∧ b.toNat < 0x80) :
    encodeUnit (UInt16.ofNat b.toNat) = [b] := by
  have hn : (UInt16.ofNat b.toNat).toNat = b.toNat :=
    UInt16.toNat_ofNat_of_lt' (by simp only [UInt16.size]; omega)
  simp only [encodeUnit_eq, hn, hb, and_self, if_true, UInt8.ofNat_toNat]

theorem encodeUnit_of_pair? {b c : UInt8} {u : UInt16} (hb : 0xC0 ≤ b.toNat ∧ b.toNat < 0xE0)
    (h : pair? b c = some u) : encodeUnit u = [b, c] := by
  obtain ⟨hu, hlt, hb', hc⟩ := (pair?_eq_some hb).1 h
  have hnot : ¬(0 < u.toNat ∧ u.toNat < 0x80) := by omega
  simp only [encodeUnit_eq, hnot, hlt, if_true, if_false, ofNat_eq_of_toNat hb', ofNat_eq_of_toNat hc]

theorem encodeUnit_of_triple? {b c d : UInt8} {u : UInt16} (hb : 0xE0 ≤ b.toNat ∧ b.toNat < 0xF0)
    (h : triple? b c d = some u) : encodeUnit u = [b, c, d] := by
  obtain ⟨hu, hb', hc, hd⟩ := (triple?_eq_some hb).1 h
  have hnot : ¬(0 < u.toNat ∧ u.toNat < 0x80) := by omega
  have hnot' : ¬u.toNat < 0x800 := by omega
  simp only [encodeUnit_eq, hnot, hnot', if_false, ofNat_eq_of_toNat hb', ofNat_eq_of_toNat hc,
    ofNat_eq_of_toNat hd]

theorem toNat_ofNat_byte {n : Nat} (h : n < 256) : (UInt8.ofNat n).toNat = n :=
  UInt8.toNat_ofNat_of_lt' h

theorem decodeOnto_encodeUnit (acc : List UInt16) (u : UInt16) (rest : List UInt8) :
    decodeOnto acc (encodeUnit u ++ rest) = decodeOnto (u :: acc) rest := by
  have hu := u.toNat_lt
  by_cases h1 : 0 < u.toNat ∧ u.toNat < 0x80
  · have hb : (UInt8.ofNat u.toNat).toNat = u.toNat := toNat_ofNat_byte (by omega)
    simp only [encodeUnit_eq, h1, and_self, if_true]
    rw [List.singleton_append, decodeOnto.eq_def]
    simp only [hb, h1, and_self, if_true, UInt16.ofNat_toNat]
  · by_cases h2 : u.toNat < 0x800
    · have hb : (UInt8.ofNat (0xC0 + u.toNat / 0x40)).toNat = 0xC0 + u.toNat / 0x40 :=
        toNat_ofNat_byte (by omega)
      have hc : (UInt8.ofNat (0x80 + u.toNat % 0x40)).toNat = 0x80 + u.toNat % 0x40 :=
        toNat_ofNat_byte (by omega)
      simp only [encodeUnit_eq, h1, h2, if_true, if_false]
      generalize UInt8.ofNat (0xC0 + u.toNat / 0x40) = b at hb
      generalize UInt8.ofNat (0x80 + u.toNat % 0x40) = c at hc
      have hlead : 0xC0 ≤ b.toNat ∧ b.toNat < 0xE0 := by omega
      have hnot : ¬(0 < b.toNat ∧ b.toNat < 0x80) := by omega
      have hp : pair? b c = some u := (pair?_eq_some hlead).2 ⟨by omega, h2, hb, hc⟩
      rw [List.cons_append, List.singleton_append, decodeOnto.eq_def]
      simp only [hnot, hlead, and_self, if_true, if_false, hp]
    · have hb : (UInt8.ofNat (0xE0 + u.toNat / 0x1000)).toNat = 0xE0 + u.toNat / 0x1000 :=
        toNat_ofNat_byte (by omega)
      have hc : (UInt8.ofNat (0x80 + u.toNat / 0x40 % 0x40)).toNat = 0x80 + u.toNat / 0x40 % 0x40 :=
        toNat_ofNat_byte (by omega)
      have hd : (UInt8.ofNat (0x80 + u.toNat % 0x40)).toNat = 0x80 + u.toNat % 0x40 :=
        toNat_ofNat_byte (by omega)
      simp only [encodeUnit_eq, h1, h2, if_false]
      generalize UInt8.ofNat (0xE0 + u.toNat / 0x1000) = b at hb
      generalize UInt8.ofNat (0x80 + u.toNat / 0x40 % 0x40) = c at hc
      generalize UInt8.ofNat (0x80 + u.toNat % 0x40) = d at hd
      have hlead : 0xE0 ≤ b.toNat ∧ b.toNat < 0xF0 := by omega
      have hnot : ¬(0 < b.toNat ∧ b.toNat < 0x80) := by omega
      have hnot' : ¬(0xC0 ≤ b.toNat ∧ b.toNat < 0xE0) := by omega
      have hp : triple? b c d = some u := (triple?_eq_some hlead).2 ⟨by omega, hb, hc, hd⟩
      rw [List.cons_append, List.cons_append, List.singleton_append, decodeOnto.eq_def]
      simp only [hnot, hnot', hlead, and_self, if_true, if_false, hp]

theorem decodeOnto_eq_some {acc us : List UInt16} {bs : List UInt8} :
    decodeOnto acc bs = some us ↔ ∃ vs, us = acc.reverse ++ vs ∧ bs = encodeUnits vs := by
  constructor
  · intro h
    fun_induction decodeOnto acc bs with
    | case1 acc => exact ⟨[], by simpa [encodeUnits] using h.symm⟩
    | case2 acc b rest hb ih =>
        obtain ⟨vs, rfl, rfl⟩ := ih h
        exact ⟨UInt16.ofNat b.toNat :: vs, by simp, by rw [encodeUnits_cons, encodeUnit_of_ascii hb]; rfl⟩
    | case3 acc b _ hb c rest u hp ih =>
        obtain ⟨vs, rfl, rfl⟩ := ih h
        exact ⟨u :: vs, by simp, by rw [encodeUnits_cons, encodeUnit_of_pair? hb hp]; rfl⟩
    | case4 => cases h
    | case5 => cases h
    | case6 acc b _ _ hb c d rest u hp ih =>
        obtain ⟨vs, rfl, rfl⟩ := ih h
        exact ⟨u :: vs, by simp, by rw [encodeUnits_cons, encodeUnit_of_triple? hb hp]; rfl⟩
    | case7 => cases h
    | case8 => cases h
    | case9 => cases h
  · rintro ⟨vs, rfl, rfl⟩
    induction vs generalizing acc with
    | nil => simp [encodeUnits, decodeOnto]
    | cons v vs ih =>
        rw [encodeUnits_cons, decodeOnto_encodeUnit, ih]
        simp

theorem decodeUnits_eq_some {bs : List UInt8} {us : List UInt16} :
    decodeUnits bs = some us ↔ bs = encodeUnits us := by
  simp [decodeUnits, decodeOnto_eq_some]

theorem encodeUnit_of_surrogate {u : UInt16} (h : 0xD800 ≤ u.toNat ∧ u.toNat < 0xE000) :
    encodeUnit u = [0xED, UInt8.ofNat (0x80 + u.toNat / 0x40 % 0x40),
      UInt8.ofNat (0x80 + u.toNat % 0x40)] := by
  have h1 : ¬(0 < u.toNat ∧ u.toNat < 0x80) := by omega
  have h2 : ¬u.toNat < 0x800 := by omega
  have h3 : 0xE0 + u.toNat / 0x1000 = 0xED := by omega
  simp only [encodeUnit_eq, h1, h2, if_false, h3]
  rfl

theorem encodeChar_eq (c : Char) : encodeChar c = encodeUnits (Utf16.ofChar c) := by
  have hc : c.toNat < 0xD800 ∨ 0xDFFF < c.toNat ∧ c.toNat < 0x110000 := c.valid
  by_cases hs : c.toNat < 0x10000
  · have hn : (UInt16.ofNat c.toNat).toNat = c.toNat := UInt16.toNat_ofNat_of_lt' hs
    simp only [encodeChar, encodeUnits, Utf16.ofChar, hs, if_true, List.flatMap_cons,
      List.flatMap_nil, List.append_nil, encodeUnit, hn]
  · generalize hn : c.toNat = n at hc hs
    -- the last plane wraps around, the others do not
    have hplane : ∀ p < 17, 0 < p →
        UInt8.ofNat (p &&& 0x0F) - 1 &&& 0x0F ||| 0xA0 = UInt8.ofNat (0xA0 + (p - 1)) := by decide
    have hp : n >>> 16 = n / 0x10000 := Nat.shiftRight_eq_div_pow n 16
    have hmid : n >>> 10 = n / 0x400 := Nat.shiftRight_eq_div_pow n 10
    have hlow : n >>> 6 = n / 0x40 := Nat.shiftRight_eq_div_pow n 6
    have hfour : n / 0x40 &&& 0x0F ||| 0xB0 = 0xB0 + n / 0x40 % 0x10 := mask_or _ 4 11
    have hu : (UInt16.ofNat (0xD800 + (n - 0x10000) / 0x400)).toNat =
        0xD800 + (n - 0x10000) / 0x400 :=
      UInt16.toNat_ofNat_of_lt' (by simp only [UInt16.size]; omega)
    have hv : (UInt16.ofNat (0xDC00 + (n - 0x10000) % 0x400)).toNat =
        0xDC00 + (n - 0x10000) % 0x400 :=
      UInt16.toNat_ofNat_of_lt' (by simp only [UInt16.size]; omega)
    have hleft : encodeUnit (UInt16.ofNat (0xD800 + (n - 0x10000) / 0x400)) =
        [0xED, UInt8.ofNat (0xA0 + (n / 0x10000 - 1)), UInt8.ofNat (0x80 + n / 0x400 % 0x40)] := by
      rw [encodeUnit_of_surrogate (by omega), hu]
      have h1 : 0x80 + (0xD800 + (n - 0x10000) / 0x400) / 0x40 % 0x40 = 0xA0 + (n / 0x10000 - 1) := by
        omega
      have h2 : 0x80 + (0xD800 + (n - 0x10000) / 0x400) % 0x40 = 0x80 + n / 0x400 % 0x40 := by omega
      rw [h1, h2]
    have hright : encodeUnit (UInt16.ofNat (0xDC00 + (n - 0x10000) % 0x400)) =
        [0xED, UInt8.ofNat (0xB0 + n / 0x40 % 0x10), UInt8.ofNat (0x80 + n % 0x40)] := by
      rw [encodeUnit_of_surrogate (by omega), hv]
      have h1 : 0x80 + (0xDC00 + (n - 0x10000) % 0x400) / 0x40 % 0x40 = 0xB0 + n / 0x40 % 0x10 := by
        omega
      have h2 : 0x80 + (0xDC00 + (n - 0x10000) % 0x400) % 0x40 = 0x80 + n % 0x40 := by omega
      rw [h1, h2]
    have h1 : ¬(0 < n ∧ n < 0x80) := by omega
    have h2 : ¬n < 0x800 := by omega
    simp only [encodeChar, Utf16.ofChar, hn, hs, h1, h2, if_false, encodeUnits, List.flatMap_cons,
      List.flatMap_nil, List.append_nil, hleft, hright, List.cons_append, List.nil_append, hp, hmid,
      hlow, tail_bits, hfour, hplane (n / 0x10000) (by omega) (by omega)]

theorem encode_eq (s : String) : encode s = encodeUnits (Utf16.encode s) := by
  have hc : encodeChar = fun c => (Utf16.ofChar c).flatMap encodeUnit := funext encodeChar_eq
  simp only [encode, encodeUnits, Utf16.encode, List.flatMap_assoc, hc]

/-- Both units and UTF-16 read in one way only, so the string is the one that was written. -/
theorem decode_eq_some {bs : List UInt8} {s : String} : decode bs = some s ↔ bs = encode s := by
  simp only [decode, Option.bind_eq_bind, Option.bind_eq_some_iff, decodeUnits_eq_some,
    Utf16.decode_eq_some, encode_eq]
  constructor
  · rintro ⟨us, rfl, rfl⟩
    rfl
  · intro h
    exact ⟨Utf16.encode s, h, rfl⟩

/-- What is read is exactly what was written, of units and of strings, and a string is written as
its units are. -/
theorem read_iff_written :
    (∀ us, decodeUnits (encodeUnits us) = some us) ∧
    (∀ bs us, decodeUnits bs = some us ↔ encodeUnits us = bs) ∧
    (∀ s, encode s = encodeUnits (Utf16.encode s)) ∧
    (∀ us s, Utf16.decode us = some s ↔ us = Utf16.encode s) ∧
    ∀ bs s, decode bs = some s ↔ encode s = bs :=
  ⟨fun _ => decodeUnits_eq_some.2 rfl, fun _ _ => decodeUnits_eq_some.trans eq_comm, encode_eq,
    fun _ _ => Utf16.decode_eq_some, fun _ _ => decode_eq_some.trans eq_comm⟩

example : decode [0xED, 0xAF, 0xBF, 0xED, 0xBF, 0xBF] = some (String.singleton (Char.ofNat 0x10FFFF)) :=
  by decide +kernel

-- a raw zero, overlong forms of two and of three bytes, a form of four bytes and a truncated one
example : ([[0x00], [0xC1, 0x81], [0xE0, 0x81, 0x81], [0xF0, 0x90, 0x80, 0x80], [0xE4, 0xB8]].map
    decodeUnits).all Option.isNone := by
  decide +kernel

end ModifiedUtf8

end ClassForge.Text
