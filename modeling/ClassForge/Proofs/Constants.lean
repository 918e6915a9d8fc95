import ClassForge.Constant.Format
import ClassForge.Proofs.Bytes
import ClassForge.Proofs.Slots
import ClassForge.Proofs.Text

/-!
# Constants as bytes

Each kind of constant is read back from what it is written as. Of the constants that share the tag of
text only those that reading can produce are meant: a string whenever there is one.
-/

namespace ClassForge

open Reader

variable {c c' : Cursor}

/-! ## Indices and handle kinds -/

theorem Index.read_eq_ok {kind : IndexKind} {i : Index kind} :
    Index.read c = .ok (i, c') ↔ c.Past i.write c' := by
  unfold Index.read Index.write
  simp only [bind_eq_ok, pure_eq_ok, u16_eq_ok]
  constructor
  · rintro ⟨v, d, hd, rfl, rfl⟩
    exact hd
  · intro h
    exact ⟨i.val, c', h, rfl, rfl⟩

theorem HandleKind.ofNumber?_eq_some {n : UInt8} {k : HandleKind} :
    ofNumber? n = some k ↔ n = k.number := by
  constructor
  · intro h
    have hk := List.find?_some h
    exact (of_decide_eq_true hk).symm
  · rintro rfl
    cases k <;> rfl

theorem HandleKind.read_eq_ok {k : HandleKind} :
    HandleKind.read c = .ok (k, c') ↔ c.Past k.write c' := by
  unfold HandleKind.read HandleKind.write
  simp only [bind_eq_ok, position_eq_ok, u8_eq_ok]
  constructor
  · rintro ⟨_, _, ⟨rfl, rfl⟩, n, d, hd, h⟩
    cases hn : ofNumber? n with
    | none => simp [hn] at h
    | some k' =>
        simp only [hn, pure_eq_ok] at h
        obtain ⟨rfl, rfl⟩ := h
        rw [← ofNumber?_eq_some.1 hn]
        exact hd
  · intro h
    refine ⟨_, _, ⟨rfl, rfl⟩, k.number, c', h, ?_⟩
    simp only [ofNumber?_eq_some.2 rfl, pure_eq_ok, and_self]

/-! ## Constants -/

namespace Constant

/-- What a constant needs to have a written form of its own: its text fits behind a length of
16 bits, and only units that are no string are kept as units. -/
def Representable : Constant → Prop
  | utf8 text => (Text.ModifiedUtf8.encode text).length ≤ 65535
  | utf16 units =>
    (Text.ModifiedUtf8.encodeUnits units).length ≤ 65535 ∧ ¬∃ s, Text.Utf16.encode s = units
  | _ => True

theorem ofUnits_encode (s : String) : ofUnits (Text.Utf16.encode s) = utf8 s := by
  rw [ofUnits, Text.Utf16.decode_eq_some.2 rfl]

theorem ofUnits_of_not_text {units : List UInt16} (h : ¬∃ s, Text.Utf16.encode s = units) :
    ofUnits units = utf16 units := by
  rw [ofUnits, Text.Utf16.decode_eq_none.2 h]

theorem writeBody_ofUnits (units : List UInt16) :
    (ofUnits units).writeBody = writeText (Text.ModifiedUtf8.encodeUnits units) := by
  by_cases h : ∃ s, Text.Utf16.encode s = units
  · obtain ⟨s, rfl⟩ := h
    rw [ofUnits_encode, writeBody, Text.ModifiedUtf8.encode_eq]
  · rw [ofUnits_of_not_text h, writeBody]

theorem text_representable_iff {k : Constant} :
    k.tag = 1 ∧ k.Representable ↔
      ∃ units, ofUnits units = k ∧ (Text.ModifiedUtf8.encodeUnits units).length ≤ 65535 := by
  refine ⟨fun ⟨ht, hk⟩ => ?_, fun ⟨units, hu, hl⟩ => ?_⟩
  · cases k with
    | utf8 s => exact ⟨_, ofUnits_encode s, by rw [← Text.ModifiedUtf8.encode_eq]; exact hk⟩
    | utf16 units => exact ⟨units, ofUnits_of_not_text hk.2, hk.1⟩
    | methodRef _ _ b => cases b <;> cases ht
    | _ => cases ht
  · subst hu
    by_cases h : ∃ s, Text.Utf16.encode s = units
    · obtain ⟨s, rfl⟩ := h
      rw [ofUnits_encode]
      exact ⟨rfl, by rw [Representable, Text.ModifiedUtf8.encode_eq]; exact hl⟩
    · rw [ofUnits_of_not_text h]
      exact ⟨rfl, hl, h⟩

theorem readText_eq_ok {k : Constant} :
    readText c = .ok (k, c') ↔ (k.tag = 1 ∧ k.Representable) ∧ c.Past k.writeBody c' := by
  rw [text_representable_iff]
  unfold readText
  simp only [bind_eq_ok, u16_eq_ok, position_eq_ok, bytes_eq_ok]
  refine ⟨fun h => ?_, fun h => ?_⟩
  · obtain ⟨n, d, hd, _, _, ⟨rfl, rfl⟩, bs, e, ⟨hl, he⟩, h⟩ := h
    cases hu : Text.ModifiedUtf8.decodeUnits bs with
    | none => simp [hu] at h
    | some units =>
        simp only [hu, pure_eq_ok] at h
        obtain ⟨rfl, rfl⟩ := h
        obtain rfl := Text.ModifiedUtf8.decodeUnits_eq_some.1 hu
        have hn := n.toNat_lt
        refine ⟨⟨units, rfl, by omega⟩, ?_⟩
        rw [writeBody_ofUnits, writeText, Cursor.Past.append_iff]
        exact ⟨d, by rwa [hl], he⟩
  · obtain ⟨⟨units, rfl, hl⟩, h⟩ := h
    rw [writeBody_ofUnits, writeText, Cursor.Past.append_iff] at h
    obtain ⟨d, hd, he⟩ := h
    have hn : (UInt16.ofNat (Text.ModifiedUtf8.encodeUnits units).length).toNat =
        (Text.ModifiedUtf8.encodeUnits units).length := toNat_ofNat_u16 hl
    refine ⟨_, d, by rw [Bytes.u16, hn]; exact hd, _, _, ⟨rfl, rfl⟩, _, c', ⟨hn.symm, he⟩, ?_⟩
    simp only [Text.ModifiedUtf8.decodeUnits_eq_some.2 rfl, pure_eq_ok, and_self]

theorem of_readBody_eq_ok {offset : Nat} {tag : UInt8} {k : Constant} :
    readBody offset tag c = .ok (k, c') →
      tag = k.tag ∧ k.Representable ∧ c.Past k.writeBody c' := by
  fun_cases readBody offset tag with
  | case1 ht =>
      intro h
      obtain ⟨⟨hk, hr⟩, hp⟩ := readText_eq_ok.1 h
      exact ⟨by rw [hk]; exact UInt8.toNat_inj.1 ht, hr, hp⟩
  | case2 ht | case3 ht | case4 ht | case5 ht | case6 ht | case7 ht | case13 ht | case16 ht
  | case17 ht =>
      intro h
      simp only [bind_eq_ok, pure_eq_ok, Index.read_eq_ok, u32_eq_ok, u64_eq_ok] at h
      obtain ⟨a, d, hd, rfl, rfl⟩ := h
      exact ⟨UInt8.toNat_inj.1 ht, trivial, hd⟩
  | case8 ht | case9 ht | case10 ht | case11 ht | case12 ht | case14 ht | case15 ht =>
      intro h
      simp only [bind_eq_ok, pure_eq_ok, Index.read_eq_ok, HandleKind.read_eq_ok, u16_eq_ok] at h
      obtain ⟨a, d, hd, b, e, he, rfl, rfl⟩ := h
      exact ⟨UInt8.toNat_inj.1 ht, trivial, Cursor.Past.append_iff.2 ⟨d, hd, he⟩⟩
  | case18 => exact fun h => absurd h failAt_ne_ok

theorem readBody_of_representable {k : Constant} (offset : Nat) (hk : k.Representable)
    (hp : c.Past k.writeBody c') : readBody offset k.tag c = .ok (k, c') := by
  cases k with
  | utf8 s => exact readText_eq_ok.2 ⟨⟨rfl, hk⟩, hp⟩
  | utf16 us => exact readText_eq_ok.2 ⟨⟨rfl, hk⟩, hp⟩
  | integer v => exact bind_eq_ok.2 ⟨v.toUInt32, c', u32_eq_ok.2 hp, rfl⟩
  | float v => exact bind_eq_ok.2 ⟨v, c', u32_eq_ok.2 hp, rfl⟩
  | long v => exact bind_eq_ok.2 ⟨v.toUInt64, c', u64_eq_ok.2 hp, rfl⟩
  | double v => exact bind_eq_ok.2 ⟨v, c', u64_eq_ok.2 hp, rfl⟩
  | classInfo i | string i | methodType i | moduleInfo i | packageInfo i =>
      exact bind_eq_ok.2 ⟨i, c', Index.read_eq_ok.2 hp, rfl⟩
  | fieldRef i j | nameAndType i j =>
      obtain ⟨d, hi, hj⟩ := Cursor.Past.append_iff.1 hp
      exact bind_eq_ok.2 ⟨i, d, Index.read_eq_ok.2 hi,
        bind_eq_ok.2 ⟨j, c', Index.read_eq_ok.2 hj, rfl⟩⟩
  | methodRef i j b =>
      obtain ⟨d, hi, hj⟩ := Cursor.Past.append_iff.1 hp
      cases b <;>
        exact bind_eq_ok.2 ⟨i, d, Index.read_eq_ok.2 hi,
          bind_eq_ok.2 ⟨j, c', Index.read_eq_ok.2 hj, rfl⟩⟩
  | methodHandle h i =>
      obtain ⟨d, hh, hi⟩ := Cursor.Past.append_iff.1 hp
      exact bind_eq_ok.2 ⟨h, d, HandleKind.read_eq_ok.2 hh,
        bind_eq_ok.2 ⟨i, c', Index.read_eq_ok.2 hi, rfl⟩⟩
  | dynamic b i | invokeDynamic b i =>
      obtain ⟨d, hb, hi⟩ := Cursor.Past.append_iff.1 hp
      exact bind_eq_ok.2 ⟨b, d, u16_eq_ok.2 hb,
        bind_eq_ok.2 ⟨i, c', Index.read_eq_ok.2 hi, rfl⟩⟩

theorem read_accepts : Accepts read write Representable := by
  intro c k c'
  unfold read write
  simp only [bind_eq_ok, position_eq_ok, u8_eq_ok, Cursor.Past.append_iff]
  refine ⟨fun h => ?_, fun h => ?_⟩
  · obtain ⟨_, _, ⟨rfl, rfl⟩, _, d, hd, h⟩ := h
    obtain ⟨rfl, hk, hp⟩ := of_readBody_eq_ok h
    exact ⟨hk, d, hd, hp⟩
  · obtain ⟨hk, d, hd, hp⟩ := h
    exact ⟨_, _, ⟨rfl, rfl⟩, k.tag, d, hd, readBody_of_representable _ hk hp⟩

end Constant

/-! ## Pools -/

namespace Constants

theorem of_readUntil_eq_ok {count : Nat} {cs cs' : Constants} (h : readUntil count cs c = .ok (cs', c')) :
    ∃ ks, cs' = cs.extend ks ∧ (∀ k ∈ ks, k.Representable) ∧
      c.Past (ks.flatMap Constant.write) c' := by
  fun_induction readUntil count cs c with
  | case1 => cases h
  | case2 cs c hlt k d hk ih =>
      obtain ⟨ks, rfl, hks, hp⟩ := ih h
      obtain ⟨hrep, hd⟩ := (Constant.read_accepts _ _ _).1 hk
      refine ⟨k :: ks, rfl, ?_, ?_⟩
      · simpa using ⟨hrep, hks⟩
      · rw [List.flatMap_cons]
        exact Cursor.Past.append_iff.2 ⟨d, hd, hp⟩
  | case3 cs c hlt =>
      cases h
      exact ⟨[], rfl, by simp, Cursor.Past.nil_iff.2 rfl⟩

/-- The count is reached exactly when all constants are read, as each of them takes room. -/
theorem readUntil_stop {ks : List Constant} (cs : Constants) (hks : ∀ k ∈ ks, k.Representable)
    (hp : c.Past (ks.flatMap Constant.write) c') :
    readUntil (cs.extend ks).stop cs c = .ok (cs.extend ks, c') := by
  induction ks generalizing cs c with
  | nil =>
      obtain rfl := Cursor.Past.nil_iff.1 hp
      rw [Slots.extend_nil, readUntil, if_neg (Nat.lt_irrefl _)]
  | cons k ks ih =>
      rw [List.flatMap_cons] at hp
      obtain ⟨d, hd, hp⟩ := Cursor.Past.append_iff.1 hp
      have hk : Constant.read c = .ok (k, d) :=
        (Constant.read_accepts _ _ _).2 ⟨hks k (by simp), hd⟩
      have hlt : cs.stop < (cs.extend (k :: ks)).stop := by
        have hw : 0 < Wide.width k := k.width_pos
        rw [Slots.extend_cons, Slots.stop_extend, Slots.stop_push]
        omega
      rw [readUntil, if_pos hlt, hk]
      exact ih _ (fun k' h' => hks k' (by simp [h'])) hp

structure Representable (cs : Constants) : Prop where
  start : cs.start = 1
  stop : cs.stop ≤ 65535
  constants : ∀ k ∈ cs.elements, k.Representable

theorem read_accepts : Accepts read write fun cs => cs.Pushed ∧ cs.Representable := by
  intro c cs c'
  unfold read write
  simp only [bind_eq_ok, position_eq_ok, u16_eq_ok, Cursor.Past.append_iff]
  refine ⟨fun h => ?_, fun h => ?_⟩
  · obtain ⟨_, _, ⟨rfl, rfl⟩, count, d, hd, cs', e, hu, h⟩ := h
    split at h
    · rename_i hstop
      obtain ⟨rfl, rfl⟩ := pure_eq_ok.1 h
      obtain ⟨ks, rfl, hks, hp⟩ := of_readUntil_eq_ok hu
      have he : (empty.extend ks).elements = ks := Slots.elements_extend _ _
      have hcount := count.toNat_lt
      refine ⟨⟨Slots.pushed_extend 1 ks, ⟨Slots.start_extend _ _, by omega, ?_⟩⟩, d, ?_, ?_⟩
      · rw [he]; exact hks
      · rw [hstop]; exact hd
      · rw [he]; exact hp
    · exact absurd h failAt_ne_ok
  · obtain ⟨⟨hb, hr⟩, d, hd, hp⟩ := h
    have hcs : cs = empty.extend cs.elements := by
      have := hb.eq_extend
      rwa [hr.start] at this
    have hn : (UInt16.ofNat cs.stop).toNat = cs.stop := toNat_ofNat_u16 hr.stop
    have hu : readUntil cs.stop empty d = .ok (cs, c') := by
      have := readUntil_stop empty hr.constants hp
      rwa [← hcs] at this
    refine ⟨_, _, ⟨rfl, rfl⟩, UInt16.ofNat cs.stop, d, by rwa [Bytes.u16, hn], cs, c', ?_, ?_⟩
    · rw [hn]; exact hu
    · rw [if_pos hn.symm]; rfl

end Constants

end ClassForge
