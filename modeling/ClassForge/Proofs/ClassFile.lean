import ClassForge.Proofs.Constants
import ClassForge.Report

/-!
# Class files as bytes

A byte string is accepted exactly if it is the written form of a representable class. Reading and
then writing therefore gives back every accepted input, and writing and then reading gives back
exactly the representable classes.
-/

namespace ClassForge

open Reader

variable {c c' : Cursor}

/-! ## The parts of a class -/

theorem Flags.read_eq_ok {scope : Scope} {f : Flags scope} :
    Flags.read c = .ok (f, c') ↔ c.Past f.write c' := by
  unfold Flags.read Flags.write
  simp only [bind_eq_ok, pure_eq_ok, u16_eq_ok]
  refine ⟨fun h => ?_, fun h => ⟨f.bits, c', h, rfl, rfl⟩⟩
  obtain ⟨v, d, hd, rfl, rfl⟩ := h
  exact hd

theorem Version.read_eq_ok {v : Version} : Version.read c = .ok (v, c') ↔ c.Past v.write c' := by
  unfold Version.read Version.write
  simp only [bind_eq_ok, pure_eq_ok, u16_eq_ok, Cursor.Past.append_iff]
  refine ⟨fun h => ?_, fun ⟨d, hd, he⟩ => ⟨v.minor, d, hd, v.major, c', he, rfl, rfl⟩⟩
  obtain ⟨minor, d, hd, major, e, he, rfl, rfl⟩ := h
  exact ⟨d, hd, he⟩

/-- The body fits behind a length of 32 bits. -/
def Attribute.Representable (a : Attribute) : Prop := a.info.length < 2 ^ 32

theorem Attribute.read_accepts : Accepts read write Representable := by
  intro c a c'
  unfold read write Bytes.sized
  simp only [bind_eq_ok, pure_eq_ok, Index.read_eq_ok, u32_eq_ok, bytes_eq_ok,
    Cursor.Past.append_iff]
  refine ⟨fun h => ?_, fun h => ?_⟩
  · obtain ⟨name, d, hd, n, e, he, info, f, ⟨hl, hf⟩, rfl, rfl⟩ := h
    have hn := n.toNat_lt
    refine ⟨?_, d, hd, e, ?_, hf⟩
    · rw [Representable, hl]; exact hn
    · rw [hl]; exact he
  · obtain ⟨hr, d, hd, e, he, hf⟩ := h
    have hn : (UInt32.ofNat a.info.length).toNat = a.info.length := UInt32.toNat_ofNat_of_lt' hr
    exact ⟨a.name, d, hd, UInt32.ofNat a.info.length, e, by rwa [Bytes.u32, hn], a.info, c',
      ⟨hn.symm, hf⟩, rfl, rfl⟩

def Attribute.ListRepresentable (as : List Attribute) : Prop :=
  as.length ≤ 65535 ∧ ∀ a ∈ as, a.Representable

theorem Attribute.readList_accepts :
    Accepts (counted Attribute.read) (Bytes.counted Attribute.write) ListRepresentable :=
  read_accepts.counted

def Member.Representable {scope : Scope} (m : Member scope) : Prop :=
  Attribute.ListRepresentable m.attributes

theorem Member.read_accepts {scope : Scope} :
    Accepts (Member.read : Reader (Member scope)) Member.write Member.Representable := by
  intro c m c'
  unfold read write
  simp only [bind_eq_ok, pure_eq_ok, Flags.read_eq_ok, Index.read_eq_ok,
    Attribute.readList_accepts _ _ _, Cursor.Past.append_iff]
  refine ⟨fun h => ?_, fun h => ?_⟩
  · obtain ⟨flags, d₁, h₁, name, d₂, h₂, descriptor, d₃, h₃, as, d₄, ⟨has, h₄⟩, rfl, rfl⟩ := h
    exact ⟨has, d₃, ⟨d₂, ⟨d₁, h₁, h₂⟩, h₃⟩, h₄⟩
  · obtain ⟨has, d₃, ⟨d₂, ⟨d₁, h₁, h₂⟩, h₃⟩, h₄⟩ := h
    exact ⟨_, d₁, h₁, _, d₂, h₂, _, d₃, h₃, _, c', ⟨has, h₄⟩, rfl, rfl⟩

/-! ## Classes -/

namespace ClassFile

/-- Every table and every text fits behind its length, and the constants are numbered from 1. -/
structure Representable (c : ClassFile) : Prop where
  constants : c.constants.Representable
  interfaces : c.interfaces.length ≤ 65535
  fields : c.fields.length ≤ 65535 ∧ ∀ f ∈ c.fields, f.Representable
  methods : c.methods.length ≤ 65535 ∧ ∀ m ∈ c.methods, m.Representable
  attributes : Attribute.ListRepresentable c.attributes

theorem readMagic_eq_ok {u : Unit} : readMagic c = .ok (u, c') ↔ c.Past (Bytes.u32 magic) c' := by
  unfold readMagic
  simp only [bind_eq_ok, u32_eq_ok]
  refine ⟨fun h => ?_, fun h => ⟨magic, c', h, by rw [if_pos rfl]; rfl⟩⟩
  obtain ⟨found, d, hd, h⟩ := h
  split at h
  · rename_i hm
    obtain ⟨-, rfl⟩ := pure_eq_ok.1 h
    rwa [← hm]
  · exact absurd h failAt_ne_ok

theorem read_accepts : Accepts read write fun c => c.constants.Pushed ∧ c.Representable := by
  intro c k c'
  have hinterfaces : Accepts (counted (Index.read : Reader (Index .classInfo)))
      (Bytes.counted Index.write) fun is => is.length ≤ 65535 ∧ ∀ i ∈ is, True :=
    Accepts.counted fun c i c' => by rw [Index.read_eq_ok, true_and]
  unfold read write
  simp only [bind_eq_ok, pure_eq_ok, readMagic_eq_ok, Version.read_eq_ok,
    Constants.read_accepts _ _ _, Flags.read_eq_ok, Index.read_eq_ok, hinterfaces _ _ _,
    Member.read_accepts.counted _ _ _, Attribute.readList_accepts _ _ _, Cursor.Past.append_iff]
  refine ⟨fun h => ?_, fun h => ?_⟩
  · obtain ⟨-, d₁, h₁, version, d₂, h₂, cs, d₃, ⟨⟨hb, hcs⟩, h₃⟩, flags, d₄, h₄, self, d₅, h₅, super,
      d₆, h₆, is, d₇, ⟨his, h₇⟩, fs, d₈, ⟨hfs, h₈⟩, ms, d₉, ⟨hms, h₉⟩, as, d₁₀, ⟨has, h₁₀⟩, rfl,
      rfl⟩ := h
    exact ⟨⟨hb, ⟨hcs, his.1, hfs, hms, has⟩⟩, d₉, ⟨d₈, ⟨d₇, ⟨d₆, ⟨d₅, ⟨d₄, ⟨d₃, ⟨d₂, ⟨d₁, h₁, h₂⟩,
      h₃⟩, h₄⟩, h₅⟩, h₆⟩, h₇⟩, h₈⟩, h₉⟩, h₁₀⟩
  · obtain ⟨⟨hb, hr⟩, d₉, ⟨d₈, ⟨d₇, ⟨d₆, ⟨d₅, ⟨d₄, ⟨d₃, ⟨d₂, ⟨d₁, h₁, h₂⟩, h₃⟩, h₄⟩, h₅⟩, h₆⟩, h₇⟩,
      h₈⟩, h₉⟩, h₁₀⟩ := h
    exact ⟨(), d₁, h₁, _, d₂, h₂, _, d₃, ⟨⟨hb, hr.constants⟩, h₃⟩, _, d₄, h₄, _, d₅, h₅, _, d₆, h₆,
      _, d₇, ⟨⟨hr.interfaces, fun _ _ => trivial⟩, h₇⟩, _, d₈, ⟨hr.fields, h₈⟩, _, d₉,
      ⟨hr.methods, h₉⟩, _, c', ⟨hr.attributes, h₁₀⟩, rfl, rfl⟩

/-- The inputs that are accepted are the written forms of representable classes. -/
theorem parse_eq_ok_iff {bytes : List UInt8} {c : ClassFile} :
    parse bytes = .ok c ↔ (c.constants.Pushed ∧ c.Representable) ∧ bytes = c.write :=
  read_accepts.run_eq_ok

/-- Whatever is accepted is written back byte for byte, so a round trip never finds a difference. -/
theorem write_of_parse {bytes : List UInt8} {c : ClassFile} (h : parse bytes = .ok c) :
    c.write = bytes ∧ Report.roundTrip bytes = .ok .same := by
  have hw : c.write = bytes := (parse_eq_ok_iff.1 h).2.symm
  refine ⟨hw, ?_⟩
  rw [Report.roundTrip, h]
  exact if_pos hw

/-- A class with a lone surrogate, a NaN with a payload, wide and repeated constants, a flag without a
name and an attribute of an unknown kind. -/
def oddities : ClassFile where
  version := ⟨52, 0⟩
  constants := (Slots.emptyAt 1).extend
    [.utf8 "A", .classInfo ⟨1⟩, .utf16 [0x41, 0xD800], .long (-1), .float 0x7FA00001,
     .double 0xFFF8000000000002, .utf8 "A", .methodHandle .invokeStatic ⟨2⟩]
  flags := ⟨0x0821⟩
  thisClass := ⟨2⟩
  superClass := ⟨0⟩
  interfaces := [⟨2⟩]
  fields := [⟨⟨0⟩, ⟨1⟩, ⟨8⟩, []⟩]
  methods := []
  attributes := [⟨⟨3⟩, [1, 2, 3]⟩]

theorem oddities_pushed : oddities.constants.Pushed := Slots.pushed_extend _ _

theorem oddities_representable : oddities.Representable := by
  have hlone : ∀ s, Text.Utf16.encode s ≠ [0x41, 0xD800] :=
    not_exists.1 (Text.Utf16.decode_eq_none.1 rfl)
  have hfields : oddities.fields.length ≤ 65535 ∧ ∀ f ∈ oddities.fields, f.Representable := by
    simp [oddities, Member.Representable, Attribute.ListRepresentable]
  refine ⟨⟨rfl, by decide, ?_⟩, by decide, hfields, by simp [oddities], by decide, ?_⟩
  · simp only [oddities, Slots.elements_extend]
    simp [Slots.elements, Slots.toList, Slots.emptyAt, Constant.Representable, hlone,
      Text.ModifiedUtf8.encode, Text.ModifiedUtf8.encodeUnits, Text.ModifiedUtf8.encodeUnit,
      Text.ModifiedUtf8.encodeChar]
  · simp [oddities, Attribute.Representable]

theorem write_of_parse_oddities :
    parse oddities.write = .ok oddities ∧ Report.roundTrip oddities.write = .ok .same :=
  have h := parse_eq_ok_iff.2 ⟨⟨oddities_pushed, oddities_representable⟩, rfl⟩
  ⟨h, (write_of_parse h).2⟩

/-- Writing loses nothing exactly on representable classes: a length that was cut off never makes the
shortened form read as the same class. -/
theorem parse_write_iff {c : ClassFile} (h : c.constants.Pushed) :
    parse c.write = .ok c ↔ c.Representable := by
  rw [parse_eq_ok_iff]
  exact ⟨fun hc => hc.1.2, fun hr => ⟨⟨h, hr⟩, rfl⟩⟩

theorem parse_write_iff_oddities :
    parse oddities.write = .ok oddities ∧
      parse (write { oddities with constants := (Slots.emptyAt 1).extend [.utf16 [0x41]] }) ≠
        .ok { oddities with constants := (Slots.emptyAt 1).extend [.utf16 [0x41]] } := by
  refine ⟨(parse_write_iff oddities_pushed).2 oddities_representable, fun h => ?_⟩
  have hr := (parse_write_iff (Slots.pushed_extend 1 [Constant.utf16 [0x41]])).1 h
  exact (hr.constants.constants (.utf16 [0x41]) (List.mem_singleton_self _)).2 ⟨"A", rfl⟩

end ClassFile

end ClassForge
