import ClassForge.Proofs.ClassFile
import ClassForge.Proofs.Construction

/-!
# Built classes in written form

The pool and the methods keep their own limits, but nothing limits a text. A class with tables of a size
that can be written is therefore read back exactly if every text in its pool fits behind a length of
16 bits.
-/

namespace ClassForge

/-- The text of a constant fits behind a length of 16 bits. -/
def Constant.TextFits : Constant → Prop
  | utf8 text => (Text.ModifiedUtf8.encode text).length ≤ 65535
  | utf16 units => (Text.ModifiedUtf8.encodeUnits units).length ≤ 65535
  | _ => True

theorem Constant.representable_iff {c : Constant} : c.Representable ↔ c.TextFits ∧ c.Settled := by
  cases c with
  | utf16 units => exact Iff.rfl
  | utf8 text => exact (and_iff_left trivial).symm
  | _ => exact ⟨fun _ => ⟨trivial, trivial⟩, fun _ => trivial⟩

theorem Pool.Tidy.representable_iff {pool : Pool} (h : pool.Tidy) :
    pool.constants.Representable ↔ ∀ c ∈ pool.constants.elements, c.TextFits := by
  refine ⟨fun hr c hc => (Constant.representable_iff.1 (hr.constants c hc)).1, fun ht => ?_⟩
  exact ⟨h.start, h.sound.stop_le, fun c hc => Constant.representable_iff.2 ⟨ht c hc, h.settled hc⟩⟩

theorem Pool.Sound.exists_utf8_of_room {pool : Pool} (hs : pool.Sound) (hr : pool.size < 65535)
    (text : String) :
    ∃ i pool', Pool.utf8 text pool = (.ok i, pool') ∧ pool'.Sound ∧ pool'.size ≤ pool.size + 1 := by
  rcases hx : Pool.intern (.utf8 text) pool with ⟨r, pool'⟩
  have hi := hs.interned_of_eq hx
  have hsound := hi.sound hs
  have hutf8 : ∀ i, r = .ok i → Pool.utf8 text pool = (.ok ⟨i.val⟩, pool') := by
    rintro i rfl
    exact Interning.bind_eq_ok.2 ⟨i, pool', hx, Interning.pure_eq_ok.2 ⟨rfl, rfl⟩⟩
  cases hi with
  | @found i _ => exact ⟨_, _, hutf8 i rfl, hsound, Nat.le_succ _⟩
  | @added _ i _ _ _ hcs _ =>
      refine ⟨_, _, hutf8 i rfl, hsound, ?_⟩
      rw [Pool.size, hcs, Slots.stop_push]
      exact Nat.le_refl _
  | full _ hw => exact absurd hw (Nat.not_lt.2 hr)

theorem Text.ModifiedUtf8.length_encode_replicate (n : Nat) :
    (encode (String.ofList (List.replicate n 'a'))).length = n := by
  rw [encode, String.toList_ofList]
  induction n with
  | zero => rfl
  | succ n ih =>
      rw [List.replicate_succ, List.flatMap_cons, List.length_append, ih]
      exact Nat.add_comm 1 n

namespace ClassDraft

variable {p : Plan} {d : ClassDraft} {pool : Pool}

/-- The tables of the class fit behind lengths of 16 bits, and the bodies of its attributes behind
lengths of 32 bits. -/
structure WithinLimits (d : ClassDraft) : Prop where
  interfaces : d.interfaces.length ≤ 65535
  fields : d.fields.length ≤ 65535
  methods : d.methods.length ≤ 65535 ∧ ∀ m ∈ d.methods, Attribute.ListRepresentable m.attributes
  attributes : Attribute.ListRepresentable d.attributes

theorem representable_result_iff (h : ∀ f ∈ d.fields, f.attributes = []) :
    (d.result pool).Representable ↔ d.WithinLimits ∧ pool.constants.Representable := by
  have hfields : ∀ f ∈ d.fields, f.Representable := by
    intro f hf
    rw [Member.Representable, h f hf]
    exact ⟨Nat.zero_le _, by simp⟩
  constructor
  · intro hr
    obtain ⟨hc, hi, ⟨hf, -⟩, hm, ha⟩ := hr
    simp only [result, List.length_reverse, List.mem_reverse, Attribute.ListRepresentable] at hf hm ha
    exact ⟨⟨hi, hf, hm, ha⟩, hc⟩
  · intro hl
    obtain ⟨⟨hi, hf, hm, ha⟩, hc⟩ := hl
    refine ⟨hc, hi, ?_, ?_, ?_⟩
    all_goals simp only [result, List.length_reverse, List.mem_reverse, Attribute.ListRepresentable]
    · exact ⟨hf, hfields⟩
    · exact hm
    · exact ha

/-- A built class is read back from its written form exactly if its tables and bodies are within limits
and every text of its pool fits; a longer text is accepted by every call, and lost. -/
theorem parse_write_result_iff (h : Built p d pool) :
    ClassFile.parse (d.result pool).write = .ok (d.result pool) ↔
      d.WithinLimits ∧ ∀ c ∈ pool.constants.elements, c.TextFits := by
  have hf := h.followed
  rw [ClassFile.parse_eq_ok_iff, representable_result_iff hf.bare, hf.tidy.representable_iff]
  exact ⟨fun hr => hr.1.2, fun hr => ⟨⟨hf.tidy.sound.pushed, hr⟩, rfl⟩⟩

/-- A class without members; its two names and their constants are in the pool. -/
def plain : ClassDraft := ⟨.java8, ⟨0x21⟩, ⟨2⟩, ⟨4⟩, [], [], [], []⟩

def plainConstants : List Constant := [.utf8 "A", .classInfo ⟨1⟩, .utf8 "B", .classInfo ⟨3⟩]

theorem start_plain : start ⟨0x21⟩ "A" "B" [] .empty = (.ok plain, .holding plainConstants) := by
  simp [plain, start, Pool.classNamed, Pool.classInfo, Pool.holding, plainConstants, Pool.utf8,
    Pool.internAs_mk, Pool.empty_eq, Constant.width, bind_apply, Interning.map_apply, Except.map]

theorem withinLimits_plain (f : Field) : WithinLimits { plain with fields := [f] } := by
  constructor <;> simp [plain, Attribute.ListRepresentable]

theorem parse_write_result_iff_plain :
    ∃ d pool, Built ⟨.java8, ⟨0x21⟩, "A", "B", [], [⟨⟨2⟩, "x", "I", []⟩], [], [], [], []⟩ d pool ∧
      ClassFile.parse (d.result pool).write = .ok (d.result pool) := by
  have hd : (FieldType.parse "I").isOk = true := rfl
  have hx : plain.addField ⟨2⟩ "x" "I" (.holding plainConstants) =
      (.ok { plain with fields := [⟨⟨2⟩, ⟨5⟩, ⟨6⟩, []⟩] },
        .holding (plainConstants ++ [.utf8 "x", .utf8 "I"])) := by
    simp [plain, addField, hd, Pool.holding, plainConstants, Pool.utf8, Pool.internAs_mk, Pool.empty_eq,
      Constant.width, bind_apply, Interning.map_apply, Except.map]
  have he : (Pool.holding (plainConstants ++ [.utf8 "x", .utf8 "I"])).constants.elements =
      plainConstants ++ [.utf8 "x", .utf8 "I"] := by
    simp [Pool.holding, plainConstants, Pool.internAs_mk, Pool.empty_eq, Constant.width, Slots.elements,
      Slots.toList]
  have h := (Built.start start_plain).call_of_apply (.field ⟨2⟩ "x" "I") hx
  refine ⟨_, _, h, (parse_write_result_iff h).2 ⟨withinLimits_plain _, ?_⟩⟩
  rw [he]
  simp [plainConstants, Constant.TextFits, Text.ModifiedUtf8.encode, Text.ModifiedUtf8.encodeChar]

/-! ## Long names -/

/-- While there is room for its texts, a field is accepted whatever its name. -/
theorem exists_addField_of_room (hs : pool.Sound) (hr : pool.size + 1 < 65535) (d : ClassDraft)
    (flags : Flags .ofField) (name : String) {descriptor : String}
    (hd : (FieldType.parse descriptor).isOk) :
    ∃ i j pool', d.addField flags name descriptor pool =
      (.ok { d with fields := ⟨flags, i, j, []⟩ :: d.fields }, pool') := by
  obtain ⟨i, pool₁, hi, hs₁, hsize⟩ := hs.exists_utf8_of_room (Nat.lt_of_succ_lt hr) name
  obtain ⟨j, pool₂, hj, -, -⟩ := hs₁.exists_utf8_of_room (Nat.lt_of_le_of_lt hsize hr) descriptor
  refine ⟨i, j, pool₂, ?_⟩
  rw [addField, if_pos hd]
  exact Interning.bind_eq_ok.2 ⟨i, pool₁, hi, Interning.bind_eq_ok.2 ⟨j, pool₂, hj,
    Interning.pure_eq_ok.2 ⟨rfl, rfl⟩⟩⟩

/-- A field with a long name is accepted like any other, and the class is not read back. -/
theorem exists_field_parse_ne (h : Built p d pool) (hr : pool.size + 1 < 65535) (flags : Flags .ofField)
    (name descriptor : String) (hn : 65535 < (Text.ModifiedUtf8.encode name).length)
    (hd : (FieldType.parse descriptor).isOk) :
    ∃ i j pool', Built (p.record (.field flags name descriptor))
        { d with fields := ⟨flags, i, j, []⟩ :: d.fields } pool' ∧
      ClassFile.parse (result { d with fields := ⟨flags, i, j, []⟩ :: d.fields } pool').write ≠
        .ok (result { d with fields := ⟨flags, i, j, []⟩ :: d.fields } pool') := by
  obtain ⟨i, j, pool', hx⟩ := exists_addField_of_room h.followed.tidy.sound hr d flags name hd
  have hrun := Call.mirrors (.field flags name descriptor) d pool
  rw [Call.apply, hx] at hrun
  refine ⟨i, j, pool', h.call _ hrun, fun hp => ?_⟩
  obtain ⟨-, -, hadds⟩ := Call.tidies_apply (.field flags name descriptor) d pool h.followed.tidy _ _ hx
  have hfits := (ClassFile.parse_eq_ok_iff.1 hp).1.2.constants.constants
  cases hadds _ rfl with
  | field hi _ => exact absurd (hfits _ hi.mem) (Nat.not_le.2 hn)

theorem parse_write_long :
    ∃ d pool, Built ⟨.java8, ⟨0x21⟩, "A", "B", [],
        [⟨⟨2⟩, String.ofList (List.replicate 65536 'a'), "I", []⟩], [], [], [], []⟩ d pool ∧
      d.WithinLimits ∧ ClassFile.parse (d.result pool).write ≠ .ok (d.result pool) := by
  have hroom : (Pool.holding plainConstants).size + 1 < 65535 := by
    simp [Pool.holding, plainConstants, Pool.internAs_mk, Pool.empty_eq, Constant.width, Pool.size]
  have hlong : 65535 < (Text.ModifiedUtf8.encode (String.ofList (List.replicate 65536 'a'))).length := by
    rw [Text.ModifiedUtf8.length_encode_replicate]
    decide
  obtain ⟨i, j, pool, hb, hp⟩ :=
    exists_field_parse_ne (.start start_plain) hroom ⟨2⟩ _ "I" hlong rfl
  exact ⟨_, pool, hb, withinLimits_plain _, hp⟩

end ClassDraft

end ClassForge
