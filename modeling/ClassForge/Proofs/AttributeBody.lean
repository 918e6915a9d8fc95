import ClassForge.Proofs.ClassFile

/-!
# Bodies of attributes

The bodies of known attributes are read back from what they are written as. A stack map frame can be
written in more than one form; reading keeps the form, so that what was read is written as it was. The
main result is `Attribute.bodies_read_back`.
-/

namespace ClassForge

open Reader

variable {c c' : Cursor}

/-! ## Verification types -/

namespace VType

theorem of_readBody_eq_ok {offset : Nat} {tag : UInt8} {t : VType} :
    readBody offset tag c = .ok (t, c') → tag = t.tag ∧ c.Past t.writeBody c' := by
  fun_cases readBody offset tag with
  | case1 ht | case2 ht | case3 ht | case4 ht | case5 ht | case6 ht | case7 ht =>
      intro h
      obtain ⟨rfl, rfl⟩ := pure_eq_ok.1 h
      exact ⟨UInt8.toNat_inj.1 ht, Cursor.Past.nil_iff.2 rfl⟩
  | case8 ht | case9 ht =>
      intro h
      simp only [bind_eq_ok, pure_eq_ok, Index.read_eq_ok, u16_eq_ok] at h
      obtain ⟨a, d, hd, rfl, rfl⟩ := h
      exact ⟨UInt8.toNat_inj.1 ht, hd⟩
  | case10 => exact fun h => absurd h failAt_ne_ok

theorem readBody_tag {t : VType} (offset : Nat) (h : c.Past t.writeBody c') :
    readBody offset t.tag c = .ok (t, c') := by
  cases t with
  | object i => exact bind_eq_ok.2 ⟨i, c', Index.read_eq_ok.2 h, rfl⟩
  | uninitialized n => exact bind_eq_ok.2 ⟨n, c', u16_eq_ok.2 h, rfl⟩
  | _ => exact pure_eq_ok.2 ⟨rfl, Cursor.Past.nil_iff.1 h⟩

theorem read_accepts : Accepts VType.read VType.write fun _ => True := by
  intro c t c'
  simp only [VType.read, VType.write, bind_eq_ok, position_eq_ok, u8_eq_ok, Cursor.Past.append_iff,
    true_and]
  constructor
  · rintro ⟨_, _, ⟨rfl, rfl⟩, tag, d, hd, h⟩
    obtain ⟨rfl, hp⟩ := of_readBody_eq_ok h
    exact ⟨d, hd, hp⟩
  · rintro ⟨d, hd, hp⟩
    exact ⟨_, _, ⟨rfl, rfl⟩, t.tag, d, hd, readBody_tag _ hp⟩

end VType

/-! ## Stack map frames -/

namespace StackMapFrame

/-- The forms of frames: the tag and what stands behind it. -/
inductive Form : StackMapFrame → UInt8 → List UInt8 → Prop
  | same {d : UInt16} {tag : UInt8} : d.toNat ≤ 63 → tag.toNat = d.toNat → Form (same d false) tag []
  | sameOneStack {d : UInt16} {t : VType} {tag : UInt8} : d.toNat ≤ 63 → tag.toNat = d.toNat + 64 →
      Form (sameOneStack d t false) tag t.write
  | sameOneStackExtended (d : UInt16) (t : VType) :
      Form (sameOneStack d t true) 247 (Bytes.u16 d ++ t.write)
  | chop {d : UInt16} {count tag : UInt8} : 1 ≤ count.toNat → count.toNat ≤ 3 →
      tag.toNat + count.toNat = 251 → Form (chop d count) tag (Bytes.u16 d)
  | sameExtended (d : UInt16) : Form (same d true) 251 (Bytes.u16 d)
  | append {d : UInt16} {locals : List VType} {tag : UInt8} : 1 ≤ locals.length →
      locals.length ≤ 3 → tag.toNat = 251 + locals.length →
      Form (append d locals) tag (Bytes.u16 d ++ locals.flatMap VType.write)
  | full {d : UInt16} {locals stack : List VType} : locals.length ≤ 65535 → stack.length ≤ 65535 →
      Form (full d locals stack) 255
        (Bytes.u16 d ++ (Bytes.counted VType.write locals ++ Bytes.counted VType.write stack))

theorem Form.write_eq {f : StackMapFrame} {tag : UInt8} {body : List UInt8} (h : Form f tag body) :
    f.write = .ok (Bytes.u8 tag ++ body) := by
  have hbyte : ∀ n, tag.toNat = n → Bytes.bigEndian 1 n = Bytes.u8 tag := by
    rintro n rfl
    simp [Bytes.bigEndian, Bytes.u8]
  cases h with
  | same hd ht => simp [write, hd, hbyte _ ht]
  | sameOneStack hd ht => simp [write, hd, hbyte _ ht]
  | sameOneStackExtended d t => simp [write]
  | chop h₁ h₃ ht => simp [write, h₁, h₃, hbyte _ (Nat.eq_sub_of_add_eq ht)]
  | sameExtended d => simp [write]
  | append h₁ h₃ ht => simp [write, h₁, h₃, hbyte _ ht]
  | full _ _ => simp [write]

theorem Form.read_eq {f : StackMapFrame} {tag : UInt8} {body : List UInt8} (h : Form f tag body)
    (hp : c.Past (Bytes.u8 tag ++ body) c') : read c = .ok (f, c') := by
  obtain ⟨d, hd, hbody⟩ := Cursor.Past.append_iff.1 hp
  have hcounted := VType.read_accepts.counted
  simp only [read, readDelta, bind_eq_ok, position_eq_ok, u8_eq_ok]
  refine ⟨_, _, ⟨rfl, rfl⟩, tag, d, hd, ?_⟩
  cases h with
  | same hd ht =>
      rw [if_pos (by omega), ht]
      simpa [pure_eq_ok] using hbody
  | sameOneStack hd ht =>
      rw [if_neg (by omega), if_pos (by omega), ht]
      simpa [bind_eq_ok, map_eq_ok, VType.read_accepts _ _ _] using hbody
  | sameOneStackExtended d t =>
      simpa [bind_eq_ok, map_eq_ok, u16_eq_ok, VType.read_accepts _ _ _, Cursor.Past.append_iff] using hbody
  | chop h₁ h₃ ht =>
      rw [if_neg (by omega), if_neg (by omega), if_neg (by omega), if_neg (by omega), if_pos (by omega),
        ← ht, Nat.add_sub_cancel_left]
      simpa [bind_eq_ok, map_eq_ok, u16_eq_ok] using hbody
  | sameExtended d => simpa [bind_eq_ok, map_eq_ok, u16_eq_ok] using hbody
  | append h₁ h₃ ht =>
      rw [if_neg (by omega), if_neg (by omega), if_neg (by omega), if_neg (by omega), if_neg (by omega),
        if_neg (by omega), if_pos (by omega), ht, Nat.add_sub_cancel_left]
      simpa [bind_eq_ok, map_eq_ok, u16_eq_ok, VType.read_accepts.times_eq_ok,
        Cursor.Past.append_iff] using hbody
  | full hl hs =>
      simpa [bind_eq_ok, map_eq_ok, u16_eq_ok, hcounted _ _ _, Cursor.Past.append_iff, hl, hs] using hbody

theorem exists_form_of_read {f : StackMapFrame} (h : read c = .ok (f, c')) :
    ∃ tag body, Form f tag body ∧ c.Past (Bytes.u8 tag ++ body) c' := by
  have hcounted := VType.read_accepts.counted
  simp only [read, readDelta, bind_eq_ok, position_eq_ok, u8_eq_ok] at h
  obtain ⟨_, _, ⟨rfl, rfl⟩, tag, d, hd, h⟩ := h
  have hlt := tag.toNat_lt
  -- the tag has been read, so only what stands behind it is left
  suffices hform : ∃ body, Form f tag body ∧ d.Past body c' by
    obtain ⟨body, hf, hp⟩ := hform
    exact ⟨tag, body, hf, Cursor.Past.append_iff.2 ⟨d, hd, hp⟩⟩
  have htag : ∀ n : UInt8, tag.toNat = n.toNat → tag = n := fun n h => UInt8.toNat_inj.1 h
  split at h
  next hn =>
    obtain ⟨rfl, rfl⟩ := pure_eq_ok.1 h
    exact ⟨[], .same (by simpa using hn) (by simp), Cursor.Past.nil_iff.2 rfl⟩
  split at h
  next hn =>
    simp only [bind_eq_ok, pure_eq_ok, VType.read_accepts _ _ _, true_and] at h
    obtain ⟨t, e, ht, rfl, rfl⟩ := h
    have hdelta : (UInt16.ofNat (tag.toNat - 64)).toNat = tag.toNat - 64 := by simp; omega
    exact ⟨_, .sameOneStack (by omega) (by omega), ht⟩
  split at h
  next => exact absurd h failAt_ne_ok
  split at h
  next hn =>
    simp only [bind_eq_ok, pure_eq_ok, u16_eq_ok, VType.read_accepts _ _ _, true_and] at h
    obtain ⟨delta, d₁, h₁, t, d₂, h₂, rfl, rfl⟩ := h
    obtain rfl := htag 247 hn
    exact ⟨_, .sameOneStackExtended delta t, Cursor.Past.append_iff.2 ⟨d₁, h₁, h₂⟩⟩
  split at h
  next hn =>
    simp only [bind_eq_ok, pure_eq_ok, u16_eq_ok] at h
    obtain ⟨delta, d₁, h₁, rfl, rfl⟩ := h
    have hcount : (UInt8.ofNat (251 - tag.toNat)).toNat = 251 - tag.toNat := by simp; omega
    exact ⟨_, .chop (by omega) (by omega) (by omega), h₁⟩
  split at h
  next hn =>
    simp only [bind_eq_ok, pure_eq_ok, u16_eq_ok] at h
    obtain ⟨delta, d₁, h₁, rfl, rfl⟩ := h
    obtain rfl := htag 251 hn
    exact ⟨_, .sameExtended delta, h₁⟩
  split at h
  next hn =>
    simp only [bind_eq_ok, pure_eq_ok, u16_eq_ok, VType.read_accepts.times_eq_ok] at h
    obtain ⟨delta, d₁, h₁, locals, d₂, ⟨hl, -, h₂⟩, rfl, rfl⟩ := h
    exact ⟨_, .append (by omega) (by omega) (by omega), Cursor.Past.append_iff.2 ⟨d₁, h₁, h₂⟩⟩
  next =>
    simp only [bind_eq_ok, pure_eq_ok, u16_eq_ok, hcounted _ _ _] at h
    obtain ⟨delta, d₁, h₁, locals, d₂, ⟨hl, h₂⟩, stack, d₃, ⟨hs, h₃⟩, rfl, rfl⟩ := h
    obtain rfl := htag 255 (show tag.toNat = 255 by omega)
    exact ⟨_, .full hl.1 hs.1, Cursor.Past.append_iff.2 ⟨d₁, h₁, Cursor.Past.append_iff.2 ⟨d₂, h₂, h₃⟩⟩⟩

/-- The bytes of a frame that has a written form. -/
def written (f : StackMapFrame) : List UInt8 := f.write.toOption.getD []

theorem Form.written_eq {f : StackMapFrame} {tag : UInt8} {body : List UInt8} (h : Form f tag body) :
    f.written = Bytes.u8 tag ++ body := by
  simp [written, h.write_eq, Except.toOption]

/-- The frame says which form it is written in, so that it is read back as it is. -/
def Canonical (f : StackMapFrame) : Prop := ∃ tag body, Form f tag body

theorem Canonical.write_eq {f : StackMapFrame} (h : f.Canonical) : f.write = .ok f.written := by
  obtain ⟨tag, body, hf⟩ := h
  rw [hf.written_eq, hf.write_eq]

theorem read_accepts : Accepts read written Canonical := by
  intro c f c'
  constructor
  · intro h
    obtain ⟨tag, body, hf, hp⟩ := exists_form_of_read h
    exact ⟨⟨tag, body, hf⟩, by rwa [hf.written_eq]⟩
  · rintro ⟨⟨tag, body, hf⟩, hp⟩
    rw [hf.written_eq] at hp
    exact hf.read_eq hp

/-- The lists of the frame have at most 65535 members. -/
def ListsFit : StackMapFrame → Prop
  | append _ locals => locals.length ≤ 65535
  | full _ locals stack => locals.length ≤ 65535 ∧ stack.length ≤ 65535
  | _ => True

/-- A number of locals to drop or to add for which no form exists. -/
def Miscounted : StackMapFrame → Prop
  | chop _ count => ¬(1 ≤ count.toNat ∧ count.toNat ≤ 3)
  | append _ locals => ¬(1 ≤ locals.length ∧ locals.length ≤ 3)
  | _ => False

/-- A distance above 63 has only the extended form. -/
def asRead : StackMapFrame → StackMapFrame
  | same d extended => same d (extended || decide (63 < d.toNat))
  | sameOneStack d t extended => sameOneStack d t (extended || decide (63 < d.toNat))
  | f => f

theorem write_eq_error_iff (f : StackMapFrame) : (∃ e, f.write = .error e) ↔ f.Miscounted := by
  cases f with
  | same d extended | sameOneStack d t extended => simp only [write, Miscounted]; split <;> simp
  | chop d count => simp only [write, Miscounted]; split <;> simp [*]
  | append d locals => simp only [write, Miscounted]; split <;> simp [*]
  | full d locals stack => simp [write, Miscounted]

theorem write_asRead (f : StackMapFrame) : f.asRead.write = f.write := by
  cases f with
  | same d extended | sameOneStack d t extended =>
      by_cases h : d.toNat ≤ 63 <;> simp [asRead, write, h]
  | _ => rfl

theorem canonical_asRead {f : StackMapFrame} (hl : f.ListsFit) (hm : ¬f.Miscounted) :
    f.asRead.Canonical := by
  have hbyte : ∀ n, n < 256 → (UInt8.ofNat n).toNat = n := fun _ => UInt8.toNat_ofNat_of_lt'
  have hshort : ∀ (d : UInt16) (extended : Bool),
      d.toNat ≤ 63 ∧ (extended || decide (63 < d.toNat)) = false ∨
        (extended || decide (63 < d.toNat)) = true := by
    intro d extended
    cases extended <;> simp
    omega
  cases f with
  | same d extended =>
      rcases hshort d extended with ⟨hd, hx⟩ | hx <;> simp only [asRead, hx]
      · exact ⟨_, _, .same hd (hbyte _ (by omega))⟩
      · exact ⟨_, _, .sameExtended d⟩
  | sameOneStack d t extended =>
      rcases hshort d extended with ⟨hd, hx⟩ | hx <;> simp only [asRead, hx]
      · exact ⟨_, _, .sameOneStack hd (hbyte _ (by omega))⟩
      · exact ⟨_, _, .sameOneStackExtended d t⟩
  | chop d count =>
      obtain ⟨h₁, h₃⟩ := not_not.1 hm
      exact ⟨UInt8.ofNat (251 - count.toNat), _, .chop h₁ h₃ (by rw [hbyte] <;> omega)⟩
  | append d locals =>
      obtain ⟨h₁, h₃⟩ := not_not.1 hm
      exact ⟨_, _, .append h₁ h₃ (hbyte _ (by omega))⟩
  | full d locals stack => exact ⟨_, _, .full hl.1 hl.2⟩

end StackMapFrame

namespace StackMapTable

theorem write_eq {table : StackMapTable} (h : ∀ f ∈ table, f.Canonical) :
    table.write = .ok (Bytes.counted StackMapFrame.written table) := by
  have hframes : table.mapM StackMapFrame.write = .ok (table.map StackMapFrame.written) := by
    induction table with
    | nil => rfl
    | cons f table ih =>
        obtain ⟨hf, htable⟩ := List.forall_mem_cons.1 h
        rw [List.mapM_cons, hf.write_eq, ih htable]
        rfl
  rw [StackMapTable.write, hframes, Bytes.counted, List.flatMap_def]
  rfl

theorem read_accepts : Accepts StackMapTable.read (Bytes.counted StackMapFrame.written)
    fun table => table.length ≤ 65535 ∧ ∀ f ∈ table, f.Canonical :=
  StackMapFrame.read_accepts.counted

end StackMapTable

/-! ## Code -/

theorem ExceptionHandler.read_accepts : Accepts read write fun _ => True := by
  intro c h c'
  simp only [read, write, bind_eq_ok, pure_eq_ok, u16_eq_ok, Index.read_eq_ok,
    Cursor.Past.append_iff, true_and]
  constructor
  · rintro ⟨start, d₁, h₁, stop, d₂, h₂, handler, d₃, h₃, catchType, d₄, h₄, rfl, rfl⟩
    exact ⟨d₃, ⟨d₂, ⟨d₁, h₁, h₂⟩, h₃⟩, h₄⟩
  · rintro ⟨d₃, ⟨d₂, ⟨d₁, h₁, h₂⟩, h₃⟩, h₄⟩
    exact ⟨_, d₁, h₁, _, d₂, h₂, _, d₃, h₃, _, c', h₄, rfl, rfl⟩

namespace Code

theorem readBytecode_accepts :
    Accepts readBytecode Bytes.sized fun bytes => bytes.length < 2 ^ 32 := by
  intro c bytes c'
  simp only [readBytecode, Bytes.sized, bind_eq_ok, u32_eq_ok, bytes_eq_ok, Cursor.Past.append_iff]
  constructor
  · rintro ⟨n, d, hd, hl, hp⟩
    rw [hl]
    exact ⟨n.toNat_lt, d, hd, hp⟩
  · rintro ⟨hl, d, hd, hp⟩
    have hn : (UInt32.ofNat bytes.length).toNat = bytes.length := UInt32.toNat_ofNat_of_lt' hl
    exact ⟨UInt32.ofNat bytes.length, d, by rwa [Bytes.u32, hn], hn.symm, hp⟩

/-- Every part fits behind its number or its length. -/
structure Representable (code : Code) : Prop where
  bytecode : code.bytecode.length < 2 ^ 32
  handlers : code.handlers.length ≤ 65535
  attributes : Attribute.ListRepresentable code.attributes

theorem read_accepts : Accepts read write Representable := by
  intro c code c'
  have hhandlers := ExceptionHandler.read_accepts.counted
  simp only [read, write, bind_eq_ok, pure_eq_ok, u16_eq_ok, readBytecode_accepts _ _ _,
    hhandlers _ _ _, Attribute.readList_accepts _ _ _, Cursor.Past.append_iff]
  constructor
  · rintro ⟨maxStack, d₁, h₁, maxLocals, d₂, h₂, bytecode, d₃, ⟨hb, h₃⟩, handlers, d₄, ⟨hh, h₄⟩,
      attributes, d₅, ⟨ha, h₅⟩, rfl, rfl⟩
    exact ⟨⟨hb, hh.1, ha⟩, d₄, ⟨d₃, ⟨d₂, ⟨d₁, h₁, h₂⟩, h₃⟩, h₄⟩, h₅⟩
  · rintro ⟨hr, d₄, ⟨d₃, ⟨d₂, ⟨d₁, h₁, h₂⟩, h₃⟩, h₄⟩, h₅⟩
    exact ⟨_, d₁, h₁, _, d₂, h₂, _, d₃, ⟨hr.bytecode, h₃⟩, _, d₄,
      ⟨⟨hr.handlers, fun _ _ => trivial⟩, h₄⟩, _, c', ⟨hr.attributes, h₅⟩, rfl, rfl⟩

end Code

/-! ## Bodies -/

namespace Attribute

theorem decode_eq_ok {α : Type} {format : BodyFormat α} {write : α → List UInt8} {P : α → Prop}
    (hr : Accepts format.read write P) {a : Attribute} {v : α} :
    a.decode format = .ok v ↔ P v ∧ a.info = write v := by
  have hdecode : a.decode format = .ok v ↔
      ∃ c', format.read (Cursor.atStart a.info) = .ok (v, c') ∧ c'.rest = [] := by
    unfold decode
    cases hc : format.read (Cursor.atStart a.info) with
    | error e => simp
    | ok p => cases hd : p.2.rest <;> cases p <;> simp_all
  rw [hdecode]
  simp only [hr _ _ _]
  constructor
  · rintro ⟨c', ⟨hv, hp⟩, hrest⟩
    exact ⟨hv, by simpa [Cursor.atStart, hrest] using hp.rest⟩
  · rintro ⟨hv, hi⟩
    exact ⟨⟨(write v).length, []⟩,
      ⟨hv, by simp [Cursor.atStart, hi], by simp [Cursor.atStart]⟩, rfl⟩

/-- A body that decodes is what its content is written as. A frame with fitting lists has a written
form unless it drops or adds a number of locals other than one to three, and is then read back with
the form that it was written in. The written form of code decodes to the code. -/
theorem bodies_read_back :
    (∀ (a : Attribute) (code : Code), a.decode Code.format = .ok code →
      Code.format.write code = .ok a.info) ∧
    (∀ (a : Attribute) (table : StackMapTable), a.decode StackMapTable.format = .ok table →
      StackMapTable.format.write table = .ok a.info) ∧
    (∀ f : StackMapFrame, f.ListsFit →
      ((∃ e, f.write = .error e) ↔ f.Miscounted) ∧
      ∀ bytes, f.write = .ok bytes → StackMapFrame.read.run bytes = .ok f.asRead) ∧
    ∀ (code : Code) (name : Index .utf8), code.Representable →
      ∃ info, Code.format.write code = .ok info ∧
        (⟨name, info⟩ : Attribute).decode Code.format = .ok code := by
  refine ⟨fun a code h => ?_, fun a table h => ?_, fun f hl => ⟨f.write_eq_error_iff, ?_⟩, ?_⟩
  · obtain ⟨-, hi⟩ := (decode_eq_ok Code.read_accepts).1 h
    rw [hi, Code.format]
  · obtain ⟨⟨-, hc⟩, hi⟩ := (decode_eq_ok StackMapTable.read_accepts).1 h
    rw [hi]
    exact StackMapTable.write_eq hc
  · intro bytes hw
    have hm : ¬f.Miscounted := by simp [← f.write_eq_error_iff, hw]
    have hc := StackMapFrame.canonical_asRead hl hm
    have hb : bytes = f.asRead.written := by
      rw [← f.write_asRead, hc.write_eq] at hw
      exact (Except.ok.inj hw).symm
    exact StackMapFrame.read_accepts.run_eq_ok.2 ⟨hc, hb⟩
  · exact fun code name hr => ⟨_, rfl, (decode_eq_ok Code.read_accepts).2 ⟨hr, rfl⟩⟩

/-- The first frame has the extended form without need. -/
theorem bodies_read_back_samples :
    let a : Attribute := ⟨⟨1⟩, [0, 3, 251, 0, 5, 249, 0, 1, 253, 0, 2, 1, 4]⟩
    let table : StackMapTable := [.same 5 true, .chop 1 2, .append 2 [.integer, .long]]
    let far : StackMapFrame := .sameOneStack 64 (.object ⟨7⟩) false
    let code : Code := ⟨1, 2, [4, 172], [⟨0, 1, 1, ⟨0⟩⟩], [a]⟩
    (a.decode StackMapTable.format = .ok table ∧
      StackMapTable.format.write table = .ok a.info) ∧
    (far.ListsFit ∧ far.write = .ok [247, 0, 64, 7, 0, 7] ∧
      StackMapFrame.read.run [247, 0, 64, 7, 0, 7] = .ok (.sameOneStack 64 (.object ⟨7⟩) true)) ∧
    (∃ e, (StackMapFrame.chop 1 4).write = .error e) ∧
    code.Representable ∧ (⟨⟨2⟩, code.write⟩ : Attribute).decode Code.format = .ok code ∧
      Code.format.write code = .ok code.write := by
  intro a table far code
  obtain ⟨hcode, htable, hframe, hread⟩ := bodies_read_back
  have ha : a.decode StackMapTable.format = .ok table := by decide +kernel
  have hr : code.Representable :=
    ⟨by decide, by decide, by simp [code, ListRepresentable, Representable, a]⟩
  have hd : (⟨⟨2⟩, code.write⟩ : Attribute).decode Code.format = .ok code := by
    obtain ⟨info, hw, hd⟩ := hread code ⟨2⟩ hr
    cases hw
    exact hd
  exact ⟨⟨ha, htable a table ha⟩, ⟨trivial, rfl, (hframe far trivial).2 _ rfl⟩,
    (hframe (.chop 1 4) trivial).1.2 (by simp [StackMapFrame.Miscounted]), hr, hd, hcode _ _ hd⟩

end Attribute

end ClassForge
