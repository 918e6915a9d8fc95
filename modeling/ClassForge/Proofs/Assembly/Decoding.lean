import ClassForge.Proofs.AttributeBody
import ClassForge.Proofs.Assembly.Maxima
import Mathlib.Data.List.Perm.Subperm

/-!
# What a finished method decodes to

Numbers and lengths are written into fields of fixed sizes without a check. In a finished method they
all fit: the code has at most 65535 bytes and no more frames than bytes, and no list of a frame is longer
than the slots that the method declares. So the attribute of the method decodes to what was laid out.
The main result is `MethodDraft.decode_of_finish`.
-/

namespace ClassForge

theorem Slots.length_le_widths {α : Type} [Wide α] [Spacious α] (as : List α) :
    as.length ≤ widths as := by
  induction as with
  | nil => simp
  | cons a as ih =>
      have ha : 0 < Wide.width a := Spacious.width_pos a
      rw [List.length_cons, widths]
      omega

/-! ## Frames and code -/

/-- Control does not fall off the end of the code. -/
theorem Stretch.Closes.size_pos {s : Stretch} (h : s.Closes none) : 0 < s.size := by
  obtain ⟨ending, -, hx⟩ := h
  generalize hexit : s.exit = exit at hx
  cases hx with
  | fall hn | compareFall hn => cases hn
  | _ => simp [size, pieces, hexit, Piece.placeholder]

theorem Walk.Complete.offset?_lt_size {blocks : Array Block} {l : Listing} {id : BlockId} {n : Nat}
    (h : Walk.Complete blocks l) (ho : l.offset? id = some n) : n < l.size := by
  obtain ⟨l₁, s, l₂, rfl, -, rfl⟩ := h.exists_split ho
  have hlast : (s :: l₂).dropLast ++ [(s :: l₂).getLast (List.cons_ne_nil s l₂)] = s :: l₂ :=
    List.dropLast_append_getLast _
  have hlinked := h.linked
  rw [← hlast, ← List.append_assoc] at hlinked ⊢
  have hpos := (Listing.linked_snoc.1 hlinked).2.size_pos
  rw [Listing.size_append, Listing.size_append, Listing.size_singleton]
  omega

namespace StackMapTable

theorem map_snd_locatedFrom (before : Option Nat) (table : StackMapTable) :
    (table.locatedFrom before).map Prod.snd = table := by
  fun_induction locatedFrom before table <;> simp [*]

theorem exists_located {table : StackMapTable} {f : StackMapFrame} (h : f ∈ table) :
    ∃ n, (n, f) ∈ table.located := by
  rw [← map_snd_locatedFrom none table] at h
  obtain ⟨⟨n, _⟩, hn, rfl⟩ := List.mem_map.1 h
  exact ⟨n, hn⟩

/-- There is at most one frame for each byte of the code. -/
theorem Exact.length_le {blocks : Array Block} {o : BlockId → Option Nat} {l : Listing}
    {ops : List (Nat × Op)} {size : Nat} {table : StackMapTable}
    (h : table.Exact blocks o l ops size) (ho : ∀ id n, o id = some n → n < size) :
    table.length ≤ size := by
  have hnodup : table.offsets.Nodup := h.increasing.imp Nat.ne_of_lt
  have hsub : table.offsets ⊆ List.range size := by
    intro n hn
    obtain ⟨⟨_, f⟩, hf, rfl⟩ := List.mem_map.1 hn
    obtain ⟨t, -, ht⟩ := h.exists_target _ f hf
    exact List.mem_range.2 (ho t _ ht)
  calc table.length = table.offsets.length := by
        rw [offsets, List.length_map, ← List.length_map Prod.snd, located, map_snd_locatedFrom]
    _ ≤ (List.range size).length := (hnodup.subperm hsub).length_le
    _ = size := List.length_range

end StackMapTable

namespace MethodDraft

variable {m m' : MethodDraft} {pool pool' : Pool}

/-- Everything that is counted in the body fits into the field for its number. -/
structure Body.Fits (body : Body) : Prop where
  pos : 1 ≤ body.bytecode.length
  bytecode : body.bytecode.length ≤ 65535
  stack : body.maxima.stack ≤ 65535
  locals : body.maxima.locals ≤ 65535
  frames : body.frames.length ≤ 65535
  lists : ∀ f ∈ body.frames, f.ListsFit ∧ f.Canonical

theorem Body.Fits.of_body {body : Body} (hm : m.Reachable) (hb : m.body = .ok body)
    (hx : checkMaxima body.maxima = .ok ()) : body.Fits := by
  obtain ⟨l, ops, hw, ha, hlimit, -, -, hexact⟩ := body_exact hm hb
  obtain ⟨hstack, hlocals⟩ := checkMaxima_eq_ok hx
  have hsize : body.bytecode.length = l.size := ha.length_eq
  have hlt : ∀ id n, l.offset? id = some n → n < body.bytecode.length := by
    intro id n ho
    rw [hsize]
    exact hw.offset?_lt_size ho
  refine ⟨hlt _ _ hw.offset?_entry, hlimit, hstack, hlocals, (hexact.length_le hlt).trans hlimit,
    fun f hf => ?_⟩
  obtain ⟨n, hn⟩ := StackMapTable.exists_located hf
  obtain ⟨t, ht, ho⟩ := hexact.exists_target n f hn
  obtain ⟨b, hblock, hframe⟩ := hexact.frame n f hn t ht ho
  have hreach : Reaches m.blocks t := (hw.mem_iff t).1 (Listing.isSome_offset?.1 (by rw [ho]; rfl))
  -- the block starts with this frame, and the maxima of the method cover those of the block
  obtain ⟨frames, hh⟩ := (hm.history _ b hblock).2
  have hentry : b.entry.slots ∈ {s | ∃ f ∈ frames, f.slots = s} := ⟨_, hh.marked.entered, rfl⟩
  have hmaxima : b.maxima ∈ m.reachedMaxima := ⟨t, b, hreach, hblock, rfl⟩
  have hl : b.entry.locals.elements.length ≤ 65535 := by
    calc b.entry.locals.elements.length
        ≤ b.entry.slots.locals := Slots.length_le_widths _
      _ ≤ b.maxima.locals := hh.marked.greatest.locals_le hentry
      _ ≤ body.maxima.locals := (greatest_of_body hb).locals_le hmaxima
      _ ≤ 65535 := hlocals
  have hs : b.entry.stack.elements.length ≤ 65535 := by
    calc b.entry.stack.elements.length
        ≤ b.entry.slots.stack := Slots.length_le_widths _
      _ ≤ b.maxima.stack := hh.marked.greatest.stack_le hentry
      _ ≤ body.maxima.stack := (greatest_of_body hb).stack_le hmaxima
      _ ≤ 65535 := hstack
  rw [hframe]
  exact ⟨⟨hl, hs⟩, _, _, .full hl hs⟩

/-! ## The attribute -/

theorem decode_frames {body : Body} (hf : body.Fits) {info : List UInt8}
    (hw : body.frames.write = .ok info) (name : Index .utf8) :
    (⟨name, info⟩ : Attribute).decode StackMapTable.format = .ok body.frames := by
  have hc : ∀ f ∈ body.frames, f.Canonical := fun f h => (hf.lists f h).2
  rw [StackMapTable.write_eq hc] at hw
  cases hw
  exact (Attribute.decode_eq_ok StackMapTable.read_accepts).2 ⟨⟨hf.frames, hc⟩, rfl⟩

theorem nameIn_of_utf8 {text : String} {name : Index .utf8} {later : Pool} (hs : pool.Sound)
    (h : Pool.utf8 text pool = (.ok name, pool')) (hg : pool'.Grows later) (info : List UInt8) :
    (⟨name, info⟩ : Attribute).nameIn later.constants = some text :=
  (hg.added.holds (Pool.internAs_eq_ok hs h).2).utf8? hg.sound

/-- The attribute of a finished method decodes to the code that was laid out, and so does the table of
its frames if it has one. -/
theorem decode_of_finish {start : Pool} {attributes : List Attribute} (ho : start.Origin)
    (hs : start.Served pool) (hm : m.Reachable) (h : m.finish pool = (.ok (attributes, m'), pool'))
    (hlength : ∀ body info, m.body = .ok body → body.frames.write = .ok info → info.length < 2 ^ 32) :
    ∃ (body : Body) (a : Attribute) (code : Code), m.body = .ok body ∧ attributes = [a] ∧
      a.nameIn pool'.constants = some "Code" ∧ a.decode Code.format = .ok code ∧
      code.bytecode = body.bytecode ∧ 1 ≤ code.bytecode.length ∧ code.bytecode.length ≤ 65535 ∧
      code.maxStack.toNat = body.maxima.stack ∧ code.maxLocals.toNat = body.maxima.locals ∧
      code.handlers = [] ∧
      (code.attributes = [] ∧ body.frames = [] ∨
        ∃ t, code.attributes = [t] ∧ t.nameIn pool'.constants = some "StackMapTable" ∧
          t.decode StackMapTable.format = .ok body.frames) ∧
      body.frames.length ≤ 65535 ∧ ∀ f ∈ body.frames, f.ListsFit := by
  have hsound := (hs.grows ho.sound).sound
  obtain ⟨-, body, table, pool₁, name, hb, ht, hx, hn, rfl, -⟩ := finish_eq_ok.1 h
  have hf := Body.Fits.of_body hm hb hx
  have hg₁ := (interns_tableAttributes body.frames).grows hsound
  rw [ht] at hg₁
  have hg := (Pool.internAs_eq_ok hg₁.sound hn).1
  have htable : Attribute.ListRepresentable table ∧ (table = [] ∧ body.frames = [] ∨
      ∃ t, table = [t] ∧ t.nameIn pool'.constants = some "StackMapTable" ∧
        t.decode StackMapTable.format = .ok body.frames) := by
    rcases tableAttributes_eq_ok.1 ht with ⟨hnil, rfl, -⟩ | ⟨-, tableName, info, htn, hw, rfl⟩
    · exact ⟨by simp [Attribute.ListRepresentable], Or.inl ⟨rfl, hnil⟩⟩
    · have hr : Attribute.ListRepresentable [⟨tableName, info⟩] := by
        simpa [Attribute.ListRepresentable, Attribute.Representable] using hlength body info hb hw
      exact ⟨hr, Or.inr ⟨_, rfl, nameIn_of_utf8 hsound htn hg info, decode_frames hf hw tableName⟩⟩
  have hcode : (body.toCode table).Representable :=
    ⟨Nat.lt_of_le_of_lt hf.bytecode (by decide), Nat.zero_le _, htable.1⟩
  exact ⟨body, _, body.toCode table, hb, rfl, nameIn_of_utf8 hg₁.sound hn hg.sound.grows _,
    (Attribute.decode_eq_ok Code.read_accepts).2 ⟨hcode, rfl⟩, rfl, hf.pos, hf.bytecode,
    toNat_ofNat_u16 hf.stack, toNat_ofNat_u16 hf.locals, rfl, htable.2, hf.frames,
    fun f h => (hf.lists f h).1⟩

theorem length_of_write_spin {body : Body} {info : List UInt8} (hb : spin.body = .ok body)
    (hw : body.frames.write = .ok info) : info.length < 2 ^ 32 := by
  rw [body_spin] at hb
  cases hb
  cases hw
  decide

theorem decode_of_finish_spin :
    Pool.empty.Origin ∧ Pool.empty.Served .empty ∧ spin.Reachable ∧
    spin.finish .empty =
      (.ok (spinAttributes, { spin with finished := true }), (spin.finish .empty).2) ∧
    ∃ a code t, spinAttributes = [a] ∧ a.decode Code.format = .ok code ∧
      code.bytecode = spinBody.bytecode ∧ code.maxStack.toNat = 2 ∧ code.maxLocals.toNat = 0 ∧
      code.attributes = [t] ∧ t.decode StackMapTable.format = .ok spinBody.frames := by
  refine ⟨.empty, .refl, spin_reachable, finish_spin, ?_⟩
  obtain ⟨body, a, code, hb, ha, -, hd, hcode, -, -, hs, hl, -, htable, -⟩ :=
    decode_of_finish .empty .refl spin_reachable finish_spin fun _ _ hb hw => length_of_write_spin hb hw
  rw [body_spin] at hb
  cases hb
  rcases htable with ⟨-, hnil⟩ | ⟨t, ht, -, hframes⟩
  · cases hnil
  · exact ⟨a, code, t, ha, hd, hcode, hs, hl, ht, hframes⟩

end MethodDraft

end ClassForge
