import ClassForge.Proofs.Assembly.Draft
import ClassForge.Proofs.Assembly.Emission

/-!
# The layout of a method

The code of a finished method, read as bytes: every reachable block has one place, its instructions
stand there unchanged, and behind them stands what its ending says. The main result is
`MethodDraft.finish_arranges`.
-/

namespace ClassForge

/-! ## What stands at an offset -/

def BytesAt (code : List UInt8) (n : Nat) (bytes : List UInt8) : Prop := bytes <+: code.drop n

namespace BytesAt

variable {code as bs : List UInt8} {n : Nat}

theorem left (h : BytesAt code n (as ++ bs)) : BytesAt code n as := (List.prefix_append as bs).trans h

theorem right (h : BytesAt code n (as ++ bs)) : BytesAt code (n + as.length) bs := by
  obtain ⟨rest, hr⟩ := h
  rw [BytesAt, ← List.drop_drop, ← hr, List.append_assoc, List.drop_left]
  exact List.prefix_append bs rest

end BytesAt

def JumpAt (o : BlockId → Option Nat) (code : List UInt8) (opcode : UInt8) (origin : Nat)
    (target : BlockId) : Prop :=
  ∃ bytes, JumpTo o opcode origin target bytes ∧ BytesAt code origin bytes

/-- The code at offset `e` leaves a block as its ending says; `next` is the block that is laid down
behind. -/
inductive Ending.StandsAt (o : BlockId → Option Nat) (code : List UInt8) (next : Option BlockId)
    (e : Nat) : Ending → Prop
  | ret {opcode : UInt8} : BytesAt code e [opcode] → StandsAt o code next e (.ret opcode)
  | fall {t : BlockId} : next = some t → o t = some e → StandsAt o code next e (.jump t)
  | goto {t : BlockId} : JumpAt o code 0xa7 e t → StandsAt o code next e (.jump t)
  | compareFall {t f : BlockId} : JumpAt o code 0xa3 e f → next = some t → o t = some (e + 3) →
      StandsAt o code next e (.branch .le t f)
  | compareGoto {t f : BlockId} : JumpAt o code 0xa3 e f → JumpAt o code 0xa7 (e + 3) t →
      StandsAt o code next e (.branch .le t f)

/-- The listing holds the reachable blocks, each with the exit that its ending and the block behind it call
for. Its pieces are the whole code, and every block stands where `o` says. -/
structure Layout.Arranges (blocks : Array Block) (o : BlockId → Option Nat) (l : Listing)
    (code : List UInt8) : Prop where
  isSome_iff : ∀ id, (o id).isSome ↔ Reaches blocks id
  entry : o .entry = some 0
  nodup : l.ids.Nodup
  mem_iff : ∀ id, id ∈ l.ids ↔ Reaches blocks id
  linked : Listing.Linked none l
  /-- A block stands behind all that is listed before it. -/
  offset_eq : o = l.offset?
  /-- The bodies and what stands behind them tile the code. -/
  tiles : Assembles o 0 l.pieces code
  block : ∀ s ∈ l, blocks[s.id.index]? = some s.block
  stands : ∀ l₁ s l₂, l = l₁ ++ s :: l₂ → ∃ n ending, o s.id = some n ∧
    BytesAt code n s.block.code ∧ s.block.ending = some ending ∧
    ending.StandsAt o code (l₂.head?.map Stretch.id) (n + s.block.code.length)

theorem Listing.Linked.closes {l₁ l₂ : Listing} {s : Stretch}
    (h : Listing.Linked none (l₁ ++ s :: l₂)) : s.Closes (l₂.head?.map Stretch.id) := by
  induction l₁ with
  | nil =>
      have hs := h.1
      rwa [Option.or_none] at hs
  | cons r l₁ ih => exact ih h.2

theorem Leaves.standsAt {o : BlockId → Option Nat} {next : Option BlockId} {ending : Ending}
    {exit : List Piece} {e : Nat} {bytes code : List UInt8} (h : Leaves next ending exit)
    (ha : Assembles o e exit bytes) (hc : BytesAt code e bytes)
    (hn : ∀ t, next = some t → o t = some (e + bytes.length)) :
    ending.StandsAt o code next e := by
  cases h with
  | ret opcode =>
      obtain _ | ⟨_ | _, _ | _⟩ := ha
      exact .ret hc
  | fall ht =>
      obtain _ | _ := ha
      exact .fall ht (hn _ ht)
  | goto t =>
      obtain _ | ⟨_ | _ | hj, _ | _⟩ := ha
      rw [List.append_nil] at hc
      exact .goto ⟨_, hj, hc⟩
  | compareFall ht =>
      obtain _ | ⟨_ | _ | _ | hj, _ | _⟩ := ha
      rw [List.append_nil] at hc hn
      refine .compareFall ⟨_, hj, hc⟩ ht ?_
      rw [← hj.length_eq]
      exact hn _ ht
  | compareGoto t f =>
      obtain _ | ⟨_ | _ | _ | hj, _ | ⟨_ | _ | hg, _ | _⟩⟩ := ha
      rw [List.append_nil] at hc
      rw [hj.length_eq] at hg
      have hr := hc.right
      rw [hj.length_eq] at hr
      exact .compareGoto ⟨_, hj, hc.left⟩ ⟨_, hg, hr⟩

namespace Walk.Complete

variable {blocks : Array Block} {l : Listing} {code : List UInt8}

theorem offset?_split {l₁ l₂ : Listing} {s : Stretch} (h : Complete blocks l)
    (hl : l = l₁ ++ s :: l₂) : l.offset? s.id = some l₁.size := by
  have hd := h.proper.nodup
  rw [hl, Listing.ids_append, List.nodup_append] at hd
  rw [hl]
  exact Listing.offset?_of_split fun hs => hd.2.2 _ hs _ List.mem_cons_self rfl

theorem exists_split {id : BlockId} {n : Nat} (h : Complete blocks l) (ho : l.offset? id = some n) :
    ∃ (l₁ : Listing) (s : Stretch) (l₂ : Listing), l = l₁ ++ s :: l₂ ∧ s.id = id ∧ l₁.size = n := by
  have hid : id ∈ l.ids := Listing.isSome_offset?.1 (by rw [ho]; rfl)
  obtain ⟨s, hs, rfl⟩ := List.mem_map.1 hid
  obtain ⟨l₁, l₂, hl⟩ := List.append_of_mem hs
  rw [h.offset?_split hl] at ho
  exact ⟨l₁, s, l₂, hl, rfl, Option.some.inj ho⟩

theorem offset?_entry (h : Complete blocks l) : l.offset? .entry = some 0 := by
  cases l with
  | nil => cases h.entry
  | cons s l =>
      have hs : s.id = .entry := by simpa using h.entry
      simp [Listing.offset?, Listing.offsetFrom, hs]

/-- Each block stands at its offset, and what its ending asks for stands behind it. -/
theorem stands {l₁ l₂ : Listing} {s : Stretch} (h : Complete blocks l)
    (ha : Assembles l.offset? 0 l.pieces code) (hl : l = l₁ ++ s :: l₂) :
    ∃ n ending, l.offset? s.id = some n ∧ BytesAt code n s.block.code ∧
      s.block.ending = some ending ∧
      ending.StandsAt l.offset? code (l₂.head?.map Stretch.id) (n + s.block.code.length) := by
  obtain ⟨ending, he, hx⟩ := (hl ▸ h.linked).closes
  -- cut the code before and behind the stretch
  have hp : l.pieces = Listing.pieces l₁ ++ (s.pieces ++ Listing.pieces l₂) := by
    rw [hl, Listing.pieces_append]
    rfl
  rw [hp] at ha
  obtain ⟨before, rest, hcode, hb, ha⟩ := Assembles.append_iff.1 ha
  obtain ⟨mid, after, hrest, hm, -⟩ := Assembles.append_iff.1 ha
  have hn : before.length = Listing.size l₁ := hb.length_eq
  have hmid : BytesAt code before.length mid := by
    rw [BytesAt, hcode, hrest, List.drop_left]
    exact List.prefix_append _ _
  have hs : mid.length = s.size := hm.length_eq
  cases hm with
  | cons hbody hexit =>
      cases hbody
      rw [Nat.zero_add] at hexit
      refine ⟨before.length, ending, by rw [hn]; exact h.offset?_split hl, hmid.left, he,
        hx.standsAt hexit hmid.right ?_⟩
      -- the block behind the stretch stands where the stretch ends
      intro t ht
      cases l₂ with
      | nil => cases ht
      | cons r l₂ =>
          obtain rfl : r.id = t := by simpa using ht
          have hl' : l = (l₁ ++ [s]) ++ r :: l₂ := by rw [hl, List.append_assoc]; rfl
          rw [h.offset?_split hl', Listing.size_append, Listing.size_singleton, ← hn, Nat.add_assoc,
            ← List.length_append, hs]

theorem arranges (h : Complete blocks l) (ha : Assembles l.offset? 0 l.pieces code) :
    Layout.Arranges blocks l.offset? l code where
  isSome_iff id := Listing.isSome_offset?.trans (h.mem_iff id)
  entry := h.offset?_entry
  nodup := h.proper.nodup
  mem_iff := h.mem_iff
  linked := h.linked
  offset_eq := rfl
  tiles := ha
  block := h.proper.block
  stands _ _ _ := h.stands ha

end Walk.Complete

/-! ## Finished methods -/

namespace MethodDraft

variable {m m' : MethodDraft} {pool pool' : Pool}

theorem layout_eq_ok {placement : Placement} {e : Emission} (h : m.layout = .ok (placement, e)) :
    ∃ l, Walk.Complete m.blocks l ∧ e.Holds m.blocks l placement := by
  have hh : Emission.empty.Holds m.blocks [] (Array.replicate m.blocks.size none) := by
    refine ⟨Array.size_replicate, fun id => ?_, ⟨rfl, .nil, rfl, rfl⟩, Nat.zero_le _⟩
    rw [Placement.offset?_replicate]
    rfl
  obtain ⟨l, hw, hl⟩ := Layout.run_walk hh h
  exact ⟨l, hw.complete, hl⟩

theorem body_eq_ok {body : Body} (h : m.body = .ok body) :
    ∃ (placement : Placement) (e : Emission) (l : Listing),
      Walk.Complete m.blocks l ∧ e.Holds m.blocks l placement ∧
      Assembles l.offset? 0 l.pieces body.bytecode ∧
      (∃ xs, m.jumpTargets placement e.targets = .ok xs ∧ framesFrom none xs = .ok body.frames) ∧
      body.maxima = e.maxima := by
  unfold MethodDraft.body at h
  obtain ⟨⟨placement, e⟩, hl, h⟩ := except_bind_eq_ok.1 h
  obtain ⟨code, hc, h⟩ := except_bind_eq_ok.1 h
  obtain ⟨xs, hx, h⟩ := except_bind_eq_ok.1 h
  obtain ⟨frames, hf, h⟩ := except_bind_eq_ok.1 h
  cases h
  obtain ⟨l, hw, hh⟩ := layout_eq_ok hl
  have hcode : e.code.toList = [] ++ l.pieces.flatMap Piece.placeholder := hh.renders.code
  obtain ⟨done, ha, hd⟩ := Patch.assembles_of_foldlM hh.offset hcode hh.renders.patches hc
  rw [hd]
  exact ⟨placement, e, l, hw, hh, ha, ⟨xs, hx, hf⟩, rfl⟩

theorem jumpTargets_of_sorted {placement : Placement} {targets : List BlockId}
    {found : List (Option (Nat × Frame))}
    (hf : ((m.blocks.toList.zip placement.toList).mapM fun x =>
      jumpTarget? (marksOf m.blocks.size targets) x.1 x.2) = .ok found)
    (hs : (found.filterMap id).Pairwise fun x y => x.1 ≤ y.1) :
    m.jumpTargets placement targets = .ok (found.filterMap id) := by
  rw [jumpTargets, hf]
  refine congrArg Except.ok (List.mergeSort_of_pairwise (hs.imp fun h => ?_))
  exact decide_eq_true h

theorem body_of_layout {placement : Placement} {e : Emission} {code : Array UInt8}
    {xs : List (Nat × Frame)} {frames : StackMapTable} (hl : m.layout = .ok (placement, e))
    (hc : e.patches.reverse.foldlM (fun code p => p.apply placement code) e.code = .ok code)
    (hx : m.jumpTargets placement e.targets = .ok xs) (hf : framesFrom none xs = .ok frames) :
    m.body = .ok ⟨code.toList, frames, e.maxima⟩ :=
  except_bind_eq_ok.2 ⟨_, hl, except_bind_eq_ok.2 ⟨_, hc, except_bind_eq_ok.2 ⟨_, hx,
    except_bind_eq_ok.2 ⟨_, hf, rfl⟩⟩⟩⟩

/-- On an empty pool the name of the table comes first and the name of the code second. -/
theorem finish_empty_of_body {body : Body} {info : List UInt8} (ho : m.finished = false)
    (hb : m.body = .ok body) (hx : checkMaxima body.maxima = .ok ()) (hf : body.frames ≠ [])
    (hw : body.frames.write = .ok info) :
    (m.finish .empty).1 =
      .ok ([⟨⟨2⟩, (body.toCode [⟨⟨1⟩, info⟩]).write⟩], { m with finished := true }) := by
  simp [finish, ho, hb, hx, tableAttributes, hf, Pool.attributeFor, StackMapTable.format, hw, Code.format,
    Body.toCode, bind_apply, Interning.map_apply, Interning.ofExcept, Except.map, Pool.utf8,
    Pool.internAs_mk, Pool.empty_eq, Constant.width]

/-- The code of a finished method has every reachable block at one place, with its instructions
unchanged and its ending behind them. -/
theorem finish_arranges {attributes : List Attribute}
    (h : m.finish pool = (.ok (attributes, m'), pool')) :
    ∃ (name : Index .utf8) (code : Code) (o : BlockId → Option Nat) (l : Listing),
      attributes = [⟨name, code.write⟩] ∧ code.bytecode.length ≤ 65535 ∧
        Layout.Arranges m.blocks o l code.bytecode := by
  obtain ⟨-, body, table, _, name, hb, -, -, -, rfl, -⟩ := finish_eq_ok.1 h
  obtain ⟨_, e, l, hw, hh, ha, -, -⟩ := body_eq_ok hb
  refine ⟨name, body.toCode table, l.offset?, l, rfl, ?_, hw.arranges ha⟩
  calc body.bytecode.length = l.size := ha.length_eq
    _ = e.code.size := hh.renders.size_eq.symm
    _ ≤ 65535 := hh.limit

/-- A loop. Its header `b1` is empty and is entered by a fall and by a jump back; `b5` is out of reach
and not even sealed. -/
def spin : MethodDraft where
  blocks := #[
    { Block.start ⟨0⟩ (.ofLists [] []) none with
      newest := [.pop, .bipush 50], maxima := ⟨1, 0⟩, ending := some (.jump ⟨1⟩) },
    { Block.start ⟨1⟩ (.ofLists [] []) none with ending := some (.jump ⟨2⟩) },
    { Block.start ⟨2⟩ (.ofLists [] []) none with
      newest := [.bipush 20, .bipush 10], maxima := ⟨2, 0⟩, ending := some (.branch .le ⟨3⟩ ⟨4⟩) },
    { Block.start ⟨3⟩ (.ofLists [] []) none with ending := some (.jump ⟨1⟩) },
    { Block.start ⟨4⟩ (.ofLists [] []) none with ending := some (.ret 0xb1) },
    Block.start ⟨5⟩ (.ofLists [] []) none]
  returns := none
  finished := false

/-- What the loop is laid out to. -/
def spinBody : Body where
  bytecode := [16, 50, 0x57, 16, 10, 16, 20, 0xa3, 0, 6, 0xa7, 255, 249, 0xb1]
  frames := [.full 3 [] [], .full 9 [] []]
  maxima := ⟨2, 0⟩

/-- The blocks `b1` and `b2` stand at one offset. The jump back is known when it is written, and the
comparison gets its distance from a patch. -/
theorem layout_spin : spin.layout = .ok (#[some 0, some 3, some 3, some 10, some 13, none],
    ⟨#[16, 50, 0x57, 16, 10, 16, 20, 0xa3, 0, 0, 0xa7, 0, 0, 0xb1],
      [⟨11, .known (-7)⟩, ⟨8, .jump ⟨4⟩ 7⟩], [⟨1⟩, ⟨4⟩], ⟨2, 0⟩⟩) := by
  refine (Layout.run_new (by decide) rfl rfl).trans ?_
  refine (Layout.run_new (by decide) rfl rfl).trans ?_
  refine (Layout.run_new (by decide) rfl rfl).trans ?_
  refine (Layout.run_new (by decide) rfl rfl).trans ?_
  refine (Layout.run_placed rfl).trans ?_
  refine (Layout.run_new (by decide) rfl rfl).trans ?_
  exact Layout.run_nil

theorem body_spin : spin.body = .ok spinBody :=
  body_of_layout layout_spin rfl (jumpTargets_of_sorted rfl (by decide)) rfl

/-- The written code of the loop, with the two frames of its table. -/
def spinAttributes : List Attribute :=
  [⟨⟨2⟩,
    [0, 2, 0, 0] ++ [0, 0, 0, 14, 16, 50, 0x57, 16, 10, 16, 20, 0xa3, 0, 6, 0xa7, 255, 249, 0xb1] ++
      [0, 0] ++ [0, 1, 0, 1, 0, 0, 0, 16] ++
      [0, 2, 255, 0, 3, 0, 0, 0, 0, 255, 0, 9, 0, 0, 0, 0]⟩]

theorem finish_spin : spin.finish .empty =
    (.ok (spinAttributes, { spin with finished := true }), (spin.finish .empty).2) := by
  exact Prod.ext (finish_empty_of_body rfl body_spin rfl (List.cons_ne_nil _ _) rfl) rfl

theorem finish_arranges_spin :
    ∃ (name : Index .utf8) (code : Code) (o : BlockId → Option Nat) (l : Listing),
      spinAttributes = [⟨name, code.write⟩] ∧ code.bytecode.length ≤ 65535 ∧
        Layout.Arranges spin.blocks o l code.bytecode :=
  finish_arranges finish_spin

end MethodDraft

end ClassForge
