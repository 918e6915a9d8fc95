import ClassForge.Proofs.Assembly.Disassembly
import ClassForge.Proofs.Assembly.Paths

/-!
# Running the code of a method

A machine that reads the bytes of a method and counts slots. Its runs are the paths between the blocks,
so the maximum that is written with the code bounds every run that no edge made deeper.
-/

namespace ClassForge

/-! ## The machine -/

namespace Op

def slots? (cs : Constants) : Op → Option (Nat × Nat)
  | plain i => i.slots? cs
  | ret opcode => some ((Ending.ret opcode).slots, 0)
  | goto _ => some (0, 0)
  | compare _ => some (2, 0)

/-- Where control goes from an instruction at offset `pc`; `next` is the offset behind it. -/
def targets? (pc next : Nat) : Op → Option (List Nat)
  | plain _ => some [next]
  | ret _ => some []
  | goto v => (pc + v.toInt).toNat?.map ([·])
  | compare v => (pc + v.toInt).toNat?.map ([next, ·])

end Op

/-- A moment of a run: the offset of the next instruction and the depth of the stack. -/
structure Point where
  pc : Nat
  depth : Nat
  deriving DecidableEq, Repr

/-- The points that can follow. A return has none; a point without an instruction, or with too few
operands for it, has no answer. -/
def Point.after? (cs : Constants) (code : List UInt8) (p : Point) : Option (List Point) := do
  let (op, rest) ← Op.decode? (code.drop p.pc)
  let (taken, added) ← op.slots? cs
  let targets ← op.targets? p.pc (code.length - rest.length)
  if taken ≤ p.depth then some (targets.map (⟨·, p.depth - taken + added⟩)) else none

inductive Runs (cs : Constants) (code : List UInt8) : Point → Prop
  | start : Runs cs code ⟨0, 0⟩
  | next {p q : Point} {points : List Point} : Runs cs code p → p.after? cs code = some points →
      q ∈ points → Runs cs code q

/-! ## One instruction -/

section

variable {o : BlockId → Option Nat} {cs : Constants} {code : List UInt8} {pc depth : Nat}

theorem Op.decode?_of_bytesAt {op : Op} (hd : op.Defined) (h : BytesAt code pc op.encode) :
    ∃ rest, decode? (code.drop pc) = some (op, rest) ∧
      code.length - rest.length = pc + op.encode.length := by
  obtain ⟨rest, hr⟩ := h
  refine ⟨rest, by rw [← hr, decode?_encode hd], ?_⟩
  have hlen := congrArg List.length hr
  have hpos := List.length_pos_iff.2 (encode_ne_nil hd)
  rw [List.length_append, List.length_drop] at hlen
  omega

theorem Point.after?_of_bytesAt (op : Op) {taken added : Nat} {targets : List Nat}
    (hd : op.Defined) (h : BytesAt code pc op.encode) (hs : op.slots? cs = some (taken, added))
    (ht : op.targets? pc (pc + op.encode.length) = some targets) (hle : taken ≤ depth) :
    after? cs code ⟨pc, depth⟩ = some (targets.map (⟨·, depth - taken + added⟩)) := by
  obtain ⟨rest, hop, hlen⟩ := Op.decode?_of_bytesAt hd h
  rw [← hlen] at ht
  simp [after?, hop, hs, ht, hle]

theorem Point.after?_plain {i : Instruction} {after : Nat} (hd : i.Defined)
    (h : BytesAt code pc i.encode) (ha : i.depth? cs depth = some after) :
    after? cs code ⟨pc, depth⟩ = some [⟨pc + i.encode.length, after⟩] := by
  obtain ⟨taken, added, hs, hle, rfl⟩ := Instruction.depth?_eq_some.1 ha
  exact after?_of_bytesAt (.plain i) hd h hs rfl hle

theorem Point.after?_ret {opcode : UInt8} (hd : isReturnOpcode opcode) (h : BytesAt code pc [opcode])
    (hle : (Ending.ret opcode).slots ≤ depth) : after? cs code ⟨pc, depth⟩ = some [] :=
  after?_of_bytesAt (.ret opcode) hd h rfl rfl hle

theorem JumpAt.exists_offset {opcode : UInt8} {t : BlockId} (h : JumpAt o code opcode pc t) :
    ∃ n, o t = some n := by
  obtain ⟨_, ⟨n, _, hn, -⟩, -⟩ := h
  exact ⟨n, hn⟩

theorem JumpAt.after?_goto {t : BlockId} (h : JumpAt o code 0xa7 pc t) (depth : Nat) :
    ∃ n, o t = some n ∧ Point.after? cs code ⟨pc, depth⟩ = some [⟨n, depth⟩] := by
  obtain ⟨_, ⟨n, v, hn, hv, rfl⟩, hb⟩ := h
  have ht : (Op.goto v).targets? pc (pc + 3) = some [n] := by
    rw [Op.targets?, hv]
    rfl
  exact ⟨n, hn, Point.after?_of_bytesAt (.goto v) trivial hb rfl ht (Nat.zero_le depth)⟩

theorem JumpAt.after?_compare {t : BlockId} (h : JumpAt o code 0xa3 pc t) (depth : Nat) :
    ∃ n, o t = some n ∧
      Point.after? cs code ⟨pc, depth + 2⟩ = some [⟨pc + 3, depth⟩, ⟨n, depth⟩] := by
  obtain ⟨_, ⟨n, v, hn, hv, rfl⟩, hb⟩ := h
  have ht : (Op.compare v).targets? pc (pc + 3) = some [pc + 3, n] := by
    rw [Op.targets?, hv]
    rfl
  exact ⟨n, hn, Point.after?_of_bytesAt (.compare v) trivial hb rfl ht (Nat.le_add_left 2 depth)⟩

end

/-! ## Paths are runs -/

/-- The code stands as the listing says, and the depths of the blocks are known. -/
structure Placed (blocks : Array Block) (cs : Constants) (l : Listing) (code : List UInt8) :
    Prop where
  complete : Walk.Complete blocks l
  assembles : Assembles l.offset? 0 l.pieces code
  depths : Depths blocks cs
  sane : ∀ (i : Nat) (b : Block), blocks[i]? = some b → b.Sane

section

variable {blocks : Array Block} {cs : Constants} {l l₁ l₂ : Listing} {code : List UInt8}
  {s : Stretch} {n depth after spilled : Nat} {done rest : List Instruction}

/-- What stands at a block of a listing. -/
theorem Placed.stands (h : Placed blocks cs l code) (hl : l = l₁ ++ s :: l₂)
    (hn : l.offset? s.id = some n) :
    blocks[s.id.index]? = some s.block ∧ BytesAt code n s.block.code ∧
      ∃ ending, s.block.ending = some ending ∧
        ending.StandsAt l.offset? code (l₂.head?.map Stretch.id) (n + s.block.code.length) := by
  obtain ⟨n', ending, hn', hb, he, hs⟩ := h.complete.stands h.assembles hl
  obtain rfl := Option.some.inj (hn.symm.trans hn')
  have hmem : s ∈ l := by
    rw [hl]
    exact List.mem_append_right _ List.mem_cons_self
  exact ⟨h.complete.proper.block s hmem, hb, ending, he, hs⟩

theorem Placed.after?_body {i : Instruction} (h : Placed blocks cs l code) (hl : l = l₁ ++ s :: l₂)
    (hn : l.offset? s.id = some n) (hi : s.block.instructions = done ++ i :: rest)
    (ha : i.depth? cs depth = some after) :
    Point.after? cs code ⟨n + (done.flatMap Instruction.encode).length, depth⟩ =
      some [⟨n + ((done ++ [i]).flatMap Instruction.encode).length, after⟩] := by
  obtain ⟨hblock, hb, -⟩ := h.stands hl hn
  have hdef : i.Defined := by
    refine (h.sane _ _ hblock).defined i (List.mem_reverse.1 ?_)
    rw [← Block.instructions, hi]
    exact List.mem_append_right _ List.mem_cons_self
  rw [Block.code, hi, List.flatMap_append, List.flatMap_cons] at hb
  rw [Point.after?_plain hdef hb.right.left ha]
  simp [Nat.add_assoc]

theorem Placed.runs_body (h : Placed blocks cs l code) (hl : l = l₁ ++ s :: l₂)
    (hn : l.offset? s.id = some n) (hi : s.block.instructions = done ++ rest)
    (hr : Runs cs code ⟨n, depth⟩) (ha : depthAfter? cs done depth = some after) :
    Runs cs code ⟨n + (done.flatMap Instruction.encode).length, after⟩ := by
  induction done using List.reverseRecOn generalizing rest after with
  | nil =>
      cases ha
      exact hr
  | append_singleton done i ih =>
      rw [depthAfter?_concat] at ha
      obtain ⟨d, hd, ha⟩ := Option.bind_eq_some_iff.1 ha
      rw [List.append_assoc] at hi
      exact .next (ih hi hd) (h.after?_body hl hn hi ha) List.mem_cons_self

theorem Ending.StandsAt.runs {o : BlockId → Option Nat} {next : Option BlockId} {e : Nat}
    {ending : Ending} {t : BlockId} (h : ending.StandsAt o code next e)
    (hr : Runs cs code ⟨e, depth + ending.slots⟩) (ht : t ∈ ending.targets) :
    ∃ n, o t = some n ∧ Runs cs code ⟨n, depth⟩ := by
  cases h with
  | ret _ => cases ht
  | fall _ ho =>
      obtain rfl := List.mem_singleton.1 ht
      exact ⟨e, ho, hr⟩
  | goto hj =>
      obtain rfl := List.mem_singleton.1 ht
      obtain ⟨n, hn, ha⟩ := hj.after?_goto depth
      exact ⟨n, hn, hr.next ha List.mem_cons_self⟩
  | compareFall hj _ ho =>
      obtain ⟨n, hn, ha⟩ := hj.after?_compare depth
      rcases List.mem_cons.1 ht with rfl | ht
      · exact ⟨e + 3, ho, hr.next ha List.mem_cons_self⟩
      · obtain rfl := List.mem_singleton.1 ht
        exact ⟨n, hn, hr.next ha (List.mem_cons_of_mem _ List.mem_cons_self)⟩
  | compareGoto hj hg =>
      obtain ⟨n, hn, ha⟩ := hj.after?_compare depth
      rcases List.mem_cons.1 ht with rfl | ht
      · obtain ⟨n', hn', ha'⟩ := hg.after?_goto depth
        exact ⟨n', hn', (hr.next ha List.mem_cons_self).next ha' List.mem_cons_self⟩
      · obtain rfl := List.mem_singleton.1 ht
        exact ⟨n, hn, hr.next ha (List.mem_cons_of_mem _ List.mem_cons_self)⟩

/-- Each path between the blocks is a run of the code. -/
theorem Arrives.runs {id : BlockId} (h : Arrives blocks cs id depth spilled)
    (hp : Placed blocks cs l code) : ∃ n, l.offset? id = some n ∧ Runs cs code ⟨n, depth⟩ := by
  induction h with
  | entry => exact ⟨0, hp.complete.offset?_entry, .start⟩
  | @edge id t b b' ending depth spilled next _ hb he ht _ ha ih =>
      obtain ⟨n, hn, hr⟩ := ih
      obtain ⟨l₁, s, l₂, hl, rfl, -⟩ := hp.complete.exists_split hn
      obtain ⟨hblock, -, ending', he', hs⟩ := hp.stands hl hn
      obtain rfl := Option.some.inj (hb.symm.trans hblock)
      obtain rfl := Option.some.inj (he.symm.trans he')
      exact hs.runs (hp.runs_body hl hn (List.append_nil _).symm hr ha) ht

/-! ## Runs are paths -/

/-- Where a run can stand: in the body of a block, or at the jump behind a comparison. -/
inductive Position (blocks : Array Block) (cs : Constants) (l : Listing) (code : List UInt8)
    (spilled : Nat) : Point → Prop
  | body {l₁ l₂ : Listing} {s : Stretch} {n depth after : Nat} {done rest : List Instruction} :
      l = l₁ ++ s :: l₂ → l.offset? s.id = some n → Arrives blocks cs s.id depth spilled →
      s.block.instructions = done ++ rest → depthAfter? cs done depth = some after →
      Position blocks cs l code spilled ⟨n + (done.flatMap Instruction.encode).length, after⟩
  | goto {pc depth : Nat} {t : BlockId} : JumpAt l.offset? code 0xa7 pc t →
      Arrives blocks cs t depth spilled → Position blocks cs l code spilled ⟨pc, depth⟩

theorem Arrives.position {id : BlockId} (h : Arrives blocks cs id depth spilled)
    (hp : Placed blocks cs l code) (hn : l.offset? id = some n) :
    Position blocks cs l code spilled ⟨n, depth⟩ := by
  obtain ⟨l₁, s, l₂, hl, rfl, -⟩ := hp.complete.exists_split hn
  exact .body hl hn h (List.nil_append _).symm rfl

/-- The machine goes on from here, and only to positions. -/
def Point.Proceeds (blocks : Array Block) (cs : Constants) (l : Listing) (code : List UInt8)
    (p : Point) : Prop :=
  ∃ points, p.after? cs code = some points ∧
    ∀ q ∈ points, ∃ spilled, Position blocks cs l code spilled q

theorem Ending.StandsAt.proceeds {next : Option BlockId} {e : Nat} {ending : Ending}
    (h : ending.StandsAt l.offset? code next e) (hp : Placed blocks cs l code)
    (hret : ∀ opcode, ending = .ret opcode → isReturnOpcode opcode)
    (ha : ∀ t ∈ ending.targets, ∃ spilled, Arrives blocks cs t depth spilled) :
    (∃ t, ending = .jump t ∧ next = some t ∧ l.offset? t = some e) ∨
      Point.Proceeds blocks cs l code ⟨e, depth + ending.slots⟩ := by
  have hat : ∀ {t n}, t ∈ ending.targets → l.offset? t = some n →
      ∃ spilled, Position blocks cs l code spilled ⟨n, depth⟩ := fun ht hn =>
    (ha _ ht).imp fun _ h => h.position hp hn
  cases h with
  | ret hb =>
      refine Or.inr ⟨[], Point.after?_ret (hret _ rfl) hb (Nat.le_add_left _ depth), ?_⟩
      simp
  | @fall t hnext ho => exact Or.inl ⟨t, rfl, hnext, ho⟩
  | goto hj =>
      obtain ⟨n, hn, hafter⟩ := hj.after?_goto depth
      refine Or.inr ⟨_, hafter, ?_⟩
      simpa using hat List.mem_cons_self hn
  | compareFall hj _ ho =>
      obtain ⟨n, hn, hafter⟩ := hj.after?_compare depth
      refine Or.inr ⟨_, hafter, ?_⟩
      simpa using ⟨hat List.mem_cons_self ho, hat (List.mem_cons_of_mem _ List.mem_cons_self) hn⟩
  | compareGoto hj hg =>
      obtain ⟨n, hn, hafter⟩ := hj.after?_compare depth
      obtain ⟨spilled, harr⟩ := ha _ List.mem_cons_self
      refine Or.inr ⟨_, hafter, ?_⟩
      simpa using ⟨⟨spilled, .goto hg harr⟩, hat (List.mem_cons_of_mem _ List.mem_cons_self) hn⟩

/-- The machine goes on from a point of a body, unless control falls from there into the next block. -/
theorem Placed.proceeds_or_falls (hp : Placed blocks cs l code) (hl : l = l₁ ++ s :: l₂)
    (hn : l.offset? s.id = some n) (ha : Arrives blocks cs s.id depth spilled)
    (hi : s.block.instructions = done ++ rest) (hd : depthAfter? cs done depth = some after) :
    Point.Proceeds blocks cs l code ⟨n + (done.flatMap Instruction.encode).length, after⟩ ∨
      ∃ r l₃ spilled', l₂ = r :: l₃ ∧
        l.offset? r.id = some (n + (done.flatMap Instruction.encode).length) ∧
        Arrives blocks cs r.id after spilled' := by
  obtain ⟨hblock, -, ending, he, hs⟩ := hp.stands hl hn
  cases rest with
  | cons i rest =>
      have hi' : s.block.instructions = (done ++ [i]) ++ rest := by rw [hi, List.append_cons]
      obtain ⟨declared, -, -, hafter⟩ := ha.exists_after hp.depths hblock ⟨rest, hi'.symm⟩
      have hstep : i.depth? cs after = some (declared + spilled) := by
        rw [depthAfter?_concat, hd] at hafter
        exact hafter
      refine Or.inl ⟨_, hp.after?_body hl hn hi hstep, fun q hq => ?_⟩
      obtain rfl := List.mem_singleton.1 hq
      exact ⟨spilled, .body hl hn ha hi' hafter⟩
  | nil =>
      rw [List.append_nil] at hi
      obtain ⟨next, hnext, harr⟩ := ha.leaves hp.depths hblock he
      rw [hi, hd] at hnext
      obtain rfl := Option.some.inj hnext
      rw [Block.code, hi] at hs
      have hret : ∀ opcode, ending = .ret opcode → isReturnOpcode opcode := by
        rintro opcode rfl
        exact (hp.sane _ _ hblock).ret opcode he
      rcases hs.proceeds hp hret harr with ⟨t, rfl, hhead, ho⟩ | h
      · obtain ⟨r, hr, rfl⟩ := Option.map_eq_some_iff.1 hhead
        obtain ⟨l₃, rfl⟩ := List.head?_eq_some_iff.1 hr
        obtain ⟨spilled', harr⟩ := harr r.id List.mem_cons_self
        exact Or.inr ⟨r, l₃, spilled', rfl, ho, harr⟩
      · exact Or.inl h

-- the induction is on the blocks behind, for control may fall through empty ones
theorem Placed.proceeds (hp : Placed blocks cs l code) (hl : l = l₁ ++ s :: l₂)
    (hn : l.offset? s.id = some n) (ha : Arrives blocks cs s.id depth spilled)
    (hi : s.block.instructions = done ++ rest) (hd : depthAfter? cs done depth = some after) :
    Point.Proceeds blocks cs l code ⟨n + (done.flatMap Instruction.encode).length, after⟩ := by
  induction l₂ generalizing l₁ s n depth after spilled done rest with
  | nil =>
      rcases hp.proceeds_or_falls hl hn ha hi hd with h | ⟨_, _, _, ⟨⟩, -⟩
      exact h
  | cons r l₂ ih =>
      rcases hp.proceeds_or_falls hl hn ha hi hd with h | ⟨_, _, _, ⟨⟩, ho, harr⟩
      · exact h
      · rw [List.append_cons] at hl
        exact (ih hl ho harr (List.nil_append _).symm rfl :)

theorem Position.proceeds {p : Point} (h : Position blocks cs l code spilled p)
    (hp : Placed blocks cs l code) : p.Proceeds blocks cs l code := by
  cases h with
  | body hl hn ha hi hd => exact hp.proceeds hl hn ha hi hd
  | @goto pc depth t hj ha =>
      obtain ⟨n, hn, hafter⟩ := hj.after?_goto depth
      refine ⟨_, hafter, ?_⟩
      simpa using ⟨spilled, ha.position hp hn⟩

theorem Runs.position {p : Point} (h : Runs cs code p) (hp : Placed blocks cs l code) :
    ∃ spilled, Position blocks cs l code spilled p := by
  induction h with
  | start => exact ⟨0, Arrives.entry.position hp hp.complete.offset?_entry⟩
  | next _ ha hq ih =>
      obtain ⟨spilled, h⟩ := ih
      obtain ⟨points, ha', hpos⟩ := h.proceeds hp
      obtain rfl := Option.some.inj (ha.symm.trans ha')
      exact hpos _ hq

/-- The frames of the block say that the stack has this depth at offset `pc`. -/
inductive DeclaredAt (blocks : Array Block) (cs : Constants) (o : BlockId → Option Nat)
    (code : List UInt8) (pc : Nat) (id : BlockId) (declared : Nat) : Prop
  | body {b : Block} {n : Nat} {done rest : List Instruction} : blocks[id.index]? = some b →
      o id = some n → b.instructions = done ++ rest →
      pc = n + (done.flatMap Instruction.encode).length →
      depthAfter? cs done b.entry.stack.stop = some declared →
      DeclaredAt blocks cs o code pc id declared
  | goto {b : Block} : blocks[id.index]? = some b → JumpAt o code 0xa7 pc id →
      b.entry.stack.stop = declared → DeclaredAt blocks cs o code pc id declared

/-- A run is as deep as the frames of the block say, but for the slots that were lost on the way to it. -/
theorem Position.depth_eq {p : Point} {bound : Nat} (h : Position blocks cs l code spilled p)
    (hp : Placed blocks cs l code) (hb : ∀ s ∈ l, s.block.maxima.stack ≤ bound) :
    ∃ id depth declared, Arrives blocks cs id depth spilled ∧
      DeclaredAt blocks cs l.offset? code p.pc id declared ∧ p.depth = declared + spilled ∧
      declared ≤ bound := by
  have hmem : ∀ {l₁ l₂ s}, l = l₁ ++ s :: l₂ → s.block.maxima.stack ≤ bound := by
    rintro l₁ l₂ s rfl
    exact hb s (List.mem_append_right _ List.mem_cons_self)
  cases h with
  | @body _ _ s _ depth _ done rest hl hn ha hi hd =>
      obtain ⟨hblock, -⟩ := hp.stands hl hn
      obtain ⟨declared, hdec, hle, hafter⟩ := ha.exists_after hp.depths hblock ⟨rest, hi.symm⟩
      exact ⟨s.id, depth, declared, ha, .body hblock hn hi rfl hdec,
        Option.some.inj (hd.symm.trans hafter), hle.trans (hmem hl)⟩
  | @goto _ depth t hj ha =>
      obtain ⟨-, b, hblock, hdepth⟩ := ha.depth_eq hp.depths
      obtain ⟨n, hn⟩ := hj.exists_offset
      obtain ⟨l₁, s, l₂, hl, rfl, -⟩ := hp.complete.exists_split hn
      obtain ⟨hs, -⟩ := hp.stands hl hn
      obtain rfl := Option.some.inj (hblock.symm.trans hs)
      -- the maximum of a block covers its entry frame
      obtain ⟨_, ⟨⟩, hle, -⟩ := ha.exists_after hp.depths hs List.nil_prefix
      exact ⟨s.id, depth, _, ha, .goto hs hj rfl, hdepth, hle.trans (hmem hl)⟩

end

/-! ## Finished methods -/

/-- No edge that control can take loses slots. -/
def Level (blocks : Array Block) : Prop :=
  ∀ (id t : BlockId) (b b' : Block) (ending : Ending), Reaches blocks id →
    blocks[id.index]? = some b → b.ending = some ending → t ∈ ending.targets →
    blocks[t.index]? = some b' → b.frame.spill b'.entry = 0

theorem Arrives.spilled_eq_zero {blocks : Array Block} {cs : Constants} {id : BlockId}
    {depth spilled : Nat} (h : Arrives blocks cs id depth spilled) (hd : Depths blocks cs)
    (hl : Level blocks) : spilled = 0 := by
  induction h with
  | entry => rfl
  | edge h hb he ht hb' _ ih =>
      rw [ih, hl _ _ _ _ _ (h.depth_eq hd).1 hb he ht hb']

/-- The depths of a method on the paths between its blocks and on the runs of its code, whose blocks
stand where `o` says. -/
structure DepthSafe (blocks : Array Block) (cs : Constants) (o : BlockId → Option Nat) (code : Code) :
    Prop where
  /-- Control arrives as deep as the entry frame says, and deeper by the slots that were lost. -/
  arrival : ∀ id depth spilled, Arrives blocks cs id depth spilled →
    ∃ b, blocks[id.index]? = some b ∧ depth = b.entry.stack.stop + spilled
  /-- Every path can be followed from there. -/
  departure : ∀ (id : BlockId) (depth spilled : Nat) (b : Block) (ending : Ending),
    Arrives blocks cs id depth spilled → blocks[id.index]? = some b → b.ending = some ending →
    ∃ next, depthAfter? cs b.instructions depth = some (next + ending.slots) ∧
      ∀ t ∈ ending.targets, ∃ spilled', Arrives blocks cs t next spilled'
  /-- The code follows every path. -/
  runs : ∀ id depth spilled, Arrives blocks cs id depth spilled →
    ∃ n, o id = some n ∧ Runs cs code.bytecode ⟨n, depth⟩
  /-- No run is stuck, and only the slots that were lost on a path can take it above the maximum. -/
  bounded : ∀ p, Runs cs code.bytecode p → (p.after? cs code.bytecode).isSome ∧
    ∃ id depth spilled declared, Arrives blocks cs id depth spilled ∧
      DeclaredAt blocks cs o code.bytecode p.pc id declared ∧ p.depth = declared + spilled ∧
      declared ≤ code.maxStack.toNat
  level : Level blocks →
    (∀ (id : BlockId) (depth spilled : Nat) (b : Block), Arrives blocks cs id depth spilled →
      blocks[id.index]? = some b → depth = b.entry.stack.stop) ∧
    ∀ p, Runs cs code.bytecode p → p.depth ≤ code.maxStack.toNat

theorem Placed.depthSafe {blocks : Array Block} {cs : Constants} {l : Listing} {code : Code}
    (hp : Placed blocks cs l code.bytecode)
    (hb : ∀ s ∈ l, s.block.maxima.stack ≤ code.maxStack.toNat) :
    DepthSafe blocks cs l.offset? code where
  arrival _ _ _ h := (h.depth_eq hp.depths).2
  departure _ _ _ _ _ h hb he := h.leaves hp.depths hb he
  runs _ _ _ h := h.runs hp
  bounded p h := by
    obtain ⟨spilled, hpos⟩ := h.position hp
    obtain ⟨points, ha, -⟩ := hpos.proceeds hp
    obtain ⟨id, depth, declared, h⟩ := hpos.depth_eq hp hb
    exact ⟨by rw [ha]; rfl, id, depth, spilled, declared, h⟩
  level hl := by
    refine ⟨fun id depth spilled b h hb => ?_, fun p h => ?_⟩
    · obtain ⟨-, c, hc, hdepth⟩ := h.depth_eq hp.depths
      obtain rfl := Option.some.inj (hb.symm.trans hc)
      rw [hdepth, h.spilled_eq_zero hp.depths hl, Nat.add_zero]
    · obtain ⟨spilled, hpos⟩ := h.position hp
      obtain ⟨id, depth, declared, harr, -, hdepth, hle⟩ := hpos.depth_eq hp hb
      rwa [hdepth, harr.spilled_eq_zero hp.depths hl]

namespace MethodDraft

variable {m m' : MethodDraft} {pool pool' : Pool}

theorem checkMaxima_eq_ok {maxima : Maxima} (h : checkMaxima maxima = .ok ()) :
    maxima.stack ≤ 65535 ∧ maxima.locals ≤ 65535 := by
  unfold checkMaxima at h
  split at h
  next => cases h
  next hs =>
    split at h
    next => cases h
    next hl => exact ⟨by omega, by omega⟩

/-- The stack is as deep as the frames say on every path and in every run of the code, except that it
gets deeper by one slot wherever an edge takes a value of two slots to an unusable entry. -/
theorem depth_of_finish {attributes : List Attribute} (hm : m.Built pool)
    (h : m.finish pool = (.ok (attributes, m'), pool')) :
    (∀ locals stack locals' stack' : List VType,
      (Frame.ofLists locals stack).assignable (.ofLists locals' stack') = true →
      (Frame.ofLists locals stack).stack.stop = (Frame.ofLists locals' stack').stack.stop +
        (Frame.ofLists locals stack).spill (.ofLists locals' stack')) ∧
    ∃ (name : Index .utf8) (code : Code) (o : BlockId → Option Nat) (l : Listing),
      attributes = [⟨name, code.write⟩] ∧ Layout.Arranges m.blocks o l code.bytecode ∧
        DepthSafe m.blocks pool'.constants o code := by
  refine ⟨fun locals stack locals' stack' ha => ?_, ?_⟩
  · rw [Frame.ofLists_eq, Frame.ofLists_eq] at ha ⊢
    exact Frame.stop_of_assignable ha
  have hg := m.interns_finish.grows hm.genuine.sound
  rw [h] at hg
  obtain ⟨-, body, table, _, name, hb, -, hx, -, rfl, -⟩ := finish_eq_ok.1 h
  obtain ⟨_, e, l, hw, hh, ha, -, hmax⟩ := body_eq_ok hb
  have hp : Placed m.blocks pool'.constants l body.bytecode :=
    ⟨hw, ha, (hm.genuine.grows hg).depths hw, fun i b hb => (hm.reachable.sane i b hb).2⟩
  refine ⟨name, body.toCode table, l.offset?, l, rfl, hw.arranges ha, hp.depthSafe fun s hs => ?_⟩
  have hbody : .body s.block ∈ l.pieces := List.mem_flatMap.2 ⟨s, hs, List.mem_cons_self⟩
  calc s.block.maxima.stack ≤ (Piece.maxima l.pieces).stack := Piece.stack_le_maxima hbody
    _ = body.maxima.stack := by rw [hmax, hh.renders.maxima]
    _ = (UInt16.ofNat body.maxima.stack).toNat :=
      (toNat_ofNat_u16 (checkMaxima_eq_ok hx).1).symm

theorem built_start (locals : List VType) (returns : Option VType) :
    (start locals returns).Built .empty :=
  .start locals returns .empty .refl

theorem Built.applyAll (h : m.Built pool) (steps : List (BlockId × Command))
    (hn : ∀ step ∈ steps, step.2.WellNamed) (hs : m.applyAll steps pool = (.ok m', pool')) :
    m'.Built pool' := by
  induction steps generalizing m pool with
  | nil =>
      cases hs
      exact h
  | cons step steps ih =>
      obtain ⟨hstep, hn⟩ := List.forall_mem_cons.1 hn
      rw [MethodDraft.applyAll, List.foldlM_cons] at hs
      obtain ⟨m₁, pool₁, hm, hs⟩ := Interning.bind_eq_ok.1 hs
      obtain ⟨⟨answer, _⟩, ha, rfl⟩ := Interning.map_eq_ok.1 hm
      exact ih (.apply h hstep ha) hn hs

theorem spin_built : spin.Built .empty := by
  have h := ((built_start [] none).newBlock [] []).newBlock [] []
  have h := ((h.newBlock [] []).newBlock [] []).newBlock [] []
  refine h.applyAll
    [(⟨0⟩, .pushInt 50), (⟨0⟩, .pop), (⟨0⟩, .jump ⟨1⟩), (⟨1⟩, .jump ⟨2⟩), (⟨2⟩, .pushInt 10),
      (⟨2⟩, .pushInt 20), (⟨2⟩, .branch .le ⟨3⟩ ⟨4⟩), (⟨3⟩, .jump ⟨1⟩), (⟨4⟩, .returnVoid)]
    (by simp [Command.WellNamed]) ?_
  exact Prod.ext rfl rfl

/-- All stacks of the loop are empty between its blocks. -/
theorem spin_level : Level spin.blocks := by
  intro id t b b' ending _ _ _ _ hb'
  have hempty : ∀ b ∈ spin.blocks, b.entry.stack.elements = [] := by decide
  rw [Frame.spill, hempty b' (Array.mem_of_getElem? hb'), List.zip_nil_right]
  rfl

theorem depth_of_finish_spin :
    spin.Built .empty ∧ Level spin.blocks ∧
    (∀ locals stack locals' stack' : List VType,
      (Frame.ofLists locals stack).assignable (.ofLists locals' stack') = true →
      (Frame.ofLists locals stack).stack.stop = (Frame.ofLists locals' stack').stack.stop +
        (Frame.ofLists locals stack).spill (.ofLists locals' stack')) ∧
    ∃ (name : Index .utf8) (code : Code) (o : BlockId → Option Nat) (l : Listing),
      spinAttributes = [⟨name, code.write⟩] ∧ Layout.Arranges spin.blocks o l code.bytecode ∧
        DepthSafe spin.blocks (spin.finish .empty).2.constants o code :=
  ⟨spin_built, spin_level, depth_of_finish spin_built finish_spin⟩

/-- A loop whose header declares an unusable entry where control brings a value of two slots. It drops
one slot and loads two more. -/
def drift : MethodDraft where
  blocks := #[
    { Block.start ⟨0⟩ (.ofLists [.long] []) none with
      newest := [.load .long 0], frame := .ofLists [.long] [.long], maxima := ⟨2, 2⟩,
      ending := some (.jump ⟨1⟩) },
    { Block.start ⟨1⟩ (.ofLists [.long] [.top]) none with
      newest := [.load .long 0, .pop], frame := .ofLists [.long] [.long], maxima := ⟨2, 2⟩,
      ending := some (.jump ⟨1⟩) }]
  returns := none
  finished := false

def driftCode : Code where
  maxStack := 2
  maxLocals := 2
  bytecode := [0x1e, 0x57, 0x1e, 0xa7, 255, 254]
  handlers := []
  attributes := [⟨⟨1⟩, [0, 1, 255, 0, 1, 0, 1, 4, 0, 1, 0]⟩]

theorem drift_built : drift.Built .empty := by
  refine ((built_start [.long] none).newBlock [.long] [.top]).applyAll
    [(⟨0⟩, .load 0), (⟨0⟩, .jump ⟨1⟩), (⟨1⟩, .pop), (⟨1⟩, .load 0), (⟨1⟩, .jump ⟨1⟩)]
    (by simp [Command.WellNamed]) ?_
  rfl

theorem layout_drift : drift.layout = .ok (#[some 0, some 1],
    ⟨#[0x1e, 0x57, 0x1e, 0xa7, 0, 0], [⟨4, .known (-2)⟩], [⟨1⟩], ⟨2, 2⟩⟩) := by
  refine (Layout.run_new (by decide) rfl rfl).trans ?_
  refine (Layout.run_new (by decide) rfl rfl).trans ?_
  refine (Layout.run_placed rfl).trans ?_
  exact Layout.run_nil

theorem body_drift : drift.body =
    .ok ⟨driftCode.bytecode, [.full 1 [.long] [.top]], ⟨2, 2⟩⟩ :=
  body_of_layout layout_drift rfl (jumpTargets_of_sorted rfl (by decide)) rfl

theorem finish_drift : (drift.finish .empty).1 =
    .ok ([⟨⟨2⟩, driftCode.write⟩], { drift with finished := true }) := by
  rw [finish_empty_of_body rfl body_drift rfl (List.cons_ne_nil _ _) rfl]
  rfl

/-- Each round of the loop leaves one slot more. -/
theorem arrives_drift (cs : Constants) (n : Nat) :
    Arrives drift.blocks cs ⟨1⟩ (n + 2) (n + 1) := by
  induction n with
  | zero =>
      have hb : drift.blocks[BlockId.entry.index]? = some drift.blocks[0] := rfl
      exact .edge .entry hb rfl List.mem_cons_self rfl rfl
  | succ n ih => exact .edge ih rfl rfl List.mem_cons_self rfl rfl

theorem runs_drift (cs : Constants) (n : Nat) : Runs cs driftCode.bytecode ⟨1, n + 2⟩ := by
  induction n with
  | zero => exact .next .start rfl List.mem_cons_self
  | succ n ih =>
      have hpop : Runs cs driftCode.bytecode ⟨2, n + 1⟩ := ih.next rfl List.mem_cons_self
      have hload : Runs cs driftCode.bytecode ⟨3, n + 3⟩ := hpop.next rfl List.mem_cons_self
      exact hload.next rfl List.mem_cons_self

/-- The frames do not bound the depth: the method is finished with a maximum of two slots, and its code
runs to any depth. -/
theorem depth_of_drift :
    drift.Built .empty ∧
    (drift.finish .empty).1 = .ok ([⟨⟨2⟩, driftCode.write⟩], { drift with finished := true }) ∧
    driftCode.maxStack = 2 ∧
    (drift.blocks[1]?.map fun b => b.entry.stack.stop) = some 1 ∧
    (∀ cs n, Arrives drift.blocks cs ⟨1⟩ (n + 2) (n + 1)) ∧
    (∀ cs n, Runs cs driftCode.bytecode ⟨1, n + 2⟩) ∧
    (Frame.ofLists [] [.long]).assignable (.ofLists [] [.top]) = true ∧
    (Frame.ofLists [] [.long]).stack.stop = 2 ∧ (Frame.ofLists [] [.top]).stack.stop = 1 :=
  ⟨drift_built, finish_drift, rfl, rfl, arrives_drift, runs_drift, rfl, rfl, rfl⟩

end MethodDraft

end ClassForge
