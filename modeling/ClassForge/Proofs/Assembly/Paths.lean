import ClassForge.Proofs.Assembly.Depth
import ClassForge.Proofs.Assembly.Layout

/-!
# Depths along paths

Methods that are built with one pool, and the depths at which control arrives at their blocks. The
frames of two blocks that an edge joins are equally deep, but for the slots that the edge loses.
-/

namespace ClassForge

namespace Block

variable {b b' : Block} {pool pool' : Pool}

/-- The block came about by calls whose class names can stand in descriptors. -/
def Genuine (pool : Pool) (b : Block) : Prop :=
  ∃ calls entry stack, b.Log pool calls entry stack ∧ ∀ command ∈ calls, command.WellNamed

theorem genuine_start (id : BlockId) {locals : Slots VType} (hl : locals.Pushed)
    (stack : List VType) (returns : Option VType) (pool : Pool) :
    (Block.start id ⟨locals, .ofList stack⟩ returns).Genuine pool := by
  have h := log_start id hl stack.reverse returns pool
  rw [Frame.ofOperands, List.reverse_reverse] at h
  exact ⟨[], _, _, h, by simp⟩

theorem Genuine.extends (h : b.Genuine pool) (he : pool.Extends pool') : b.Genuine pool' := by
  obtain ⟨calls, entry, stack, hl, hn⟩ := h
  exact ⟨calls, entry, stack, hl.extends he, hn⟩

theorem Genuine.apply {command : Command} {answer : Option UInt16} (h : b.Genuine pool)
    (hs : pool.Sound) (hn : command.WellNamed)
    (ha : b.apply command pool = (.ok (answer, b'), pool')) : b'.Genuine pool' := by
  obtain ⟨calls, entry, stack, hl, hns⟩ := h
  obtain ⟨stack', hl⟩ := hl.apply hs ha
  refine ⟨_, _, _, hl, List.forall_mem_append.2 ⟨hns, ?_⟩⟩
  simpa using hn

theorem Genuine.deep (h : b.Genuine pool) (hs : pool.Sound) : b.Deep pool.constants := by
  obtain ⟨calls, entry, stack, hl, hn⟩ := h
  exact hl.deep hs hn

/-- The frames at the two ends of an edge that was checked. -/
theorem Genuine.stop_of_assignable (h : b.Genuine pool) (h' : b'.Genuine pool)
    (ha : b.frame.assignable b'.entry = true) :
    b.frame.stack.stop = b'.entry.stack.stop + b.frame.spill b'.entry := by
  obtain ⟨_, _, _, hl, -⟩ := h
  obtain ⟨_, _, _, hl', -⟩ := h'
  obtain ⟨left, hf, -⟩ := hl.frame
  have he := hl'.entered
  rw [hf, he] at ha ⊢
  exact Frame.stop_of_assignable ha

end Block

namespace MethodDraft

variable {m m' : MethodDraft} {pool pool' : Pool}

/-! ## Methods built with one pool -/

/-- The method and the pool come about together, from a new pool or one that was reopened: by calls on
the method, whether or not they succeed, and by other requests to the pool between them. The class names
of fields and methods can stand in descriptors, for else the code does not say what it calls. -/
inductive Built : MethodDraft → Pool → Prop
  | start {pool₀ pool : Pool} (locals : List VType) (returns : Option VType) : pool₀.Origin →
      pool₀.Served pool → Built (start locals returns) pool
  | ofType {pool₀ pool : Pool} {type receiver m pool'} : pool₀.Origin → pool₀.Served pool →
      ofType type receiver pool = (.ok m, pool') → Built m pool'
  | newBlock {m : MethodDraft} {pool : Pool} (locals stack : List VType) : Built m pool →
      Built (m.newBlock locals stack).2 pool
  | continueBlock {m : MethodDraft} {pool : Pool} {source stack id m'} : Built m pool →
      m.continueBlock source stack = .ok (id, m') → Built m' pool
  | apply {m : MethodDraft} {pool : Pool} {id answer m' pool'} {command : Command} : Built m pool →
      command.WellNamed → m.apply id command pool = (.ok (answer, m'), pool') → Built m' pool'
  | rejected {m : MethodDraft} {pool : Pool} {id command e pool'} : Built m pool →
      m.apply id command pool = (.error e, pool') → Built m pool'
  | finish {m : MethodDraft} {pool : Pool} {attributes m' pool'} : Built m pool →
      m.finish pool = (.ok (attributes, m'), pool') → Built m' pool'
  | unfinished {m : MethodDraft} {pool : Pool} {e pool'} : Built m pool →
      m.finish pool = (.error e, pool') → Built m pool'
  | request {m : MethodDraft} {pool : Pool} (r : Pool.Request) : Built m pool →
      Built m (pool.serve r)

theorem Built.reachable (h : m.Built pool) : m.Reachable := by
  induction h with
  | start locals returns _ _ => exact .start locals returns
  | ofType _ _ h => exact .ofType h
  | newBlock locals stack _ ih => exact ih.newBlock locals stack
  | continueBlock _ h ih => exact ih.continueBlock h
  | apply _ _ h ih => exact ih.apply h
  | rejected _ _ ih => exact ih
  | finish _ h ih => exact ih.finish h
  | unfinished _ _ ih => exact ih
  | request _ _ ih => exact ih

theorem interns_apply (m : MethodDraft) (id : BlockId) (command : Command) :
    Interning.Interns (fun _ => True) (m.apply id command) :=
  .bind (.ofExcept fun _ _ => trivial) fun b => .bind (b.interns_apply command) fun _ => .pure _

theorem interns_tableAttributes (frames : StackMapTable) :
    Interning.Interns (fun _ => True) (tableAttributes frames) := by
  unfold tableAttributes
  split
  · exact .pure _
  · exact .bind ((Pool.interns_attributeFor _ _).mono fun _ _ => trivial) fun _ => .pure _

theorem interns_finish (m : MethodDraft) : Interning.Interns (fun _ => True) m.finish := by
  have hret : ∀ {α : Type} (x : Except Error α),
      Interning.Interns (fun _ => True) (Interning.ofExcept x) := fun _ => .ofExcept fun _ _ => trivial
  unfold finish
  split
  · exact hret (.error .alreadyFinished)
  · exact .bind (hret _) fun _ => .bind (interns_tableAttributes _) fun _ => .bind (hret _) fun _ =>
      .bind ((Pool.interns_attributeFor _ _).mono fun _ _ => trivial) fun _ => .pure _

/-- What holds of a method and its pool at any moment. -/
structure Genuine (m : MethodDraft) (pool : Pool) : Prop where
  sound : pool.Sound
  blocks : m.Numbered (Block.Genuine pool)
  entry : ∃ b, m.blocks[0]? = some b ∧ b.entry.stack.stop = 0

theorem genuine_start (hs : pool.Sound) (locals : List VType) (returns : Option VType) :
    (start locals returns).Genuine pool :=
  ⟨hs, numbered_start (Block.genuine_start .entry (Slots.pushed_ofList locals) [] returns pool),
    _, rfl, rfl⟩

theorem Genuine.grows (h : m.Genuine pool) (hg : pool.Grows pool') : m.Genuine pool' :=
  ⟨hg.sound, fun i b hb => (h.blocks i b hb).imp_right fun hb => hb.extends hg.added, h.entry⟩

theorem Genuine.addBlock {locals : Slots VType} (h : m.Genuine pool) (hl : locals.Pushed)
    (stack : List VType) : (m.addBlock ⟨locals, .ofList stack⟩).2.Genuine pool := by
  obtain ⟨b, hb, he⟩ := h.entry
  refine ⟨h.sound, h.blocks.addBlock (Block.genuine_start _ hl stack _ pool), b, ?_, he⟩
  obtain ⟨hlt, -⟩ := Array.getElem?_eq_some_iff.1 hb
  rw [MethodDraft.addBlock, Array.getElem?_push_lt hlt, ← hb, Array.getElem?_eq_getElem hlt]

theorem Genuine.setBlock {b b' : Block} {i : Nat} {command : Command} {answer : Option UInt16}
    (h : m.Genuine pool) (hb : m.blocks[i]? = some b) (hn : command.WellNamed)
    (ha : b.apply command pool = (.ok (answer, b'), pool')) : (m.setBlock b').Genuine pool' := by
  have hg := Block.grows_of_apply h.sound ha
  have hgen := (h.blocks i b hb).2.apply h.sound hn ha
  refine ⟨hg.sound, (h.grows hg).blocks.setBlock hgen, ?_⟩
  obtain ⟨c, hc, he⟩ := h.entry
  rw [MethodDraft.setBlock, Array.getElem?_setIfInBounds]
  split
  next hi =>
    -- the entry block itself, which keeps its entry frame
    have hid : b'.id = ⟨i⟩ := (Block.apply_step ha).id.trans (h.blocks i b hb).1
    obtain rfl : i = 0 := by
      rw [hid] at hi
      exact hi
    obtain rfl := Option.some.inj (hb.symm.trans hc)
    rw [hi, if_pos (Array.getElem?_eq_some_iff.1 hc).1]
    exact ⟨b', rfl, by rw [(Block.apply_step ha).entry, he]⟩
  next => exact ⟨c, hc, he⟩

theorem Built.genuine (h : m.Built pool) : m.Genuine pool := by
  induction h with
  | start locals returns h₀ h => exact genuine_start (h.grows h₀.sound).sound locals returns
  | ofType h₀ h ht =>
      obtain ⟨parameters, returns, pool₁, hp, hr, rfl⟩ := ofType_eq_ok ht
      have hg := (Pool.mapM_typeOf_eq_ok (h.grows h₀.sound).sound hp).1
      exact genuine_start (Pool.typeOf?_eq_ok hg.sound hr).1.sound _ returns
  | newBlock locals stack _ ih => exact ih.addBlock (Slots.pushed_ofList locals) stack
  | continueBlock _ h ih =>
      obtain ⟨b, hb, rfl⟩ := continueBlock_eq_ok h
      obtain ⟨_, _, _, hl, -⟩ := (ih.blocks _ b hb).2
      exact ih.addBlock hl.pushed_locals _
  | apply _ hn h ih =>
      obtain ⟨b, b', hb, ha, rfl⟩ := apply_eq_ok h
      exact ih.setBlock hb hn ha
  | @rejected m pool id command _ _ _ h ih =>
      have hg := (m.interns_apply id command).grows ih.sound
      rw [h] at hg
      exact ih.grows hg
  | @finish m pool _ _ _ _ h ih =>
      have hg := m.interns_finish.grows ih.sound
      rw [h] at hg
      obtain ⟨-, _, _, _, _, -, -, -, -, -, rfl⟩ := finish_eq_ok.1 h
      exact ⟨hg.sound, (ih.grows hg).blocks, ih.entry⟩
  | @unfinished m pool _ _ _ h ih =>
      have hg := m.interns_finish.grows ih.sound
      rw [h] at hg
      exact ih.grows hg
  | request r _ ih => exact ih.grows (ih.sound.serve r)

end MethodDraft

/-! ## Arrivals -/

/-- Control can come to the block with this depth, in slots, along a path on which that many slots were
lost where a value of two slots met an unusable entry. -/
inductive Arrives (blocks : Array Block) (cs : Constants) : BlockId → Nat → Nat → Prop
  | entry : Arrives blocks cs .entry 0 0
  | edge {id t : BlockId} {b b' : Block} {ending : Ending} {depth spilled next : Nat} :
      Arrives blocks cs id depth spilled → blocks[id.index]? = some b → b.ending = some ending →
      t ∈ ending.targets → blocks[t.index]? = some b' →
      depthAfter? cs b.instructions depth = some (next + ending.slots) →
      Arrives blocks cs t next (spilled + b.frame.spill b'.entry)

/-- What is known of the depths of blocks that control can come to. -/
structure Depths (blocks : Array Block) (cs : Constants) : Prop where
  entry : ∃ b, blocks[0]? = some b ∧ b.entry.stack.stop = 0
  deep : ∀ (i : Nat) (b : Block), blocks[i]? = some b → b.Deep cs
  edge : ∀ id b ending t, Reaches blocks id → blocks[id.index]? = some b → b.ending = some ending →
    t ∈ ending.targets → ∃ b', blocks[t.index]? = some b' ∧
      b.frame.stack.stop = b'.entry.stack.stop + b.frame.spill b'.entry

theorem MethodDraft.Genuine.depths {m : MethodDraft} {pool : Pool} {l : Listing}
    (h : m.Genuine pool) (hw : Walk.Complete m.blocks l) : Depths m.blocks pool.constants := by
  refine ⟨h.entry, fun i b hb => (h.blocks i b hb).2.deep h.sound, fun id b ending t hr hb he ht => ?_⟩
  obtain ⟨s, hs, rfl⟩ := List.mem_map.1 ((hw.mem_iff id).2 hr)
  obtain rfl := Option.some.inj ((hw.proper.block s hs).symm.trans hb)
  obtain ⟨b', hb', ha⟩ := Block.checkEdge_eq_ok (hw.checked s hs ending he t ht)
  exact ⟨b', hb', (h.blocks _ _ hb).2.stop_of_assignable (h.blocks _ _ hb').2 ha⟩

namespace Arrives

variable {blocks : Array Block} {cs : Constants} {id : BlockId} {b : Block} {depth spilled : Nat}

/-- Control arrives as deep as the entry frame of the block, but for the slots that were lost. -/
theorem depth_eq (h : Arrives blocks cs id depth spilled) (hd : Depths blocks cs) :
    Reaches blocks id ∧
      ∃ b, blocks[id.index]? = some b ∧ depth = b.entry.stack.stop + spilled := by
  induction h with
  | entry =>
      obtain ⟨b, hb, he⟩ := hd.entry
      exact ⟨.entry, b, hb, by rw [he]⟩
  | @edge id t b b' ending depth spilled next _ hb he ht hb' hafter ih =>
      obtain ⟨hr, c, hc, rfl⟩ := ih
      obtain rfl := Option.some.inj (hb.symm.trans hc)
      obtain ⟨c', hc', hstop⟩ := hd.edge id b ending t hr hb he ht
      obtain rfl := Option.some.inj (hb'.symm.trans hc')
      have hleaves := depthAfter?_add ((hd.deep _ b hb).leaves ending he) spilled
      rw [hleaves] at hafter
      have hnext := Option.some.inj hafter
      exact ⟨.edge hr hb he ht, b', hb', by omega⟩

/-- Whatever the depth on arrival, the block does not run out of operands, and stays as much deeper than
its frames say. -/
theorem exists_after (h : Arrives blocks cs id depth spilled) (hd : Depths blocks cs)
    (hb : blocks[id.index]? = some b) {done : List Instruction} (hp : done <+: b.instructions) :
    ∃ declared, depthAfter? cs done b.entry.stack.stop = some declared ∧
      declared ≤ b.maxima.stack ∧ depthAfter? cs done depth = some (declared + spilled) := by
  obtain ⟨-, c, hc, rfl⟩ := h.depth_eq hd
  obtain rfl := Option.some.inj (hb.symm.trans hc)
  obtain ⟨declared, ha, hle⟩ := (hd.deep _ b hb).below done hp
  exact ⟨declared, ha, hle, depthAfter?_add ha spilled⟩

/-- Control goes on to every block that the ending names, and with one depth to all of them. -/
theorem leaves {ending : Ending} (h : Arrives blocks cs id depth spilled) (hd : Depths blocks cs)
    (hb : blocks[id.index]? = some b) (he : b.ending = some ending) :
    ∃ next, depthAfter? cs b.instructions depth = some (next + ending.slots) ∧
      ∀ t ∈ ending.targets, ∃ spilled', Arrives blocks cs t next spilled' := by
  obtain ⟨hr, c, hc, rfl⟩ := h.depth_eq hd
  obtain rfl := Option.some.inj (hb.symm.trans hc)
  have hafter := depthAfter?_add ((hd.deep _ b hb).leaves ending he) spilled
  rw [Nat.add_right_comm] at hafter
  refine ⟨_, hafter, fun t ht => ?_⟩
  obtain ⟨b', hb', -⟩ := hd.edge id b ending t hr hb he ht
  exact ⟨_, .edge h hb he ht hb' hafter⟩

end Arrives

end ClassForge
