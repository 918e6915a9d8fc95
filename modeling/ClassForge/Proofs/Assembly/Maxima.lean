import ClassForge.Proofs.Assembly.Execution
import ClassForge.Proofs.Assembly.Locals

/-!
# Maxima

The maxima of a block are high-water marks: the greatest numbers of slots that its stack and its locals
have taken, at its start or after one of the calls on it. Those of a finished method are the greatest
among the blocks that can be reached, and every local that its code moves lies below them. The main
result is `MethodDraft.maxima_of_finish`.
-/

namespace ClassForge

/-! ## The greatest of several sizes -/

namespace Maxima

variable {m x : Maxima} {S : Set Maxima}

/-- Each component is the greatest of its kind. -/
structure Greatest (S : Set Maxima) (m : Maxima) : Prop where
  stack : IsGreatest (Set.image Maxima.stack S) m.stack
  locals : IsGreatest (Set.image Maxima.locals S) m.locals

theorem greatest_singleton (m : Maxima) : Greatest {m} m := by
  constructor <;> simp [Set.image_singleton]

theorem Greatest.join (h : Greatest S m) (x : Maxima) : Greatest (insert x S) (m.join x) := by
  constructor
  · simpa [Set.image_insert_eq, Maxima.join, max_comm] using h.stack.insert x.stack
  · simpa [Set.image_insert_eq, Maxima.join, max_comm] using h.locals.insert x.locals

theorem Greatest.stack_le (h : Greatest S m) (hx : x ∈ S) : x.stack ≤ m.stack :=
  h.stack.2 (Set.mem_image_of_mem _ hx)

theorem Greatest.locals_le (h : Greatest S m) (hx : x ∈ S) : x.locals ≤ m.locals :=
  h.locals.2 (Set.mem_image_of_mem _ hx)

theorem cover_eq_self {f : Frame} (hs : f.stack.stop ≤ m.stack) (hl : f.locals.stop ≤ m.locals) :
    m.cover f = m := by
  simp [cover, Maxima.join, hs, hl]

theorem isGreatest_of_insert_zero {T : Set Nat} {n : Nat} (h : IsGreatest (insert 0 T) n)
    (hT : T.Nonempty) : IsGreatest T n := by
  refine ⟨?_, fun k hk => h.2 (Set.mem_insert_of_mem 0 hk)⟩
  rcases h.1 with rfl | hn
  · obtain ⟨k, hk⟩ := hT
    obtain rfl : k = 0 := Nat.le_zero.1 (h.2 (Set.mem_insert_of_mem 0 hk))
    exact hk
  · exact hn

theorem Greatest.of_insert_zero (h : Greatest (insert zero S) m) (hS : S.Nonempty) : Greatest S m where
  stack := isGreatest_of_insert_zero (by simpa [Set.image_insert_eq, zero] using h.stack) (hS.image _)
  locals := isGreatest_of_insert_zero (by simpa [Set.image_insert_eq, zero] using h.locals) (hS.image _)

end Maxima

/-! ## Frames -/

namespace Frame

variable {f g : Frame}

/-- The slots that the stack and the locals take together, two for each wide value. -/
def slots (f : Frame) : Maxima := ⟨Slots.widths f.stack.elements, Slots.widths f.locals.elements⟩

/-- The slots of the frame are numbered without gaps. -/
def Listed (f : Frame) : Prop := ∃ locals stack, f = .ofLists locals stack

theorem Listed.slots_eq (h : f.Listed) : f.slots = ⟨f.stack.stop, f.locals.stop⟩ := by
  obtain ⟨locals, stack, rfl⟩ := h
  simp [slots, ofLists, Slots.elements_ofList, Slots.stop_ofList]

theorem Listed.reserve {t : VType} {slot : UInt16} (h : f.Listed) (hr : f.reserve t = .ok (slot, g)) :
    g.Listed := by
  obtain ⟨locals, stack, rfl⟩ := h
  obtain ⟨-, rfl⟩ := reserve_eq_ok.1 hr
  exact ⟨locals ++ [t], stack, by rw [ofLists, ofLists, Slots.ofList_concat]⟩

theorem Listed.exchange {pops pushes : List VType} (h : f.Listed)
    (he : f.exchange pops pushes = .ok g) : g.Listed := by
  obtain ⟨locals, stack, rfl⟩ := h
  rw [ofLists_eq] at he
  obtain ⟨-, rfl⟩ := exchange_eq_ok.1 he
  exact ⟨locals, _, rfl⟩

/-- A pop gives slots back. -/
theorem Listed.pop {t : VType} (h : f.Listed) (hp : f.pop = .ok (t, g)) :
    g.Listed ∧ g.stack.stop ≤ f.stack.stop ∧ g.locals = f.locals := by
  obtain ⟨locals, stack, rfl⟩ := h
  rw [ofLists_eq] at hp ⊢
  cases hs : stack.reverse with
  | nil =>
      rw [hs] at hp
      cases hp
  | cons e rest =>
      rw [hs, pop_cons] at hp
      cases hp
      refine ⟨⟨locals, _, rfl⟩, ?_, rfl⟩
      rw [stop_stack, stop_stack, Slots.widths]
      exact Nat.le_add_left _ _

end Frame

namespace Slots

variable {α : Type} [Wide α]

theorem le_stop_ofList [Spacious α] {as : List α} {i : Nat} {a : α}
    (h : (ofList as).get? i = some a) : i + Wide.width a ≤ (ofList as).stop := by
  have hp := pushed_ofList as
  exact hp.within _ (hp.ordered.get?_eq_some_iff.1 h)

end Slots

/-! ## Blocks -/

/-- The family and the slot of the local that an instruction moves. -/
def Instruction.local? : Instruction → Option (Bank × UInt16)
  | load bank slot | store bank slot => some (bank, slot)
  | _ => none

theorem Instruction.Allowed.le_stop {locals : List VType} {i : Instruction} {bank : Bank} {slot : UInt16}
    (h : i.Allowed (.ofList locals)) (hi : i.local? = some (bank, slot)) :
    slot.toNat + bank.width ≤ (Slots.ofList locals).stop := by
  cases i with
  | load b s | store b s =>
      cases hi
      obtain ⟨t, ht, hb⟩ := h
      rw [(Bank.width_of_ofType? hb).2]
      exact Slots.le_stop_ofList ht
  | _ => cases hi

namespace Block

variable {b b' : Block} {pool pool' : Pool} {frames : List Frame}

/-- The frames that a block has had, newest first: at its start, and after every call that succeeded.
A call that fails leaves the block as it was. -/
inductive History : List Frame → Block → Prop
  | start (id : BlockId) (locals stack : List VType) (returns : Option VType) :
      History [.ofLists locals stack] (.start id (.ofLists locals stack) returns)
  | call {frames b command pool answer b' pool'} : History frames b →
      b.apply command pool = (.ok (answer, b'), pool') → History (b'.frame :: frames) b'

/-- What the maxima of a block with the given frames say. -/
structure Marked (frames : List Frame) (b : Block) : Prop where
  listed : b.frame.Listed
  entered : b.entry ∈ frames
  current : b.frame ∈ frames
  greatest : Maxima.Greatest {s | ∃ f ∈ frames, f.slots = s} b.maxima
  moved : ∀ i ∈ b.newest, ∀ bank slot, i.local? = some (bank, slot) →
    slot.toNat + bank.width ≤ b.maxima.locals

theorem marked_start (id : BlockId) (locals stack : List VType) (returns : Option VType) :
    Marked [.ofLists locals stack] (.start id (.ofLists locals stack) returns) := by
  have hf : (Frame.ofLists locals stack).Listed := ⟨locals, stack, rfl⟩
  refine ⟨hf, List.mem_cons_self, List.mem_cons_self, ?_, by simp [Block.start]⟩
  have hm := Maxima.greatest_singleton (Frame.ofLists locals stack).slots
  simpa [Block.start, Maxima.cover, Maxima.zero, Maxima.join, hf.slots_eq, eq_comm] using hm

/-- A command takes the frame that it leaves into the maxima, or leaves one that they cover. -/
theorem Step.cover (h : b.Step b') (hf : b.frame.Listed) (hs : b.frame.stack.stop ≤ b.maxima.stack)
    (hl : b.frame.locals.stop ≤ b.maxima.locals) :
    b'.frame.Listed ∧ b'.maxima = b.maxima.cover b'.frame := by
  cases h with
  | reserve _ hr => exact ⟨hf.reserve hr, rfl⟩
  | emit _ _ he => exact ⟨hf.exchange he, rfl⟩
  | returnVoid _ _ => exact ⟨hf, (Maxima.cover_eq_self hs hl).symm⟩
  | returnValue _ hp _ _ _ =>
      obtain ⟨hf', hle, hlocals⟩ := hf.pop hp
      exact ⟨hf', (Maxima.cover_eq_self (hle.trans hs) (hlocals ▸ hl)).symm⟩
  | jump _ => exact ⟨hf, (Maxima.cover_eq_self hs hl).symm⟩
  | branch _ he => exact ⟨hf.exchange he, rfl⟩

theorem Marked.step (h : Marked frames b) (hs : b.Step b') : Marked (b'.frame :: frames) b' := by
  have hmem : b.frame.slots ∈ {s | ∃ f ∈ frames, f.slots = s} := ⟨_, h.current, rfl⟩
  have hstack := h.greatest.stack_le hmem
  have hlocals := h.greatest.locals_le hmem
  rw [h.listed.slots_eq] at hstack hlocals
  obtain ⟨hf, hm⟩ := hs.cover h.listed hstack hlocals
  have hle : b.maxima.locals ≤ b'.maxima.locals := by
    rw [hm]
    exact Nat.le_max_left _ _
  refine ⟨hf, hs.entry ▸ List.mem_cons_of_mem _ h.entered, List.mem_cons_self, ?_, ?_⟩
  · have hset : {s | ∃ f ∈ b'.frame :: frames, f.slots = s} =
        insert b'.frame.slots {s | ∃ f ∈ frames, f.slots = s} := by
      ext s
      simp [eq_comm]
    rw [hset, hm, Maxima.cover, ← hf.slots_eq]
    exact h.greatest.join _
  · have hold : ∀ i ∈ b.newest, ∀ bank slot, i.local? = some (bank, slot) →
        slot.toNat + bank.width ≤ b'.maxima.locals :=
      fun i hi bank slot hl => (h.moved i hi bank slot hl).trans hle
    rcases hs.newest with hn | ⟨i, hn, hi⟩
    · rwa [hn]
    · rw [hn]
      refine List.forall_mem_cons.2 ⟨fun bank slot hl => ?_, hold⟩
      obtain ⟨locals, stack, heq⟩ := h.listed
      rw [heq] at hi hlocals
      exact ((hi.le_stop hl).trans hlocals).trans hle

theorem History.marked (h : History frames b) : Marked frames b := by
  induction h with
  | start id locals stack returns => exact marked_start id locals stack returns
  | call _ hcall ih => exact ih.step (apply_step hcall)

end Block

/-! ## Finished methods -/

/-- The bodies among pieces decide their maxima. -/
theorem Piece.greatest_maxima (ps : List Piece) :
    Maxima.Greatest (insert Maxima.zero {s | ∃ b, .body b ∈ ps ∧ b.maxima = s}) (Piece.maxima ps) := by
  induction ps using List.reverseRecOn with
  | nil => simpa [Piece.maxima] using Maxima.greatest_singleton Maxima.zero
  | append_singleton ps p ih =>
      cases p with
      | body b =>
          have hset : insert Maxima.zero {s | ∃ c, .body c ∈ ps ++ [.body b] ∧ c.maxima = s} =
              insert b.maxima (insert Maxima.zero {s | ∃ c, .body c ∈ ps ∧ c.maxima = s}) := by
            ext s
            simp
            grind
          rw [hset, Piece.maxima_concat]
          exact ih.join _
      | ret _ | goto _ | compare _ => simpa [Piece.maxima] using ih

theorem Walk.Complete.body_mem_iff {blocks : Array Block} {l : Listing} {b : Block}
    (h : Walk.Complete blocks l) :
    .body b ∈ l.pieces ↔ ∃ id, Reaches blocks id ∧ blocks[id.index]? = some b := by
  constructor
  · intro hb
    obtain ⟨s, hs, hb⟩ := List.mem_flatMap.1 hb
    rcases List.mem_cons.1 hb with hb | hb
    · cases hb
      exact ⟨s.id, (h.mem_iff s.id).1 (List.mem_map_of_mem hs), h.proper.block s hs⟩
    · -- what stands behind a body is no body
      obtain ⟨l₁, l₂, hl⟩ := List.append_of_mem hs
      obtain ⟨ending, -, hx⟩ := (hl ▸ h.linked).closes
      rcases hx.target_or_ret hb with ⟨t, ht | ht⟩ | ⟨opcode, ht, -⟩ <;> cases ht
  · rintro ⟨id, hr, hb⟩
    obtain ⟨s, hs, rfl⟩ := List.mem_map.1 ((h.mem_iff id).2 hr)
    obtain rfl := Option.some.inj ((h.proper.block s hs).symm.trans hb)
    exact List.mem_flatMap.2 ⟨s, hs, List.mem_cons_self⟩

namespace MethodDraft

variable {m m' : MethodDraft} {pool pool' : Pool}

theorem Reachable.history (h : m.Reachable) : m.Numbered fun b => ∃ frames, Block.History frames b := by
  refine h.numbered_of_calls (Q := Frame.Listed) (fun locals stack => ⟨locals, stack, rfl⟩) ?_ ?_ ?_
  · rintro b stack ⟨frames, hb⟩
    obtain ⟨locals, _, hf⟩ := hb.marked.listed
    exact ⟨locals, stack, by rw [hf]; rfl⟩
  · rintro id _ returns ⟨locals, stack, rfl⟩
    exact ⟨_, .start id locals stack returns⟩
  · rintro b b' command answer pool pool' hcall ⟨frames, hb⟩
    exact ⟨_, hb.call hcall⟩

/-- The maxima of the blocks that the entry reaches. -/
def reachedMaxima (m : MethodDraft) : Set Maxima :=
  {s | ∃ id b, Reaches m.blocks id ∧ m.blocks[id.index]? = some b ∧ b.maxima = s}

theorem greatest_of_body {body : Body} (hb : m.body = .ok body) :
    Maxima.Greatest m.reachedMaxima body.maxima := by
  obtain ⟨_, e, l, h, hh, -, -, hmax⟩ := body_eq_ok hb
  have hset : m.reachedMaxima = {s | ∃ b, .body b ∈ l.pieces ∧ b.maxima = s} := by
    ext s
    simp only [reachedMaxima, Set.mem_ofPred_eq, h.body_mem_iff]
    constructor
    · rintro ⟨id, b, hr, hb, hs⟩
      exact ⟨b, ⟨id, hr, hb⟩, hs⟩
    · rintro ⟨b, ⟨id, hr, hb⟩, hs⟩
      exact ⟨id, b, hr, hb, hs⟩
  rw [hset, hmax, hh.renders.maxima]
  refine (Piece.greatest_maxima l.pieces).of_insert_zero ?_
  obtain ⟨b, hb⟩ := h.exists_block h.offset?_entry
  exact ⟨b.maxima, b, h.body_mem_iff.2 ⟨_, .entry, hb⟩, rfl⟩

/-- The maxima of a block are the greatest of the slots that its frames have taken. Those of a finished
method are the greatest of the blocks that the entry reaches; its first locals fit below them, and so
does every local that its code loads or stores. -/
theorem maxima_of_finish :
    (∀ frames b, Block.History frames b →
      Maxima.Greatest {s | ∃ f ∈ frames, f.slots = s} b.maxima) ∧
    ∀ (m m' : MethodDraft) (pool pool' : Pool) (attributes : List Attribute), m.Reachable →
      m.finish pool = (.ok (attributes, m'), pool') →
      (∀ b ∈ m.blocks, ∃ frames, Block.History frames b) ∧
      ∃ (name : Index .utf8) (code : Code) (entry : Block) (ops : List (Nat × Op)),
        attributes = [⟨name, code.write⟩] ∧
        Maxima.Greatest m.reachedMaxima ⟨code.maxStack.toNat, code.maxLocals.toNat⟩ ∧
        m.blocks[BlockId.entry.index]? = some entry ∧
        Slots.widths entry.entry.locals.elements ≤ code.maxLocals.toNat ∧
        Op.disassemble 0 code.bytecode = some ops ∧
        ∀ k i bank slot, (k, .plain i) ∈ ops → i.local? = some (bank, slot) →
          slot.toNat + bank.width ≤ code.maxLocals.toNat := by
  refine ⟨fun frames b h => h.marked.greatest, fun m m' pool pool' attributes hm h => ⟨?_, ?_⟩⟩
  · intro b hb
    obtain ⟨i, hi⟩ := Array.mem_iff_getElem?.1 hb
    exact (hm.history i b hi).2
  obtain ⟨-, body, table, _, name, hbody, -, hx, -, rfl, -⟩ := finish_eq_ok.1 h
  obtain ⟨l, ops, hw, -, -, hops, hd, -⟩ := body_exact hm hbody
  obtain ⟨entry, hentry⟩ := hw.exists_block hw.offset?_entry
  have hle := checkMaxima_eq_ok hx
  have hgreatest : Maxima.Greatest m.reachedMaxima
      ⟨(body.toCode table).maxStack.toNat, (body.toCode table).maxLocals.toNat⟩ := by
    rw [Body.toCode, toNat_ofNat_u16 hle.1, toNat_ofNat_u16 hle.2]
    exact greatest_of_body hbody
  have hmarked : ∀ id b, Reaches m.blocks id → m.blocks[id.index]? = some b →
      ∃ frames, Block.Marked frames b ∧ b.maxima.locals ≤ (body.toCode table).maxLocals.toNat := by
    intro id b hr hb
    obtain ⟨frames, hf⟩ := (hm.history _ b hb).2
    exact ⟨frames, hf.marked, hgreatest.locals_le ⟨id, b, hr, hb, rfl⟩⟩
  refine ⟨name, body.toCode table, entry, ops, rfl, hgreatest, hentry, ?_, hops, ?_⟩
  · obtain ⟨frames, hf, hb⟩ := hmarked _ entry .entry hentry
    exact (hf.greatest.locals_le ⟨_, hf.entered, rfl⟩).trans hb
  · intro k i bank slot hk hi
    obtain ⟨b, hb, hib⟩ := hd.plain k i hk
    obtain ⟨id, hr, hb⟩ := hw.body_mem_iff.1 hb
    obtain ⟨frames, hf, hb⟩ := hmarked id b hr hb
    exact (hf.moved i (List.mem_reverse.1 hib) bank slot hi).trans hb

/-- A block out of reach whose stack is deeper than all others. -/
def aside : MethodDraft := (carry.newBlock [.double] [.long, .long, .integer]).2

theorem aside_reachable : aside.Reachable := carry_reachable.newBlock _ _

theorem finish_aside :
    ∃ attributes m' pool', aside.finish .empty = (.ok (attributes, m'), pool') := by
  have hl : aside.layout = .ok (#[some 0, some 3, none],
      ⟨#[16, 7, 0x3d, 0x1c, 0x57, 0x1e, 0x58, 0xa7, 0, 0], [⟨8, .known (-4)⟩], [⟨1⟩], ⟨2, 3⟩⟩) := by
    refine (Layout.run_new (by decide) rfl rfl).trans ?_
    refine (Layout.run_new (by decide) rfl rfl).trans ?_
    refine (Layout.run_placed rfl).trans ?_
    exact Layout.run_nil
  have hb := body_of_layout hl rfl (jumpTargets_of_sorted rfl (by decide)) rfl
  exact exists_finish_of_body rfl hb rfl rfl

/-- The block out of reach takes five slots, and the method two. -/
theorem maxima_of_finish_aside :
    aside.Reachable ∧ aside.blocks.toList.map Block.maxima = [⟨1, 3⟩, ⟨2, 3⟩, ⟨5, 2⟩] ∧
    (∃ frames, Block.History frames aside.blocks[0] ∧
      Maxima.Greatest {s | ∃ f ∈ frames, f.slots = s} ⟨1, 3⟩) ∧
    ∃ attributes m' pool', aside.finish .empty = (.ok (attributes, m'), pool') ∧
      ∃ (name : Index .utf8) (code : Code), attributes = [⟨name, code.write⟩] ∧
        Maxima.Greatest aside.reachedMaxima ⟨code.maxStack.toNat, code.maxLocals.toNat⟩ := by
  obtain ⟨hblock, hmethod⟩ := maxima_of_finish
  obtain ⟨attributes, m', pool', hf⟩ := finish_aside
  obtain ⟨hhistory, name, code, _, _, ha, hg, -⟩ := hmethod _ _ _ _ _ aside_reachable hf
  have hmem : aside.blocks[0] ∈ aside.blocks := Array.getElem_mem (by decide)
  obtain ⟨frames, hh⟩ := hhistory _ hmem
  exact ⟨aside_reachable, rfl, ⟨frames, hh, hblock _ _ hh⟩, attributes, m', pool', hf, name, code, ha, hg⟩

end MethodDraft

end ClassForge
