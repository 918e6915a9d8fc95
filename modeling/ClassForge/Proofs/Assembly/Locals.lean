import ClassForge.Proofs.Assembly.Acceptance

/-!
# Where loaded locals come from

A local has its type from the locals that the method starts with, or from a block that reserved it.
Reserving a local writes nothing to it, so a method can be finished though it loads a local that
nothing has written. Where blocks store first to what they reserve, every load on every path finds its
local written. The main result is `MethodDraft.loads_of_finish`.
-/

namespace ClassForge

/-! ## The locals of a block -/

namespace Block

variable {b b' : Block}

/-- The block has a local at the slot that it did not start with. -/
def Reserves (b : Block) (slot : Nat) : Prop :=
  b.entry.locals.get? slot = none ∧ (b.frame.locals.get? slot).isSome

/-- Of the instructions that load or store the local, a store comes first. -/
def StoresFirst (b : Block) (slot : UInt16) : Prop :=
  ∃ bank before after, b.instructions = before ++ .store bank slot :: after ∧
    ∀ bank, .load bank slot ∉ before

/-- The locals of the block are those that it started with and the ones that it reserved, and what it
loads is among them. -/
structure Furnished (b : Block) : Prop where
  pushed : b.entry.locals.Pushed
  locals : ∃ reserved, b.frame.locals = b.entry.locals.extend reserved
  loaded : ∀ bank slot, .load bank slot ∈ b.newest →
    ∃ t, b.frame.locals.get? slot.toNat = some t ∧ t ≠ .top

theorem furnished_start (id : BlockId) {entry : Frame} (returns : Option VType)
    (h : entry.locals.Pushed) : (start id entry returns).Furnished :=
  ⟨h, ⟨[], rfl⟩, fun _ _ hl => by cases hl⟩

theorem Furnished.pushed_locals (h : b.Furnished) : b.frame.locals.Pushed := by
  obtain ⟨reserved, hr⟩ := h.locals
  rw [hr]
  exact h.pushed.extend reserved

theorem Step.locals (h : b.Step b') :
    ∃ reserved, b'.frame.locals = b.frame.locals.extend reserved := by
  cases h with
  | @reserve t slot frame _ hf =>
      obtain ⟨-, rfl⟩ := Frame.reserve_eq_ok.1 hf
      exact ⟨[t], rfl⟩
  | emit _ _ hf => exact ⟨[], Frame.locals_of_exchange hf⟩
  | returnVoid _ _ => exact ⟨[], rfl⟩
  | returnValue _ hp _ _ _ => exact ⟨[], Frame.locals_of_pop hp⟩
  | jump _ => exact ⟨[], rfl⟩
  | branch _ hf => exact ⟨[], Frame.locals_of_exchange hf⟩

/-- A command adds at most one instruction, which the locals before it allow. -/
theorem Step.newest (h : b.Step b') :
    b'.newest = b.newest ∨ ∃ i, b'.newest = i :: b.newest ∧ i.Allowed b.frame.locals := by
  cases h with
  | emit _ hi _ => exact Or.inr ⟨_, rfl, hi⟩
  | _ => exact Or.inl rfl

theorem Step.furnished (h : b.Step b') (hb : b.Furnished) : b'.Furnished := by
  obtain ⟨more, hmore⟩ := h.locals
  obtain ⟨reserved, hreserved⟩ := hb.locals
  have hkept : ∀ {slot t}, b.frame.locals.get? slot = some t → b'.frame.locals.get? slot = some t := by
    intro slot t ht
    rw [hmore]
    exact hb.pushed_locals.ordered.get?_extend ht more
  have hold : ∀ bank slot, .load bank slot ∈ b.newest →
      ∃ t, b'.frame.locals.get? slot.toNat = some t ∧ t ≠ .top := by
    intro bank slot hl
    obtain ⟨t, ht, hne⟩ := hb.loaded bank slot hl
    exact ⟨t, hkept ht, hne⟩
  refine ⟨h.entry ▸ hb.pushed, ⟨reserved ++ more, ?_⟩, fun bank slot hl => ?_⟩
  · rw [h.entry, hmore, hreserved]
    exact (List.foldl_append ..).symm
  · rcases h.newest with hn | ⟨i, hn, hi⟩
    · exact hold bank slot (hn ▸ hl)
    · rw [hn] at hl
      rcases List.mem_cons.1 hl with rfl | hl
      · obtain ⟨t, ht, hbank⟩ := hi
        exact ⟨t, hkept ht, by rintro rfl; cases hbank⟩
      · exact hold bank slot hl

theorem Furnished.local_cases {slot : Nat} {t : VType} (h : b.Furnished)
    (ht : b.frame.locals.get? slot = some t) : b.entry.locals.get? slot = some t ∨ b.Reserves slot := by
  obtain ⟨reserved, hr⟩ := h.locals
  cases he : b.entry.locals.get? slot with
  | none => exact Or.inr ⟨he, by rw [ht]; rfl⟩
  | some t' =>
      have hkept := h.pushed.ordered.get?_extend he reserved
      rw [← hr, ht] at hkept
      exact Or.inl hkept.symm

theorem StoresFirst.stored {slot : UInt16} {bank : Bank} {done rest : List Instruction}
    (h : b.StoresFirst slot) (hload : b.instructions = done ++ .load bank slot :: rest) :
    ∃ bank, .store bank slot ∈ done := by
  obtain ⟨bank', before, after, hstore, hnone⟩ := h
  rw [hload] at hstore
  rcases List.append_eq_append_iff.1 hstore with ⟨between, hb, hr⟩ | ⟨between, hd, hr⟩
  · -- the store would come behind the load
    cases between with
    | nil => cases hr
    | cons i between =>
        cases hr
        exact absurd (hb ▸ List.mem_append_right _ List.mem_cons_self) (hnone bank)
  · cases between with
    | nil => cases hr
    | cons i between =>
        cases hr
        exact ⟨bank', hd ▸ List.mem_append_right _ List.mem_cons_self⟩

end Block

/-! ## Paths -/

/-- Control starts at the entry, goes through the blocks `before` and comes to `b`. -/
inductive Path (blocks : Array Block) : List Block → Block → Prop
  | entry {b} : blocks[BlockId.entry.index]? = some b → Path blocks [] b
  | edge {before b ending t b'} : Path blocks before b → b.ending = some ending →
      t ∈ ending.targets → blocks[t.index]? = some b' → Path blocks (before ++ [b]) b'

/-- The method starts with a local at the slot. -/
def StartsWith (blocks : Array Block) (slot : Nat) : Prop :=
  ∃ b, blocks[BlockId.entry.index]? = some b ∧ (b.entry.locals.get? slot).isSome

namespace Path

variable {blocks : Array Block} {before : List Block} {b : Block}

theorem reaches (h : Path blocks before b) :
    ∃ id, Reaches blocks id ∧ blocks[id.index]? = some b := by
  induction h with
  | entry hb => exact ⟨.entry, .entry, hb⟩
  | edge _ he ht hb' ih =>
      obtain ⟨id, hid, hb⟩ := ih
      exact ⟨_, .edge hid hb he ht, hb'⟩

/-- A local that can be used behind a block was there when the method started, or a block on the way
reserved it. -/
theorem source (h : Path blocks before b) (hc : Coherent blocks)
    (hf : ∀ (i : Nat) b, blocks[i]? = some b → b.Furnished) {slot : Nat} {t : VType}
    (ht : b.frame.locals.get? slot = some t) (hne : t ≠ .top) :
    StartsWith blocks slot ∨ ∃ r ∈ before ++ [b], r.Reserves slot := by
  induction h generalizing t with
  | @entry b hb =>
      rcases (hf _ b hb).local_cases ht with ht | hr
      · exact Or.inl ⟨b, hb, by rw [ht]; rfl⟩
      · exact Or.inr ⟨b, List.mem_append_right _ (List.mem_singleton_self b), hr⟩
  | @edge before b ending target b' hp he htarget hb' ih =>
      rcases (hf _ b' hb').local_cases ht with ht | hr
      · -- the edge brought the local along
        obtain ⟨id, hid, hb⟩ := hp.reaches
        obtain ⟨t', ht', hne'⟩ := Frame.exists_local_of_assignable
          (hc.assignable hid hb he htarget hb') (hf _ b' hb').pushed.ordered ht hne
        rcases ih ht' hne' with hs | ⟨r, hr, hres⟩
        · exact Or.inl hs
        · exact Or.inr ⟨r, List.mem_append_left _ hr, hres⟩
      · exact Or.inr ⟨b', List.mem_append_right _ (List.mem_singleton_self b'), hr⟩

end Path

namespace MethodDraft

variable {m m' : MethodDraft} {pool pool' : Pool}

theorem Reachable.furnished (h : m.Reachable) : m.Numbered Block.Furnished :=
  h.numbered_of_frames (Q := fun f => f.locals.Pushed) (fun locals _ => Slots.pushed_ofList locals)
    (fun _ _ hb => hb.pushed_locals) (fun id _ returns he => Block.furnished_start id returns he)
    fun _ _ hs hb => hs.furnished hb

/-- Whatever a finished method loads on a path is one of the locals that it starts with, or a block on
the path reserved it. Reserving does not write; but where that block stores to it first, it is written
by the time of the load. -/
theorem loads_of_finish {attributes : List Attribute} (hm : m.Reachable)
    (h : m.finish pool = (.ok (attributes, m'), pool')) {before : List Block} {b : Block}
    (hp : Path m.blocks before b) {done rest : List Instruction} {bank : Bank} {slot : UInt16}
    (hload : b.instructions = done ++ .load bank slot :: rest) :
    (StartsWith m.blocks slot.toNat ∨ ∃ r ∈ before ++ [b], r.Reserves slot.toNat) ∧
    ((∀ r ∈ before ++ [b], r.Reserves slot.toNat → r.StoresFirst slot) →
      StartsWith m.blocks slot.toNat ∨
        ∃ bank, .store bank slot ∈ before.flatMap Block.instructions ++ done) := by
  obtain ⟨-, body, _, _, _, hbody, -⟩ := finish_eq_ok.1 h
  have hf := fun i b hb => (hm.furnished i b hb).2
  have hl : .load bank slot ∈ b.instructions := hload ▸ List.mem_append_right _ List.mem_cons_self
  obtain ⟨id, -, hb⟩ := hp.reaches
  obtain ⟨t, ht, hne⟩ := (hf _ b hb).loaded bank slot (List.mem_reverse.1 hl)
  have hsource := hp.source (coherent_of_body hbody) hf ht hne
  refine ⟨hsource, fun hfirst => hsource.imp_right ?_⟩
  rintro ⟨r, hr, hres⟩
  have hstores := hfirst r hr hres
  rcases List.mem_append.1 hr with hr | hr
  · obtain ⟨bank', start, _, hsplit, -⟩ := hstores
    refine ⟨bank', List.mem_append_left _ (List.mem_flatMap.2 ⟨r, hr, ?_⟩)⟩
    rw [hsplit]
    exact List.mem_append_right _ List.mem_cons_self
  · obtain rfl := List.mem_singleton.1 hr
    obtain ⟨bank', hs⟩ := hstores.stored hload
    exact ⟨bank', List.mem_append_right _ hs⟩

/-- A local behind the parameter is written before the loop that loads both of them. -/
def carry : MethodDraft where
  blocks := #[
    { Block.start ⟨0⟩ (.ofLists [.long] []) none with
      frame := .ofLists [.long, .integer] [], newest := [.store .int 2, .bipush 7],
      maxima := ⟨1, 3⟩, ending := some (.jump ⟨1⟩) },
    { Block.start ⟨1⟩ (.ofLists [.long, .integer] []) none with
      newest := [.pop2, .load .long 0, .pop, .load .int 2], maxima := ⟨2, 3⟩,
      ending := some (.jump ⟨1⟩) }]
  returns := none
  finished := false

theorem carry_reachable : carry.Reachable := by
  have h := (Reachable.start [.long] none).newBlock [.long, .integer] []
  refine h.applyAll
    [(⟨0⟩, .reserve .integer), (⟨0⟩, .pushInt 7), (⟨0⟩, .store 2), (⟨0⟩, .jump ⟨1⟩),
      (⟨1⟩, .load 2), (⟨1⟩, .pop), (⟨1⟩, .load 0), (⟨1⟩, .pop), (⟨1⟩, .jump ⟨1⟩)]
    .empty ?_
  rfl

theorem exists_finish_of_body {m : MethodDraft} {body : Body} {info : List UInt8}
    (ho : m.finished = false) (hb : m.body = .ok body) (hx : checkMaxima body.maxima = .ok ())
    (hw : body.frames.write = .ok info) :
    ∃ attributes m' pool', m.finish .empty = (.ok (attributes, m'), pool') := by
  by_cases hf : body.frames = []
  · have hn : Pool.utf8 "Code" .empty = (.ok ⟨1⟩, (Pool.utf8 "Code" .empty).2) := by
      simp [Pool.utf8, Pool.internAs_mk, Pool.empty_eq, Constant.width]
    have ht : tableAttributes body.frames .empty = (.ok [], .empty) := by
      rw [hf]
      rfl
    exact ⟨_, _, _, finish_eq_ok.2 ⟨ho, body, [], _, _, hb, ht, hx, hn, rfl, rfl⟩⟩
  · exact ⟨_, _, _, Prod.ext (finish_empty_of_body ho hb hx hf hw) rfl⟩

theorem finish_carry :
    ∃ attributes m' pool', carry.finish .empty = (.ok (attributes, m'), pool') := by
  have hl : carry.layout = .ok (#[some 0, some 3],
      ⟨#[16, 7, 0x3d, 0x1c, 0x57, 0x1e, 0x58, 0xa7, 0, 0], [⟨8, .known (-4)⟩], [⟨1⟩], ⟨2, 3⟩⟩) := by
    refine (Layout.run_new (by decide) rfl rfl).trans ?_
    refine (Layout.run_new (by decide) rfl rfl).trans ?_
    refine (Layout.run_placed rfl).trans ?_
    exact Layout.run_nil
  have hb := body_of_layout hl rfl (jumpTargets_of_sorted rfl (by decide)) rfl
  exact exists_finish_of_body rfl hb rfl rfl

/-- In the second round of the loop the load finds what the entry stored. -/
theorem loads_of_finish_carry :
    carry.Reachable ∧ (∃ attributes m' pool', carry.finish .empty = (.ok (attributes, m'), pool')) ∧
      Path carry.blocks [carry.blocks[0], carry.blocks[1]] carry.blocks[1] ∧
      (StartsWith carry.blocks 2 ∨
        ∃ bank, .store bank 2 ∈ [carry.blocks[0], carry.blocks[1]].flatMap Block.instructions ++ []) := by
  obtain ⟨attributes, m', pool', hf⟩ := finish_carry
  have hmem : (⟨1⟩ : BlockId) ∈ (Ending.jump ⟨1⟩).targets := List.mem_singleton_self _
  have hp : Path carry.blocks [carry.blocks[0], carry.blocks[1]] carry.blocks[1] :=
    .edge (.edge (.entry rfl) rfl hmem rfl) rfl hmem rfl
  have hload : (carry.blocks[1]).instructions =
      [] ++ .load .int 2 :: [.pop, .load .long 0, .pop2] := rfl
  refine ⟨carry_reachable, ⟨_, _, _, hf⟩, hp, (loads_of_finish carry_reachable hf hp hload).2 ?_⟩
  have hentry : (carry.blocks[0]).StoresFirst 2 := ⟨.int, [.bipush 7], [], rfl, by simp⟩
  have hloop : ¬(carry.blocks[1]).Reserves 2 := fun h => by cases h.1
  simp only [List.cons_append, List.nil_append, List.forall_mem_cons, List.not_mem_nil, false_imp_iff,
    implies_true, and_true]
  exact ⟨fun _ => hentry, fun h => absurd h hloop, fun h => absurd h hloop⟩

/-- The only local is reserved and loaded, but nothing stores to it. -/
def unwritten : MethodDraft where
  blocks := #[
    { Block.start ⟨0⟩ (.ofLists [] []) none with
      frame := .ofLists [.integer] [.integer], newest := [.load .int 0], maxima := ⟨1, 1⟩,
      ending := some (.ret 0xb1) }]
  returns := none
  finished := false

theorem unwritten_reachable : unwritten.Reachable := by
  refine (Reachable.start [] none).applyAll
    [(⟨0⟩, .reserve .integer), (⟨0⟩, .load 0), (⟨0⟩, .returnVoid)] .empty ?_
  rfl

theorem finish_unwritten :
    ∃ attributes m' pool', unwritten.finish .empty = (.ok (attributes, m'), pool') := by
  have hl : unwritten.layout = .ok (#[some 0], ⟨#[0x1a, 0xb1], [], [], ⟨1, 1⟩⟩) := by
    refine (Layout.run_new (by decide) rfl rfl).trans ?_
    exact Layout.run_nil
  have hb := body_of_layout hl rfl (jumpTargets_of_sorted rfl (by decide)) rfl
  exact exists_finish_of_body rfl hb rfl rfl

/-- The method can be finished, and its first instruction loads what was never written. -/
theorem load_of_unwritten :
    unwritten.Reachable ∧
      (∃ attributes m' pool', unwritten.finish .empty = (.ok (attributes, m'), pool')) ∧
      ∃ before b done bank slot rest, Path unwritten.blocks before b ∧
        b.instructions = done ++ .load bank slot :: rest ∧
        ¬(StartsWith unwritten.blocks slot.toNat ∨
          ∃ bank, .store bank slot ∈ before.flatMap Block.instructions ++ done) := by
  refine ⟨unwritten_reachable, finish_unwritten, [], unwritten.blocks[0], [], .int, 0, [],
    .entry rfl, rfl, ?_⟩
  rintro (⟨b, hb, hs⟩ | ⟨bank, hs⟩)
  · cases hb
    cases hs
  · cases hs

end MethodDraft

end ClassForge
