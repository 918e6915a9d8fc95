import ClassForge.Proofs.Assembly.Acceptance
import Mathlib.Data.Set.Function
import Mathlib.Data.List.Sort

/-!
# Blocks under other numbers

The code of a method does not depend on the numbers of its blocks, nor on blocks that control never
comes to. Two drafts whose reachable blocks match under a renaming go through the same walk, so that
they are finished alike: with the same attributes, or with errors of the same kind. The main result is
`MethodDraft.finish_renamed`.
-/

namespace ClassForge

/-- Both errors tell of the same thing, of one block or of another. -/
def Error.SameKind (e e' : Error) : Prop := e.ctorIdx = e'.ctorIdx

/-- Both computations give related results, or both fail with errors of one kind. -/
inductive Alike {α β : Type} (R : α → β → Prop) : Except Error α → Except Error β → Prop
  | ok {a b} : R a b → Alike R (.ok a) (.ok b)
  | error {e e'} : e.SameKind e' → Alike R (.error e) (.error e')

namespace Alike

variable {α β γ δ : Type} {R : α → β → Prop} {S : γ → δ → Prop}

theorem of_eq {x y : Except Error α} (h : x = y) : Alike Eq x y := by
  subst h
  cases x with
  | error e => exact .error rfl
  | ok a => exact .ok rfl

theorem bind {x : Except Error α} {y : Except Error β} {f : α → Except Error γ}
    {g : β → Except Error δ} (h : Alike R x y)
    (hf : ∀ a b, x = .ok a → y = .ok b → R a b → Alike S (f a) (g b)) :
    Alike S (x >>= f) (y >>= g) := by
  cases h with
  | ok hr => exact hf _ _ rfl rfl hr
  | error he => exact .error he

end Alike

/-! ## Renaming what an emission names -/

variable {σ : BlockId → BlockId}

def Ending.rename (σ : BlockId → BlockId) : Ending → Ending
  | ret opcode => ret opcode
  | jump target => jump (σ target)
  | branch condition ifTrue ifFalse => branch condition (σ ifTrue) (σ ifFalse)

@[simp] theorem Ending.targets_rename (ending : Ending) :
    (ending.rename σ).targets = ending.targets.map σ := by
  cases ending <;> rfl

def Task.rename (σ : BlockId → BlockId) : Task → Task
  | reach b => reach (σ b)
  | placeIfNew b => placeIfNew (σ b)

@[simp] theorem Task.block_rename (task : Task) : (task.rename σ).block = σ task.block := by
  cases task <;> rfl

def PatchValue.rename (σ : BlockId → BlockId) : PatchValue → PatchValue
  | known value => known value
  | jump target origin => jump (σ target) origin

def Patch.rename (σ : BlockId → BlockId) (p : Patch) : Patch := { p with value := p.value.rename σ }

namespace Emission

def rename (σ : BlockId → BlockId) (e : Emission) : Emission :=
  { e with patches := e.patches.map (Patch.rename σ), targets := e.targets.map σ }

@[simp] theorem code_rename (e : Emission) : (e.rename σ).code = e.code := rfl

theorem checkLength_alike (e : Emission) (id id' : BlockId) :
    Alike (fun r r' => r' = r.rename σ) (e.checkLength id) ((e.rename σ).checkLength id') := by
  unfold checkLength
  rw [code_rename]
  split
  · exact .error rfl
  · exact .ok rfl

theorem emitGoto_alike (e : Emission) (target : BlockId) (offset : Nat) :
    Alike (fun r r' => r' = r.rename σ) (e.emitGoto target offset)
      ((e.rename σ).emitGoto (σ target) offset) := by
  refine (Alike.of_eq rfl).bind fun distance _ _ _ hd => ?_
  subst hd
  exact checkLength_alike _ target (σ target)

end Emission

/-! ## Drafts that differ in their numbers -/

/-- The blocks differ in their numbers only. -/
structure Block.Renamed (σ : BlockId → BlockId) (b b' : Block) : Prop where
  entry : b'.entry = b.entry
  frame : b'.frame = b.frame
  code : b'.code = b.code
  maxima : b'.maxima = b.maxima
  ending : b'.ending = b.ending.map (Ending.rename σ)

/-- The blocks that control can come to match one another under `σ`. -/
structure Renaming (σ : BlockId → BlockId) (blocks blocks' : Array Block) : Prop where
  bijOn : Set.BijOn σ {id | Reaches blocks id} {id | Reaches blocks' id}
  entry : σ .entry = .entry
  block : ∀ id, Reaches blocks id → ∃ b b', blocks[id.index]? = some b ∧
    blocks'[(σ id).index]? = some b' ∧ b.Renamed σ b'

variable {blocks blocks' : Array Block} {b b' : Block} {id : BlockId}

theorem Emission.emitBody_rename (e : Emission) (h : b.Renamed σ b') :
    (e.rename σ).emitBody b' = (e.emitBody b).rename σ := by
  simp only [Emission.emitBody, Emission.rename, h.code, h.maxima]

theorem Block.Renamed.ending_eq {ending : Ending} (h : b.Renamed σ b') (he : b.ending = some ending) :
    b'.ending = some (ending.rename σ) := by
  rw [h.ending, he]
  rfl

/-- To match two drafts it is enough that no two blocks go to one. -/
theorem Renaming.of_injOn (injOn : Set.InjOn σ {id | Reaches blocks id}) (entry : σ .entry = .entry)
    (block : ∀ id, Reaches blocks id → ∃ b b', blocks[id.index]? = some b ∧
      blocks'[(σ id).index]? = some b' ∧ b.Renamed σ b') : Renaming σ blocks blocks' := by
  refine ⟨⟨fun id hid => ?_, injOn, fun id' hid' => ?_⟩, entry, block⟩
  · change Reaches blocks' (σ id)
    induction hid with
    | entry =>
        rw [entry]
        exact .entry
    | @edge id b ending t hid hb he ht ih =>
        obtain ⟨b, b', hb₁, hb', hr⟩ := block id hid
        rw [hb] at hb₁
        cases hb₁
        exact .edge ih hb' (hr.ending_eq he) (by simpa using ⟨t, ht, rfl⟩)
  · change ∃ id, Reaches blocks id ∧ σ id = id'
    induction hid' with
    | entry => exact ⟨.entry, .entry, entry⟩
    | @edge _ b₁ ending' t' _ hb₁ he' ht' ih =>
        obtain ⟨id, hid, rfl⟩ := ih
        obtain ⟨b, b', hb, hb', hr⟩ := block id hid
        rw [hb₁] at hb'
        cases hb'
        rw [hr.ending] at he'
        obtain ⟨ending, he, rfl⟩ := Option.map_eq_some_iff.1 he'
        rw [Ending.targets_rename] at ht'
        obtain ⟨t, ht, rfl⟩ := List.mem_map.1 ht'
        exact ⟨t, .edge hid hb he ht, rfl⟩

namespace Renaming

variable (h : Renaming σ blocks blocks')

include h

theorem checkEdge_alike {t : BlockId} (hr : b.Renamed σ b') (ht : Reaches blocks t) :
    Alike Eq (b.checkEdge blocks t) (b'.checkEdge blocks' (σ t)) := by
  obtain ⟨c, c', hc, hc', hrc⟩ := h.block t ht
  simp only [Block.checkEdge, hc, hc', hr.frame, hrc.entry]
  split
  · exact .ok rfl
  · exact .error rfl

theorem layOut_alike (hr : b.Renamed σ b') (hb : blocks[id.index]? = some b) (hid : Reaches blocks id)
    (e : Emission) :
    Alike (fun r r' => r' = (r.1.map (Task.rename σ), r.2.rename σ)) (b.layOut blocks e)
      (b'.layOut blocks' (e.rename σ)) := by
  have hedge : ∀ {ending t}, b.ending = some ending → t ∈ ending.targets →
      Alike Eq (b.checkEdge blocks t) (b'.checkEdge blocks' (σ t)) := fun he ht =>
    h.checkEdge_alike hr (.edge hid hb he ht)
  unfold Block.layOut
  rw [Emission.emitBody_rename e hr]
  cases he : b.ending with
  | none =>
      rw [hr.ending, he]
      exact .error rfl
  | some ending =>
      rw [hr.ending_eq he]
      cases ending with
      | ret opcode =>
          refine (Emission.checkLength_alike _ b.id b'.id).bind fun r r' _ _ h' => ?_
          subst h'
          exact .ok rfl
      | jump t =>
          refine (hedge he (by simp [Ending.targets])).bind fun _ _ _ _ _ => ?_
          refine (Emission.checkLength_alike _ b.id b'.id).bind fun r r' _ _ h' => ?_
          subst h'
          exact .ok rfl
      | branch condition t f =>
          refine (hedge he (by simp [Ending.targets])).bind fun _ _ _ _ _ => ?_
          refine (hedge he (by simp [Ending.targets])).bind fun _ _ _ _ _ => ?_
          cases condition.negatedOpcode? with
          | none => exact .error rfl
          | some opcode =>
              refine (Emission.checkLength_alike _ b.id b'.id).bind fun r r' _ _ h' => ?_
              subst h'
              exact .ok rfl

end Renaming

/-! ## One step of the run -/

theorem Emission.revisit_alike (e : Emission) (offset : Nat) (task : Task) :
    Alike (fun r r' => r' = r.rename σ) (e.revisit offset task)
      ((e.rename σ).revisit offset (task.rename σ)) := by
  cases task with
  | placeIfNew _ => exact .ok rfl
  | reach target => exact e.emitGoto_alike target offset

/-- The blocks have the same places, under their own numbers. -/
structure Placement.Renamed (σ : BlockId → BlockId) (blocks blocks' : Array Block)
    (p p' : Placement) : Prop where
  size : p.size = blocks.size
  size' : p'.size = blocks'.size
  offset : ∀ id, Reaches blocks id → p'.offset? (σ id) = p.offset? id

namespace Renaming

variable (h : Renaming σ blocks blocks')

include h

theorem placement_set {p p' : Placement} (hp : p.Renamed σ blocks blocks' p') (hid : Reaches blocks id)
    (hi : id.index < p.size) (hi' : (σ id).index < p'.size) (n : Nat) :
    Placement.Renamed σ blocks blocks' (p.set id.index (some n)) (p'.set (σ id).index (some n)) := by
  refine ⟨by rw [Array.size_set, hp.size], by rw [Array.size_set, hp.size'], fun id₁ hid₁ => ?_⟩
  -- no other block goes to the same number
  have hiff : (σ id₁).index = (σ id).index ↔ id₁.index = id.index := by
    rw [← BlockId.mk.injEq, ← BlockId.mk.injEq]
    exact h.bijOn.injOn.eq_iff hid₁ hid
  rw [Placement.offset?_set, Placement.offset?_set, hp.offset id₁ hid₁]
  simp only [hiff]

/-- Both runs take the same steps: where a block has its place, so has the one that it goes to. -/
theorem run_alike {tasks : List Task} {p p' : Placement} {e : Emission}
    (hp : p.Renamed σ blocks blocks' p') (ht : ∀ task ∈ tasks, Reaches blocks task.block) :
    Alike (fun r r' => Placement.Renamed σ blocks blocks' r.1 r'.1 ∧ r'.2 = r.2.rename σ)
      (Layout.run blocks tasks p e)
      (Layout.run blocks' (tasks.map (Task.rename σ)) p' (e.rename σ)) := by
  match tasks with
  | [] =>
      rw [List.map_nil, Layout.run, Layout.run]
      exact .ok ⟨hp, rfl⟩
  | task :: tasks =>
      obtain ⟨hid, ht⟩ := List.forall_mem_cons.1 ht
      obtain ⟨b, b', hb, hb', hr⟩ := h.block _ hid
      have ho' := hp.offset _ hid
      rw [← Task.block_rename (σ := σ)] at hb' ho'
      cases ho : p.offset? task.block with
      | some offset =>
          rw [ho] at ho'
          rw [List.map_cons, Layout.run_placed ho, Layout.run_placed ho']
          refine (e.revisit_alike offset task).bind fun e₁ _ _ _ he => ?_
          subst he
          exact run_alike hp ht
      | none =>
          obtain ⟨hi, -⟩ := Array.getElem?_eq_some_iff.1 hb
          obtain ⟨hi', -⟩ := Array.getElem?_eq_some_iff.1 hb'
          rw [← hp.size] at hi
          rw [← hp.size'] at hi'
          rw [ho] at ho'
          rw [List.map_cons, Layout.run_new hi ho hb, Layout.run_new hi' ho' hb']
          refine (h.layOut_alike hr hb hid e).bind fun r _ hl _ he => ?_
          subst he
          have hlt : Layout.unplaced (p.set task.block.index (some e.code.size)) < Layout.unplaced p :=
            Layout.unplaced_set_lt hi ((Placement.offset?_eq hi).symm.trans ho)
          rw [← List.map_append]
          simp only [Task.block_rename, Emission.code_rename]
          refine run_alike (h.placement_set hp hid hi _ _) fun task' ht' => ?_
          rcases List.mem_append.1 ht' with ht' | ht'
          · exact Block.layOut_reaches hid hb hl task' ht'
          · exact ht task' ht'
termination_by (Layout.unplaced p, tasks.length)

end Renaming

/-! ## Patches -/

namespace Patch

variable {placement placement' : Placement}

theorem apply_alike {p : Patch} (hp : placement.Renamed σ blocks blocks' placement')
    (ht : ∀ t origin, p.value = .jump t origin → Reaches blocks t) (code : Array UInt8) :
    Alike Eq (p.apply placement code) ((p.rename σ).apply placement' code) := by
  have hresolve : Alike Eq (p.resolve placement) ((p.rename σ).resolve placement') := by
    cases hv : p.value with
    | known value =>
        simp only [resolve, rename, PatchValue.rename, hv]
        exact .ok rfl
    | jump t origin =>
        simp only [resolve, rename, PatchValue.rename, hv, hp.offset t (ht t origin hv)]
        cases placement.offset? t with
        | none => exact .error rfl
        | some offset => exact .of_eq rfl
  refine hresolve.bind fun value _ _ _ hvalue => ?_
  subst hvalue
  exact .of_eq rfl

theorem foldlM_alike {patches : List Patch} (hp : placement.Renamed σ blocks blocks' placement')
    (ht : ∀ p ∈ patches, ∀ t origin, p.value = .jump t origin → Reaches blocks t)
    (code : Array UInt8) :
    Alike Eq (patches.foldlM (fun code p => p.apply placement code) code)
      ((patches.map (rename σ)).foldlM (fun code p => p.apply placement' code) code) := by
  induction patches generalizing code with
  | nil => exact .ok rfl
  | cons p patches ih =>
      obtain ⟨hfirst, hrest⟩ := List.forall_mem_cons.1 ht
      rw [List.map_cons, List.foldlM_cons, List.foldlM_cons]
      refine (apply_alike hp hfirst code).bind fun code' _ _ _ hcode => ?_
      subst hcode
      exact ih hrest code'

end Patch

/-! ## Frames -/

theorem Frame.At.unique {n n' : Nat} {f f' : StackMapFrame} {y : Nat × Frame}
    (h : Frame.At (n, f) y) (h' : Frame.At (n', f') y) :
    n = n' ∧ (f.delta = f'.delta → f = f') :=
  ⟨h.1.trans h'.1.symm, fun hd => h.2.trans ((congrArg _ hd).trans h'.2.symm)⟩

/-- The distances of a table are those between its offsets. -/
theorem StackMapTable.eq_of_located {before : Option Nat} {table table' : StackMapTable}
    {ys : List (Nat × Frame)} (h : List.Forall₂ Frame.At (table.locatedFrom before) ys)
    (h' : List.Forall₂ Frame.At (table'.locatedFrom before) ys) : table = table' := by
  induction table generalizing before table' ys with
  | nil => cases before <;> cases h <;> cases table' <;> cases h' <;> rfl
  | cons f table ih =>
      cases table' with
      | nil => cases before <;> cases h' <;> cases h
      | cons f' table' =>
          cases before with
          | none =>
              cases h with
              | cons hat hrest =>
                  cases h' with
                  | cons hat' hrest' =>
                      obtain ⟨hn, hf⟩ := hat.unique hat'
                      obtain rfl := hf (UInt16.toNat_inj.1 hn)
                      rw [ih hrest hrest']
          | some n =>
              cases h with
              | cons hat hrest =>
                  cases h' with
                  | cons hat' hrest' =>
                      obtain ⟨hn, hf⟩ := hat.unique hat'
                      obtain rfl := hf (UInt16.toNat_inj.1 (by omega))
                      rw [ih hrest hrest']

namespace MethodDraft

theorem eq_of_framesFrom {xs : List (Nat × Frame)} {table : StackMapTable}
    (h : framesFrom none xs = .ok table) (hs : xs.Pairwise fun a b => a.1 ≤ b.1)
    (hb : ∀ x ∈ xs, x.1 ≤ 65535) {a b : Nat × Frame} (ha : a ∈ xs) (hb' : b ∈ xs)
    (hab : a.1 = b.1) : a = b := by
  obtain ⟨ys, hy, hmem, -⟩ := framesFrom_none h hs hb
  have hnodup : (ys.map Prod.fst).Nodup := List.pairwise_map.2 (hy.imp Nat.ne_of_lt)
  exact List.inj_on_of_nodup_map hnodup ((hmem a).2 ha) ((hmem b).2 hb') hab

theorem eq_of_increasing {xs ys : List (Nat × Frame)} (hx : xs.Pairwise fun a b => a.1 < b.1)
    (hy : ys.Pairwise fun a b => a.1 < b.1) (h : ∀ x, x ∈ xs ↔ x ∈ ys) : xs = ys := by
  have : Std.Irrefl fun a b : Nat × Frame => a.1 < b.1 := ⟨fun a => Nat.lt_irrefl a.1⟩
  have : Std.Antisymm fun a b : Nat × Frame => a.1 < b.1 :=
    ⟨fun a b hab hba => absurd hab (Nat.lt_asymm hba)⟩
  exact hx.eq_of_mem_iff hy h

/-- The table depends on the frames and their offsets, not on their order within one offset. -/
theorem framesFrom_alike {xs ys : List (Nat × Frame)} (hx : xs.Pairwise fun a b => a.1 ≤ b.1)
    (hy : ys.Pairwise fun a b => a.1 ≤ b.1) (hmem : ∀ x, x ∈ ys ↔ x ∈ xs)
    (hb : ∀ x ∈ xs, x.1 ≤ 65535) : Alike Eq (framesFrom none xs) (framesFrom none ys) := by
  have hb' : ∀ y ∈ ys, y.1 ≤ 65535 := fun y hy => hb y ((hmem y).1 hy)
  cases hfx : framesFrom none xs with
  | ok table =>
      cases hfy : framesFrom none ys with
      | ok table' =>
          obtain ⟨zs, hz, hzx, hat⟩ := framesFrom_none hfx hx hb
          obtain ⟨zs', hz', hzy, hat'⟩ := framesFrom_none hfy hy hb'
          obtain rfl : zs = zs' := eq_of_increasing hz hz' fun x => by rw [hzx, hzy, hmem]
          exact .ok (StackMapTable.eq_of_located hat hat')
      | error err =>
          obtain ⟨a, ha, b, hb₁, hab, hne, -⟩ := conflict_of_framesFrom hfy
          exact absurd (congrArg Prod.snd
            (eq_of_framesFrom hfx hx hb ((hmem a).1 ha) ((hmem b).1 hb₁) hab)) hne
  | error err =>
      obtain ⟨a, ha, b, hb₁, hab, hne, rfl⟩ := conflict_of_framesFrom hfx
      cases hfy : framesFrom none ys with
      | ok table' =>
          exact absurd (congrArg Prod.snd
            (eq_of_framesFrom hfy hy hb' ((hmem a).2 ha) ((hmem b).2 hb₁) hab)) hne
      | error err' =>
          obtain ⟨-, -, -, -, -, -, rfl⟩ := conflict_of_framesFrom hfy
          exact .error rfl

variable {m m' : MethodDraft} {placement placement' : Placement} {e : Emission}

theorem layout_alike (h : Renaming σ m.blocks m'.blocks) :
    Alike (fun r r' => Placement.Renamed σ m.blocks m'.blocks r.1 r'.1 ∧ r'.2 = r.2.rename σ)
      m.layout m'.layout := by
  have hstart : Placement.Renamed σ m.blocks m'.blocks (Array.replicate m.blocks.size none)
      (Array.replicate m'.blocks.size none) :=
    ⟨Array.size_replicate, Array.size_replicate, fun id _ => by
      rw [Placement.offset?_replicate, Placement.offset?_replicate]⟩
  have hentry : ∀ task ∈ [Task.reach .entry], Reaches m.blocks task.block := by
    simpa [Task.block] using Reaches.entry
  have hrun := h.run_alike (e := .empty) hstart hentry
  rwa [List.map_singleton, Task.rename, h.entry] at hrun

theorem mem_destinations_renamed {xs xs' : List (Nat × Frame)}
    (h : Renaming σ m.blocks m'.blocks)
    (hp : placement.Renamed σ m.blocks m'.blocks placement')
    (ht : ∀ t ∈ e.targets, Reaches m.blocks t) (hx : m.Destinations placement e.targets xs)
    (hx' : m'.Destinations placement' (e.rename σ).targets xs') {x : Nat × Frame} :
    x ∈ xs' ↔ x ∈ xs := by
  rw [hx.mem_iff, hx'.mem_iff]
  constructor
  · rintro ⟨t', ht', b₁, hb₁, ho, he⟩
    obtain ⟨t, hmem, rfl⟩ := List.mem_map.1 ht'
    obtain ⟨b, b', hb, hb', hr⟩ := h.block t (ht t hmem)
    rw [hb₁] at hb'
    cases hb'
    exact ⟨t, hmem, b, hb, (hp.offset t (ht t hmem)).symm.trans ho, hr.entry.symm.trans he⟩
  · rintro ⟨t, hmem, b₁, hb₁, ho, he⟩
    obtain ⟨b, b', hb, hb', hr⟩ := h.block t (ht t hmem)
    rw [hb₁] at hb
    cases hb
    exact ⟨σ t, List.mem_map_of_mem hmem, b', hb', (hp.offset t (ht t hmem)).trans ho,
      hr.entry.trans he⟩

theorem body_alike (hm : m.Reachable) (hm' : m'.Reachable) (h : Renaming σ m.blocks m'.blocks) :
    Alike Eq m.body m'.body := by
  refine (layout_alike h).bind fun r r' hl hl' hr => ?_
  obtain ⟨placement, e⟩ := r
  obtain ⟨placement', e'⟩ := r'
  obtain ⟨hp, he⟩ := hr
  subst he
  obtain ⟨l, hw, hh⟩ := layout_eq_ok hl
  obtain ⟨l', hw', hh'⟩ := layout_eq_ok hl'
  -- everything that is jumped to can be reached
  have hlisted : ∀ t ∈ l.targets, Reaches m.blocks t := fun t ht =>
    (hw.mem_iff t).1 (hw.target_listed ht)
  have htargets : ∀ t ∈ e.targets, Reaches m.blocks t := fun t ht =>
    hlisted t (by rw [Listing.targets, ← hh.renders.targets]; exact List.mem_reverse.2 ht)
  have hpatches : ∀ p ∈ e.patches.reverse, ∀ t origin, p.value = .jump t origin →
      Reaches m.blocks t := by
    intro p hmem t origin hv
    obtain ⟨j, hj, hs⟩ := exists_of_forall₂ hh.renders.patches hmem
    rcases hs.value with hv' | ⟨_, _, -, -, hv'⟩
    · rw [hv] at hv'
      cases hv'
      exact hlisted _ (Piece.target_of_mem_jumps hj)
    · rw [hv] at hv'
      cases hv'
  obtain ⟨xs, hxs, hx⟩ := exists_destinations hm.supported hh.size (placed_le hw hh) e.targets
  obtain ⟨xs', hxs', hx'⟩ :=
    exists_destinations hm'.supported hh'.size (placed_le hw' hh') (e.rename σ).targets
  have hpatch := Patch.foldlM_alike hp hpatches e.code
  rw [List.map_reverse] at hpatch
  refine hpatch.bind fun code _ _ _ hc => ?_
  subst hc
  rw [hxs, hxs']
  refine (framesFrom_alike hx.sorted hx'.sorted
    (fun x => mem_destinations_renamed h hp htargets hx hx') hx.limit).bind fun frames _ _ _ hf => ?_
  subst hf
  exact .ok rfl

/-- What is left of the work when the body stands. -/
def attributesOf (body : Body) : Interning (List Attribute) := do
  let attributes ← tableAttributes body.frames
  Interning.ofExcept (checkMaxima body.maxima)
  return [← Pool.attributeFor Code.format (body.toCode attributes)]

theorem finish_eq (hopen : m.finished = false) :
    m.finish = (fun attributes => (attributes, { m with finished := true })) <$>
      (Interning.ofExcept m.body >>= attributesOf) := by
  unfold finish attributesOf
  rw [hopen]
  simp only [map_eq_pure_bind, bind_assoc, pure_bind]
  rfl

/-- Two drafts whose reachable blocks match under a renaming are finished alike: with the same
attributes and the same pool, or with errors of one kind. -/
theorem finish_renamed (hm : m.Reachable) (hm' : m'.Reachable)
    (hopen : m.finished = false) (hopen' : m'.finished = false)
    (h : Renaming σ m.blocks m'.blocks) (pool : Pool) :
    (∃ attributes pool',
      m.finish pool = (.ok (attributes, { m with finished := true }), pool') ∧
      m'.finish pool = (.ok (attributes, { m' with finished := true }), pool')) ∨
    ∃ err err' pool', m.finish pool = (.error err, pool') ∧ m'.finish pool = (.error err', pool') ∧
      err.SameKind err' := by
  have hbody := body_alike hm hm' h
  rw [finish_eq hopen, finish_eq hopen', Interning.map_apply, Interning.map_apply]
  generalize m.body = x at hbody
  generalize m'.body = y at hbody
  cases hbody with
  | error hk => exact Or.inr ⟨_, _, pool, rfl, rfl, hk⟩
  | @ok body _ he =>
      subst he
      -- from here on both do the same
      generalize (Interning.ofExcept (.ok body) >>= attributesOf) pool = r
      obtain ⟨err | attributes, pool'⟩ := r
      · exact Or.inr ⟨err, err, pool', rfl, rfl, rfl⟩
      · exact Or.inl ⟨attributes, pool', rfl, rfl⟩

/-- The blocks of `spin` in another order behind the entry, without the one that is out of reach. -/
def spun : MethodDraft where
  blocks := #[
    { Block.start ⟨0⟩ (.ofLists [] []) none with
      newest := [.pop, .bipush 50], maxima := ⟨1, 0⟩, ending := some (.jump ⟨4⟩) },
    { Block.start ⟨1⟩ (.ofLists [] []) none with ending := some (.ret 0xb1) },
    { Block.start ⟨2⟩ (.ofLists [] []) none with ending := some (.jump ⟨4⟩) },
    { Block.start ⟨3⟩ (.ofLists [] []) none with
      newest := [.bipush 20, .bipush 10], maxima := ⟨2, 0⟩, ending := some (.branch .le ⟨2⟩ ⟨1⟩) },
    { Block.start ⟨4⟩ (.ofLists [] []) none with ending := some (.jump ⟨3⟩) }]
  returns := none
  finished := false

theorem spun_reachable : spun.Reachable := by
  have h := Reachable.start [] none
  have h := (((h.newBlock [] []).newBlock [] []).newBlock [] []).newBlock [] []
  refine h.applyAll
    [(⟨0⟩, .pushInt 50), (⟨0⟩, .pop), (⟨0⟩, .jump ⟨4⟩), (⟨4⟩, .jump ⟨3⟩), (⟨3⟩, .pushInt 10),
      (⟨3⟩, .pushInt 20), (⟨3⟩, .branch .le ⟨2⟩ ⟨1⟩), (⟨2⟩, .jump ⟨4⟩), (⟨1⟩, .returnVoid)]
    .empty ?_
  rfl

/-- The numbers of `spin` as `spun` has them. -/
def respin (id : BlockId) : BlockId := ⟨if id.index = 0 then 0 else 5 - id.index⟩

theorem lt_of_reaches_spin {id : BlockId} (h : Reaches spin.blocks id) : id.index < 5 := by
  have hall : ∀ i < 5, ((spin.blocks[i]?).bind Block.ending).all fun ending =>
      ending.targets.all fun t => t.index < 5 := by decide
  induction h with
  | entry => decide
  | @edge id b ending t _ hb he ht ih =>
      have h := hall id.index ih
      rw [hb, Option.bind_some, he, Option.all_some, List.all_eq_true] at h
      simpa using h t ht

theorem renaming_spin : Renaming respin spin.blocks spun.blocks := by
  refine .of_injOn (fun a ha b hb hab => ?_) rfl fun id hid => ?_
  · have ha := lt_of_reaches_spin ha
    have hb := lt_of_reaches_spin hb
    obtain ⟨a⟩ := a
    obtain ⟨b⟩ := b
    simp only [respin, BlockId.mk.injEq] at ha hb hab ⊢
    split at hab <;> split at hab <;> omega
  · have hlt := lt_of_reaches_spin hid
    obtain ⟨i⟩ := id
    simp only at hlt
    interval_cases i <;> exact ⟨_, _, rfl, rfl, rfl, rfl, rfl, rfl, rfl⟩

theorem finish_renamed_spin :
    spin.Reachable ∧ spun.Reachable ∧ Renaming respin spin.blocks spun.blocks ∧ ∃ pool',
    spin.finish .empty = (.ok (spinAttributes, { spin with finished := true }), pool') ∧
    spun.finish .empty = (.ok (spinAttributes, { spun with finished := true }), pool') := by
  refine ⟨spin_reachable, spun_reachable, renaming_spin, ?_⟩
  rcases finish_renamed spin_reachable spun_reachable rfl rfl renaming_spin .empty with
    ⟨attributes, pool', hspin, hspun⟩ | ⟨err, _, pool', hspin, -⟩
  · rw [finish_spin] at hspin
    cases hspin
    exact ⟨_, finish_spin, hspun⟩
  · rw [finish_spin] at hspin
    cases hspin

end MethodDraft

end ClassForge
