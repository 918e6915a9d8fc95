import ClassForge.Proofs.Assembly.Paths
import ClassForge.Proofs.Assembly.Tables

/-!
# Which drafts can be finished

A draft that can be finished is coherent: what control can come to is sealed, and its edges lead to
blocks that expect what they bring. Of the errors, each names a flaw of the graph that is there, or is
one of the limits which a coherent draft can run into. `MethodDraft.finish_coherent` collects this.
-/

namespace ClassForge

/-- Every block that control can come to is sealed, and its edges lead to blocks that its final frame
can go to. -/
def Coherent (blocks : Array Block) : Prop :=
  ∀ id, Reaches blocks id → ∃ b ending, blocks[id.index]? = some b ∧ b.ending = some ending ∧
    ∀ t ∈ ending.targets, ∃ b', blocks[t.index]? = some b' ∧ b.frame.assignable b'.entry = true

/-- The error tells of something that is wrong at a block which control can come to. -/
inductive Flaw (blocks : Array Block) : Error → Prop
  | missing {id} : Reaches blocks id → blocks[id.index]? = none → Flaw blocks (.unknownBlock id)
  | unsealed {id b} : Reaches blocks id → blocks[id.index]? = some b → b.ending = none →
      Flaw blocks (.notSealed b.id)
  | mismatch {id b ending t b'} : Reaches blocks id → blocks[id.index]? = some b →
      b.ending = some ending → t ∈ ending.targets → blocks[t.index]? = some b' →
      b.frame.assignable b'.entry = false → Flaw blocks (.incompatibleFrames b.id t b.frame b'.entry)

/-- The errors that a method runs into though its graph is in order. -/
inductive Error.IsLimit : Error → Prop
  | code {block offset} : IsLimit (.codeOverflow block offset)
  | jump {origin target} : IsLimit (.jumpOverflow origin target)
  | stack {max} : IsLimit (.maxStackOverflow max)
  | locals {max} : IsLimit (.maxLocalsOverflow max)
  | frames {offset first second} : IsLimit (.conflictingFrames offset first second)
  | pool {constant offset} : IsLimit (.constantPoolOverflow constant offset)

variable {blocks : Array Block} {err : Error}

theorem Coherent.assignable (h : Coherent blocks) {id t : BlockId} {b b' : Block} {ending : Ending}
    (hid : Reaches blocks id) (hb : blocks[id.index]? = some b) (he : b.ending = some ending)
    (ht : t ∈ ending.targets) (hb' : blocks[t.index]? = some b') :
    b.frame.assignable b'.entry = true := by
  obtain ⟨_, _, hc, he', hedges⟩ := h id hid
  rw [hb] at hc
  cases hc
  rw [he] at he'
  cases he'
  obtain ⟨_, hc, ha⟩ := hedges t ht
  rw [hb'] at hc
  cases hc
  exact ha

theorem Coherent.not_flaw (h : Coherent blocks) : ¬Flaw blocks err := by
  intro hf
  cases hf with
  | missing hr hn =>
      obtain ⟨b, _, hb, -, -⟩ := h _ hr
      rw [hn] at hb
      cases hb
  | unsealed hr hb he =>
      obtain ⟨_, _, hb', he', -⟩ := h _ hr
      rw [hb] at hb'
      cases hb'
      rw [he] at he'
      cases he'
  | mismatch hr hb he ht hb' ha =>
      rw [h.assignable hr hb he ht hb'] at ha
      cases ha

theorem coherent_of_forall (h₀ : ∃ b, blocks[BlockId.entry.index]? = some b)
    (h : ∀ b ∈ blocks.toList, ∃ ending, b.ending = some ending ∧
      ∀ t ∈ ending.targets, b.checkEdge blocks t = .ok ()) : Coherent blocks := by
  have hmem : ∀ {id : BlockId} {b : Block}, blocks[id.index]? = some b → b ∈ blocks.toList := fun hb =>
    Array.mem_toList_iff.2 (Array.mem_of_getElem? hb)
  intro id hid
  have hblock : ∃ b, blocks[id.index]? = some b := by
    cases hid with
    | entry => exact h₀
    | edge _ hb he ht =>
        obtain ⟨_, he', hedges⟩ := h _ (hmem hb)
        rw [he] at he'
        cases he'
        obtain ⟨b', hb', -⟩ := Block.checkEdge_eq_ok (hedges _ ht)
        exact ⟨b', hb'⟩
  obtain ⟨b, hb⟩ := hblock
  obtain ⟨ending, he, hedges⟩ := h b (hmem hb)
  exact ⟨b, ending, hb, he, fun t ht => Block.checkEdge_eq_ok (hedges t ht)⟩

/-! ## The layout -/

theorem jumpOffset_eq_error {origin target : Nat} (h : jumpOffset origin target = .error err) :
    err.IsLimit := by
  simp only [jumpOffset] at h
  split at h
  · cases h
  · cases h
    exact .jump

theorem Emission.checkLength_eq_error {e : Emission} {id : BlockId}
    (h : e.checkLength id = .error err) : err.IsLimit := by
  unfold checkLength at h
  split at h
  · cases h
    exact .code
  · cases h

theorem Emission.emitGoto_eq_error {e : Emission} {id : BlockId} {offset : Nat}
    (h : e.emitGoto id offset = .error err) : err.IsLimit := by
  rcases except_bind_eq_error.1 h with h | ⟨_, -, h⟩
  · exact jumpOffset_eq_error h
  · exact checkLength_eq_error h

namespace Block

variable {b : Block} {id t : BlockId} {ending : Ending}

/-- Blocks branch by the one condition that has an instruction. -/
def Supported (b : Block) : Prop :=
  ∀ condition ifTrue ifFalse, b.ending = some (.branch condition ifTrue ifFalse) → condition = .le

theorem supported_start (id : BlockId) (entry : Frame) (returns : Option VType) :
    (start id entry returns).Supported := fun _ _ _ h => by cases h

theorem Step.supported {b' : Block} (h : b.Step b') (hb : b.Supported) : b'.Supported := by
  cases h with
  | reserve _ _ => exact hb
  | emit _ _ _ => exact hb
  | branch _ _ =>
      intro condition ifTrue ifFalse h
      cases h
      rfl
  | _ => exact fun _ _ _ h => by cases h

theorem checkEdge_eq_error (hr : Reaches blocks id) (hb : blocks[id.index]? = some b)
    (he : b.ending = some ending) (ht : t ∈ ending.targets)
    (h : b.checkEdge blocks t = .error err) : Flaw blocks err := by
  unfold checkEdge at h
  split at h
  next hn =>
    cases h
    exact .missing (.edge hr hb he ht) hn
  next b' hb' =>
    split at h
    next => cases h
    next ha =>
      cases h
      exact .mismatch hr hb he ht hb' (by simpa using ha)

theorem layOut_eq_error {e : Emission} (hr : Reaches blocks id) (hb : blocks[id.index]? = some b)
    (hs : b.Supported) (h : b.layOut blocks e = .error err) : Flaw blocks err ∨ err.IsLimit := by
  unfold layOut at h
  cases he : b.ending with
  | none =>
      rw [he] at h
      cases h
      exact Or.inl (.unsealed hr hb he)
  | some ending =>
      cases ending with
      | ret opcode =>
          simp only [he] at h
          rcases except_bind_eq_error.1 h with h | ⟨_, -, h⟩
          · exact Or.inr (Emission.checkLength_eq_error h)
          · cases h
      | jump t =>
          simp only [he] at h
          rcases except_bind_eq_error.1 h with h | ⟨_, -, h⟩
          · exact Or.inl (checkEdge_eq_error hr hb he (by simp [Ending.targets]) h)
          rcases except_bind_eq_error.1 h with h | ⟨_, -, h⟩
          · exact Or.inr (Emission.checkLength_eq_error h)
          · cases h
      | branch condition t f =>
          obtain rfl := hs _ _ _ he
          simp only [he] at h
          rcases except_bind_eq_error.1 h with h | ⟨_, -, h⟩
          · exact Or.inl (checkEdge_eq_error hr hb he (by simp [Ending.targets]) h)
          rcases except_bind_eq_error.1 h with h | ⟨_, -, h⟩
          · exact Or.inl (checkEdge_eq_error hr hb he (by simp [Ending.targets]) h)
          simp only [Condition.negatedOpcode?] at h
          rcases except_bind_eq_error.1 h with h | ⟨_, -, h⟩
          · exact Or.inr (Emission.checkLength_eq_error h)
          · cases h

/-- What a block asks to be placed can be reached from it. -/
theorem layOut_reaches {e e' : Emission} {more : List Task} (hid : Reaches blocks id)
    (hb : blocks[id.index]? = some b) (h : b.layOut blocks e = .ok (more, e')) :
    ∀ task ∈ more, Reaches blocks task.block := by
  intro task htask
  obtain ⟨exit, hd, -⟩ := layOut_eq_ok h
  obtain ⟨ending, he, hmore⟩ := hd.targets_eq
  refine .edge hid hb he ?_
  rw [← hmore]
  exact List.mem_map_of_mem htask

end Block

/-- Tasks lead to blocks that control can come to, so what stops the run is a flaw there or a limit. -/
theorem Layout.run_eq_error {tasks : List Task} {placement : Placement} {e : Emission}
    (hsize : placement.size = blocks.size) (hb : ∀ (i : Nat) b, blocks[i]? = some b → b.Supported)
    (ht : ∀ task ∈ tasks, Reaches blocks task.block)
    (h : Layout.run blocks tasks placement e = .error err) : Flaw blocks err ∨ err.IsLimit := by
  fun_induction Layout.run blocks tasks placement e
  case case1 => cases h
  case case2 ih => exact ih hsize (fun task htask => ht task (List.mem_cons_of_mem _ htask)) h
  case case3 he =>
    cases h
    exact Or.inr (Emission.emitGoto_eq_error he)
  case case4 ih => exact ih hsize (fun task htask => ht task (List.mem_cons_of_mem _ htask)) h
  case case5 hn =>
    cases h
    exact Or.inl (.missing (ht _ List.mem_cons_self) hn)
  case case6 hblock _ he =>
    cases h
    exact Block.layOut_eq_error (ht _ List.mem_cons_self) hblock (hb _ _ hblock) he
  case case7 hblock _ _ he ih =>
    refine ih (by rw [Array.size_set, hsize]) (fun task htask => ?_) h
    rcases List.mem_append.1 htask with htask | htask
    · exact Block.layOut_reaches (ht _ List.mem_cons_self) hblock he task htask
    · exact ht task (List.mem_cons_of_mem _ htask)
  case case8 hi =>
    cases h
    rw [hsize] at hi
    exact Or.inl (.missing (ht _ List.mem_cons_self) (Array.getElem?_eq_none (Nat.le_of_not_lt hi)))

/-! ## Patches and frames -/

theorem Leaves.target_mem {next : Option BlockId} {ending : Ending} {exit : List Piece} {p : Piece}
    {t : BlockId} (h : Leaves next ending exit) (hp : p ∈ exit) (ht : p.target? = some t) :
    t ∈ ending.targets := by
  cases h with
  | ret opcode =>
      obtain rfl := List.mem_singleton.1 hp
      cases ht
  | fall _ => cases hp
  | goto t' =>
      obtain rfl := List.mem_singleton.1 hp
      cases ht
      simp [Ending.targets]
  | compareFall _ =>
      obtain rfl := List.mem_singleton.1 hp
      cases ht
      simp [Ending.targets]
  | compareGoto t' f =>
      rcases List.mem_cons.1 hp with rfl | hp
      · cases ht
        simp [Ending.targets]
      · obtain rfl := List.mem_singleton.1 hp
        cases ht
        simp [Ending.targets]

/-- Every block that is jumped to has its place. -/
theorem Walk.Complete.target_listed {l : Listing} {t : BlockId} (h : Walk.Complete blocks l)
    (ht : t ∈ l.targets) : t ∈ l.ids := by
  obtain ⟨p, hp, hpt⟩ := List.mem_filterMap.1 ht
  obtain ⟨s, hs, hp⟩ := List.mem_flatMap.1 hp
  obtain ⟨l₁, l₂, hl⟩ := List.append_of_mem hs
  obtain ⟨ending, he, hx⟩ := (hl ▸ h.linked).closes
  have hexit : p ∈ s.exit := by
    rcases List.mem_cons.1 hp with rfl | hp
    · cases hpt
    · exact hp
  have hreach : Reaches blocks s.id := (h.mem_iff s.id).1 (List.mem_map_of_mem hs)
  exact (h.mem_iff t).2 (.edge hreach (h.proper.block s hs) he (hx.target_mem hexit hpt))

theorem Piece.target_of_mem_jumps {n : Nat} {ps : List Piece} {j : Nat × BlockId}
    (h : j ∈ Piece.jumps n ps) : j.2 ∈ ps.filterMap Piece.target? := by
  induction ps generalizing n with
  | nil => cases h
  | cons p ps ih =>
      rcases List.mem_append.1 h with h | h
      · obtain ⟨t, ht, hj⟩ : ∃ t, p.target? = some t ∧ j = (n, t) := by
          cases hp : p.target? with
          | none => simp [hp] at h
          | some t => exact ⟨t, rfl, by simpa [hp] using h⟩
        exact List.mem_filterMap.2 ⟨p, List.mem_cons_self, by rw [ht, hj]⟩
      · obtain ⟨q, hq, hqt⟩ := List.mem_filterMap.1 (ih h)
        exact List.mem_filterMap.2 ⟨q, List.mem_cons_of_mem _ hq, hqt⟩

theorem Patch.apply_eq_error {o : BlockId → Option Nat} {placement : Placement} {p : Patch}
    {j : Nat × BlockId} {code : Array UInt8} (hs : p.Serves o j) (ho : ∀ id, placement.offset? id = o id)
    (hj : (o j.2).isSome) (hl : p.location + 1 < code.size)
    (h : p.apply placement code = .error err) : err.IsLimit := by
  rcases except_bind_eq_error.1 h with h | ⟨v, -, h⟩
  · rcases hs.value with hv | ⟨_, _, -, -, hv⟩
    · obtain ⟨n, hn⟩ := Option.isSome_iff_exists.1 hj
      simp only [resolve, hv, ho, hn] at h
      exact jumpOffset_eq_error h
    · simp only [resolve, hv] at h
      cases h
  · rw [dif_pos hl] at h
    cases h

theorem Patch.foldlM_eq_error {placement : Placement} {patches : List Patch} {code : Array UInt8}
    (hp : ∀ p ∈ patches, p.location + 1 < code.size ∧
      ∀ code err, p.location + 1 < code.size → p.apply placement code = .error err → err.IsLimit)
    (h : patches.foldlM (fun code p => p.apply placement code) code = .error err) : err.IsLimit := by
  induction patches generalizing code with
  | nil => cases h
  | cons p patches ih =>
      obtain ⟨⟨hl, hfirst⟩, hrest⟩ := List.forall_mem_cons.1 hp
      rw [List.foldlM_cons] at h
      rcases except_bind_eq_error.1 h with h | ⟨code', hc, h⟩
      · exact hfirst code err hl h
      · refine ih (fun q hq => ?_) h
        rw [size_apply hc]
        exact hrest q hq

namespace MethodDraft

variable {m m' : MethodDraft} {pool pool' : Pool}

theorem conflict_of_framesFrom {before : Option (Nat × Frame)} {xs : List (Nat × Frame)}
    (h : framesFrom before xs = .error err) :
    ∃ a ∈ before.toList ++ xs, ∃ b ∈ xs, a.1 = b.1 ∧ a.2 ≠ b.2 ∧
      err = .conflictingFrames (UInt16.ofNat b.1) a.2 b.2 := by
  induction xs generalizing before with
  | nil => cases before <;> cases h
  | cons x xs ih =>
      cases before with
      | none =>
          rcases except_bind_eq_error.1 h with h | ⟨_, -, h⟩
          · obtain ⟨a, ha, b, hb, hab⟩ := ih h
            exact ⟨a, ha, b, List.mem_cons_of_mem _ hb, hab⟩
          · cases h
      | some p =>
          simp only [framesFrom] at h
          split at h
          next he =>
            split at h
            next hf =>
              obtain ⟨a, ha, b, hb, hab⟩ := ih h
              refine ⟨a, ?_, b, List.mem_cons_of_mem _ hb, hab⟩
              exact List.mem_append.2 ((List.mem_append.1 ha).imp_right (List.mem_cons_of_mem _))
            next hf =>
              cases h
              exact ⟨p, by simp, x, by simp, he, hf, rfl⟩
          next =>
            rcases except_bind_eq_error.1 h with h | ⟨_, -, h⟩
            · obtain ⟨a, ha, b, hb, hab⟩ := ih h
              exact ⟨a, List.mem_append_right _ ha, b, List.mem_cons_of_mem _ hb, hab⟩
            · cases h

theorem framesFrom_eq_error {before : Option (Nat × Frame)} {xs : List (Nat × Frame)}
    (h : framesFrom before xs = .error err) : err.IsLimit := by
  obtain ⟨a, -, b, -, -, -, rfl⟩ := conflict_of_framesFrom h
  exact .frames

theorem full_of_framesFrom {before : Option (Nat × Frame)} {xs : List (Nat × Frame)}
    {table : StackMapTable} (h : framesFrom before xs = .ok table) :
    ∀ f ∈ table, ∃ (frame : Frame) (delta : UInt16), f = frame.stackMapFrame delta := by
  induction xs generalizing before table with
  | nil =>
      cases before <;> cases h <;> simp
  | cons x xs ih =>
      cases before with
      | none =>
          obtain ⟨frames, hf, h⟩ := except_bind_eq_ok.1 h
          cases h
          exact List.forall_mem_cons.2 ⟨⟨_, _, rfl⟩, ih hf⟩
      | some p =>
          simp only [framesFrom] at h
          split at h
          next =>
            split at h
            next => exact ih h
            next => cases h
          next =>
            obtain ⟨frames, hf, h⟩ := except_bind_eq_ok.1 h
            cases h
            exact List.forall_mem_cons.2 ⟨⟨_, _, rfl⟩, ih hf⟩

theorem Reachable.supported (h : m.Reachable) : m.Numbered Block.Supported :=
  h.numbered Block.supported_start fun _ _ hs hb => hs.supported hb

theorem body_eq_error (hm : m.Reachable) (h : m.body = .error err) :
    Flaw m.blocks err ∨ err.IsLimit := by
  rcases except_bind_eq_error.1 h with hl | ⟨⟨placement, e⟩, hl, h⟩
  · refine Layout.run_eq_error Array.size_replicate (fun i b hb => (hm.supported i b hb).2) ?_ hl
    simpa [Task.block] using Reaches.entry
  obtain ⟨l, hw, hh⟩ := layout_eq_ok hl
  right
  rcases except_bind_eq_error.1 h with hp | ⟨code, -, h⟩
  · refine Patch.foldlM_eq_error (fun p hp => ?_) hp
    obtain ⟨j, hj, hs⟩ := exists_of_forall₂ hh.renders.patches hp
    have hlisted := hw.target_listed (Piece.target_of_mem_jumps hj)
    exact ⟨hh.renders.location_lt (List.mem_reverse.1 hp), fun code err hlt he =>
      Patch.apply_eq_error hs hh.offset (Listing.isSome_offset?.2 hlisted) hlt he⟩
  · obtain ⟨xs, hx, -⟩ := exists_destinations hm.supported hh.size (placed_le hw hh) e.targets
    rcases except_bind_eq_error.1 h with hn | ⟨_, -, h⟩
    · rw [hx] at hn
      cases hn
    · rcases except_bind_eq_error.1 h with hf | ⟨frames, -, h⟩
      · exact framesFrom_eq_error hf
      · cases h

theorem exists_write {table : StackMapTable}
    (h : ∀ f ∈ table, ∃ (frame : Frame) (delta : UInt16), f = frame.stackMapFrame delta) :
    ∃ info, table.write = .ok info := by
  have hframes : ∃ frames, table.mapM StackMapFrame.write = .ok frames := by
    induction table with
    | nil => exact ⟨[], rfl⟩
    | cons f table ih =>
        obtain ⟨⟨frame, delta, rfl⟩, htable⟩ := List.forall_mem_cons.1 h
        obtain ⟨frames, hf⟩ := ih htable
        exact ⟨_, by rw [List.mapM_cons, hf]; rfl⟩
  obtain ⟨frames, hf⟩ := hframes
  exact ⟨_, by rw [StackMapTable.write, hf]; rfl⟩

theorem interns_attributeFor_of_ok {α : Type} {R : Error → Prop} {format : BodyFormat α} {content : α}
    {info : List UInt8} (h : format.write content = .ok info) :
    Interning.Interns R (Pool.attributeFor format content) := by
  refine .bind (Pool.interns_internAs _ _) fun name => ?_
  rw [h]
  exact .pure _

theorem checkMaxima_eq_error {maxima : Maxima} (h : checkMaxima maxima = .error err) : err.IsLimit := by
  unfold checkMaxima at h
  split at h
  · cases h
    exact .stack
  · split at h
    · cases h
      exact .locals
    · cases h

/-- What is left of the work when the body stands: the frames are full, so they can be written. -/
theorem interns_tableAttributes_of_body {R : Error → Prop} {body : Body} (h : m.body = .ok body) :
    Interning.Interns R (tableAttributes body.frames) := by
  obtain ⟨_, _, _, -, -, -, ⟨_, -, hf⟩, -⟩ := body_eq_ok h
  obtain ⟨info, hw⟩ := exists_write (full_of_framesFrom hf)
  unfold tableAttributes
  split
  · exact .pure _
  · exact .bind (interns_attributeFor_of_ok hw) fun _ => .pure _

theorem finish_eq_error (hm : m.Reachable) (hs : pool.Sound)
    (h : m.finish pool = (.error err, pool')) :
    err = .alreadyFinished ∧ m.finished = true ∨ Flaw m.blocks err ∨ err.IsLimit := by
  unfold finish at h
  split at h
  next hfin =>
    cases h
    exact Or.inl ⟨rfl, hfin⟩
  next =>
    right
    rcases Interning.bind_cases h with ⟨e, hb, he⟩ | ⟨body, pool₁, hb, h⟩
    · cases he
      exact body_eq_error hm (congrArg Prod.fst hb)
    · obtain ⟨hbody, rfl⟩ := Interning.ofExcept_eq_ok.1 hb
      right
      have hrest := Interning.Interns.error (R := Error.IsLimit) ?_ hs h
      · rcases hrest with hl | ⟨c, next, rfl⟩
        · exact hl
        · exact .pool
      · exact .bind (interns_tableAttributes_of_body hbody) fun _ =>
          .bind (.ofExcept fun _ he => checkMaxima_eq_error he) fun _ =>
            .bind (interns_attributeFor_of_ok rfl) fun _ => .pure _

theorem coherent_of_body {body : Body} (h : m.body = .ok body) : Coherent m.blocks := by
  obtain ⟨_, _, l, hw, -⟩ := body_eq_ok h
  intro id hid
  obtain ⟨s, hs, rfl⟩ := List.mem_map.1 ((hw.mem_iff id).2 hid)
  obtain ⟨l₁, l₂, hl⟩ := List.append_of_mem hs
  obtain ⟨ending, he, -⟩ := (hl ▸ hw.linked).closes
  exact ⟨s.block, ending, hw.proper.block s hs, he, fun t ht =>
    Block.checkEdge_eq_ok (hw.checked s hs ending he t ht)⟩

variable {start : Pool}

/-- The layout of a draft ends within its rounds and keeps inside its tables. A draft that can be
finished is coherent, and a coherent one that is not finished yet fails at a limit only. Patches never lack
their block or lie outside the code, branches have an instruction and frames can be written. -/
theorem finish_coherent (h₀ : start.Origin) (h : start.Served pool) (hm : m.Reachable) :
    m.bodyWithin (2 * m.blocks.size + 1) = Guarded.ofExcept m.body ∧
    (∀ attributes m' pool', m.finish pool = (.ok (attributes, m'), pool') → Coherent m.blocks) ∧
    (m.finished = false → Coherent m.blocks → ∀ err pool', m.finish pool = (.error err, pool') →
      err.IsLimit) ∧
    ∀ err pool', m.finish pool = (.error err, pool') →
      (∀ id, err ≠ .unresolvedPatch id) ∧ (∀ condition, err ≠ .unsupportedCondition condition) ∧
      (∀ cause, err ≠ .unwritable cause) ∧ ∀ location, err ≠ .patchOutsideCode location := by
  have hs := (h.grows h₀.sound).sound
  refine ⟨bodyWithin_eq hm.supported, ?_, ?_, ?_⟩
  · intro attributes m' pool' hf
    obtain ⟨-, body, _, _, _, hb, -⟩ := finish_eq_ok.1 hf
    exact coherent_of_body hb
  · intro hfin hc err pool' hf
    rcases finish_eq_error hm hs hf with ⟨-, hfin'⟩ | hflaw | hlimit
    · rw [hfin] at hfin'
      cases hfin'
    · exact absurd hflaw hc.not_flaw
    · exact hlimit
  · intro err pool' hf
    rcases finish_eq_error hm hs hf with ⟨rfl, -⟩ | hflaw | hlimit
    · simp
    · cases hflaw <;> simp
    · cases hlimit <;> simp

theorem finish_of_body_error {err : Error} (ho : m.finished = false) (hb : m.body = .error err) :
    m.finish pool = (.error err, pool) := by
  simp [finish, ho, bind_apply, Interning.ofExcept, hb]

/-- Two empty blocks `b1` and `b2` fall on one offset and are both jumped to, but they expect
different locals. -/
def clash : MethodDraft where
  blocks := #[
    { Block.start ⟨0⟩ (.ofLists [.integer] []) none with
      newest := [.bipush 20, .bipush 10], maxima := ⟨2, 1⟩, ending := some (.branch .le ⟨1⟩ ⟨3⟩) },
    { Block.start ⟨1⟩ (.ofLists [.integer] []) none with ending := some (.jump ⟨2⟩) },
    { Block.start ⟨2⟩ (.ofLists [.top] []) none with ending := some (.ret 0xb1) },
    { Block.start ⟨3⟩ (.ofLists [.integer] []) none with
      newest := [.bipush 20, .bipush 10], maxima := ⟨2, 1⟩, ending := some (.branch .le ⟨1⟩ ⟨2⟩) }]
  returns := none
  finished := false

theorem clash_reachable : clash.Reachable := by
  have h := Reachable.start [.integer] none
  have h := ((h.newBlock [.integer] []).newBlock [.top] []).newBlock [.integer] []
  refine h.applyAll
    [(⟨0⟩, .pushInt 10), (⟨0⟩, .pushInt 20), (⟨0⟩, .branch .le ⟨1⟩ ⟨3⟩), (⟨1⟩, .jump ⟨2⟩),
      (⟨2⟩, .returnVoid), (⟨3⟩, .pushInt 10), (⟨3⟩, .pushInt 20), (⟨3⟩, .branch .le ⟨1⟩ ⟨2⟩)]
    .empty ?_
  rfl

theorem coherent_clash : Coherent clash.blocks := by
  refine coherent_of_forall ⟨_, rfl⟩ ?_
  have hblocks : clash.blocks.toList = [clash.blocks[0], clash.blocks[1], clash.blocks[2], clash.blocks[3]] := rfl
  simp only [hblocks, List.forall_mem_cons, List.not_mem_nil, false_imp_iff, implies_true, and_true]
  refine ⟨⟨_, rfl, ?_⟩, ⟨_, rfl, ?_⟩, ⟨_, rfl, ?_⟩, ⟨_, rfl, ?_⟩⟩ <;>
    simp only [Ending.targets, List.forall_mem_cons, List.not_mem_nil, false_imp_iff, implies_true,
      and_true]
  · exact ⟨rfl, rfl⟩
  · rfl
  · exact ⟨rfl, rfl⟩

theorem layout_clash : clash.layout = .ok (#[some 0, some 7, some 7, some 8],
    ⟨#[16, 10, 16, 20, 0xa3, 0, 0, 0xb1, 16, 10, 16, 20, 0xa3, 0, 0, 0xa7, 0, 0],
      [⟨16, .known (-8)⟩, ⟨13, .jump ⟨2⟩ 12⟩, ⟨5, .jump ⟨3⟩ 4⟩], [⟨1⟩, ⟨2⟩, ⟨3⟩], ⟨2, 1⟩⟩) := by
  refine (Layout.run_new (by decide) rfl rfl).trans ?_
  refine (Layout.run_new (by decide) rfl rfl).trans ?_
  refine (Layout.run_new (by decide) rfl rfl).trans ?_
  refine (Layout.run_new (by decide) rfl rfl).trans ?_
  refine (Layout.run_placed rfl).trans ?_
  refine (Layout.run_placed rfl).trans ?_
  exact Layout.run_nil

theorem body_clash : clash.body =
    .error (.conflictingFrames 7 (.ofLists [.integer] []) (.ofLists [.top] [])) := by
  refine except_bind_eq_error.2 (Or.inr ⟨_, layout_clash, ?_⟩)
  refine except_bind_eq_error.2 (Or.inr ⟨_, rfl, ?_⟩)
  exact except_bind_eq_error.2 (Or.inr ⟨_, jumpTargets_of_sorted rfl (by decide), rfl⟩)

theorem finish_clash : ∃ err pool', clash.finish .empty = (.error err, pool') :=
  ⟨_, _, finish_of_body_error rfl body_clash⟩

/-- The loop can be finished, so it is coherent. The other draft is coherent too, and fails at a limit. -/
theorem finish_coherent_spin :
    Pool.empty.Origin ∧ spin.Reachable ∧ spin.bodyWithin 13 = Guarded.ofExcept spin.body ∧
      Coherent spin.blocks ∧ clash.Reachable ∧ Coherent clash.blocks ∧
      ∃ err pool', clash.finish .empty = (.error err, pool') ∧ err.IsLimit := by
  obtain ⟨hbody, hok, -⟩ := finish_coherent .empty (@Pool.Served.refl Pool.empty) spin_reachable
  obtain ⟨-, -, hlimit, -⟩ := finish_coherent .empty (@Pool.Served.refl Pool.empty) clash_reachable
  obtain ⟨err, pool', hf⟩ := finish_clash
  exact ⟨.empty, spin_reachable, hbody, hok _ _ _ finish_spin, clash_reachable, coherent_clash, err, pool',
    hf, hlimit rfl coherent_clash _ _ hf⟩

end MethodDraft

end ClassForge
