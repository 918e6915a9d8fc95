import ClassForge.Proofs.Assembly.StackMap

/-!
# The tables of the layout

The layout once more, as a loop over tables: offsets and marks by block number, and the code that is
patched. Here an access outside a table has no result, nor has a loop whose rounds are used up. The main
result is `MethodDraft.bodyWithin_eq`: this never happens.
-/

namespace ClassForge

/-- A computation that gives a value or an error, or stops without either. -/
abbrev Guarded := ExceptT Error Option

namespace Guarded

variable {α β : Type}

def ofExcept (x : Except Error α) : Guarded α := some x

def stop : Guarded α := (none : Option (Except Error α))

def read (table : Array α) (i : Nat) : Guarded α :=
  match table[i]? with
  | some a => pure a
  | none => stop

def write (table : Array α) (i : Nat) (a : α) : Guarded (Array α) :=
  if i < table.size then pure (table.setIfInBounds i a) else stop

theorem read_bind {table : Array α} {i : Nat} {a : α} (h : table[i]? = some a) (f : α → Guarded β) :
    (read table i >>= f) = f a := by
  rw [read, h]
  rfl

theorem write_bind {table : Array α} {i : Nat} (h : i < table.size) (a : α)
    (f : Array α → Guarded β) : (write table i a >>= f) = f (table.setIfInBounds i a) := by
  rw [write, if_pos h]
  rfl

theorem ofExcept_bind {x : Except Error α} {f : α → Except Error β} {g : α → Guarded β}
    (h : ∀ a, x = .ok a → g a = ofExcept (f a)) : (ofExcept x >>= g) = ofExcept (x >>= f) := by
  cases x with
  | error e => rfl
  | ok a => exact h a rfl

theorem mapM_ofExcept {f : α → Except Error β} {g : α → Guarded β} {as : List α}
    (h : ∀ a ∈ as, g a = ofExcept (f a)) : as.mapM g = ofExcept (as.mapM f) := by
  induction as with
  | nil => rfl
  | cons a as ih =>
      obtain ⟨ha, has⟩ := List.forall_mem_cons.1 h
      rw [List.mapM_cons, List.mapM_cons, ha, ih has]
      exact ofExcept_bind fun b _ => ofExcept_bind fun bs _ => rfl

end Guarded

/-! ## Tasks, one in each round -/

namespace Layout

structure State where
  tasks : List Task
  placement : Placement
  /-- Which blocks are jumped to. -/
  jumped : Array Bool
  emission : Emission

/-- A block that is placed only if it is new is jumped to already. -/
def mark (jumped : Array Bool) : Task → Guarded (Array Bool)
  | .reach _ => pure jumped
  | .placeIfNew id => Guarded.write jumped id.index true

/-- Jumps to the block if it has its place, and lays it out if not. -/
def visit (blocks : Array Block) (id : BlockId) (s : State) : Guarded State :=
  match blocks[id.index]? with
  | none => throw (.unknownBlock id)
  | some b => do
    match ← Guarded.read s.placement id.index with
    | some offset =>
      let emission ← Guarded.ofExcept (s.emission.emitGoto id offset)
      let jumped ← Guarded.write s.jumped id.index true
      return { s with jumped, emission }
    | none =>
      let placement ← Guarded.write s.placement id.index (some s.emission.code.size)
      let (more, emission) ← Guarded.ofExcept (b.layOut blocks s.emission)
      let jumped ← more.foldlM mark s.jumped
      return { tasks := more ++ s.tasks, placement, jumped, emission }

def round (blocks : Array Block) (s : State) : Task → Guarded State
  | .reach id => visit blocks id s
  | .placeIfNew id => do
    match ← Guarded.read s.placement id.index with
    | some _ => return s
    | none => visit blocks id s

/-- At most the given number of rounds. -/
def loop (blocks : Array Block) : Nat → State → Guarded State
  | 0, s => if s.tasks.isEmpty then pure s else Guarded.stop
  | n + 1, s =>
    match s.tasks with
    | [] => pure s
    | task :: tasks => do loop blocks n (← round blocks { s with tasks } task)

/-- The table marks the given blocks. -/
structure Marks (n : Nat) (targets : List BlockId) (jumped : Array Bool) : Prop where
  size : jumped.size = n
  iff : ∀ i, jumped[i]? = some true ↔ i < n ∧ ∃ t ∈ targets, t.index = i

/-- The tables have one entry for each block, and blocks that are placed only if they are new exist. -/
structure Fits (blocks : Array Block) (tasks : List Task) (placement : Placement)
    (jumped : Array Bool) (e : Emission) : Prop where
  size : placement.size = blocks.size
  marks : Marks blocks.size e.targets jumped
  queued : ∀ id, .placeIfNew id ∈ tasks → id.index < blocks.size

/-- The loop ends as the layout does. -/
inductive Agrees (blocks : Array Block) : Except Error (Placement × Emission) → Guarded State → Prop
  | error {err : Error} : Agrees blocks (.error err) (throw err)
  | ok {placement jumped} {e : Emission} : Fits blocks [] placement jumped e →
      Agrees blocks (.ok (placement, e)) (pure ⟨[], placement, jumped, e⟩)

variable {blocks : Array Block} {tasks more : List Task} {placement : Placement}
  {jumped : Array Bool} {e e' : Emission} {targets : List BlockId}

theorem Marks.set {n : Nat} (h : Marks n targets jumped) (t : BlockId) :
    Marks n (t :: targets) (jumped.setIfInBounds t.index true) := by
  refine ⟨by rw [Array.size_setIfInBounds, h.size], fun i => ?_⟩
  rw [Array.getElem?_setIfInBounds, h.size]
  by_cases ht : t.index = i
  · by_cases hi : i < n
    · simp [ht, hi]
    · simp [ht, hi]
  · simp [ht, h.iff]

/-- Laying a block out marks the block that its branch jumps to, and queues at most two tasks. -/
theorem layOut_marks {b : Block} (h : b.layOut blocks e = .ok (more, e'))
    (hm : Marks blocks.size e.targets jumped) :
    ∃ jumped', more.foldlM mark jumped = (pure jumped' : Guarded (Array Bool)) ∧
      Marks blocks.size e'.targets jumped' ∧ more.length ≤ 2 ∧
      ∀ id, .placeIfNew id ∈ more → id.index < blocks.size := by
  unfold Block.layOut at h
  cases hb : b.ending with
  | none => rw [hb] at h; cases h
  | some ending =>
      cases ending with
      | ret opcode =>
          simp only [hb] at h
          obtain ⟨e₁, h₁, h⟩ := except_bind_eq_ok.1 h
          obtain ⟨rfl, -⟩ := Emission.checkLength_eq_ok.1 h₁
          cases h
          exact ⟨jumped, rfl, hm, by simp, by simp⟩
      | jump t =>
          simp only [hb] at h
          obtain ⟨⟨⟩, -, h⟩ := except_bind_eq_ok.1 h
          obtain ⟨e₁, h₁, h⟩ := except_bind_eq_ok.1 h
          obtain ⟨rfl, -⟩ := Emission.checkLength_eq_ok.1 h₁
          cases h
          exact ⟨jumped, rfl, hm, by simp, by simp⟩
      | branch condition t f =>
          simp only [hb] at h
          obtain ⟨⟨⟩, -, h⟩ := except_bind_eq_ok.1 h
          obtain ⟨⟨⟩, hf, h⟩ := except_bind_eq_ok.1 h
          obtain ⟨c, hc, -⟩ := Block.checkEdge_eq_ok hf
          obtain ⟨hi, -⟩ := Array.getElem?_eq_some_iff.1 hc
          split at h
          next => cases h
          next =>
            obtain ⟨e₁, h₁, h⟩ := except_bind_eq_ok.1 h
            obtain ⟨rfl, -⟩ := Emission.checkLength_eq_ok.1 h₁
            cases h
            refine ⟨jumped.setIfInBounds f.index true, ?_, hm.set f, by simp, by simpa using hi⟩
            have hmark : Guarded.write jumped f.index true = pure (jumped.setIfInBounds f.index true) := by
              rw [Guarded.write, if_pos (by rw [hm.size]; exact hi)]
            simp [mark, hmark]

section

variable {id : BlockId} {b : Block}

theorem visit_missing (s : State) (h : blocks[id.index]? = none) :
    visit blocks id s = throw (.unknownBlock id) := by
  rw [visit, h]

theorem visit_placed {offset : Nat} (hf : Fits blocks tasks placement jumped e)
    (hp : placement[id.index]? = some (some offset)) :
    visit blocks id ⟨tasks, placement, jumped, e⟩ =
      match e.emitGoto id offset with
      | .error err => throw err
      | .ok e => pure ⟨tasks, placement, jumped.setIfInBounds id.index true, e⟩ := by
  obtain ⟨hi, -⟩ := Array.getElem?_eq_some_iff.1 hp
  rw [hf.size] at hi
  rw [visit, Array.getElem?_eq_getElem hi]
  simp only [Guarded.read_bind hp]
  cases e.emitGoto id offset with
  | error err => rfl
  | ok e' =>
      change (Guarded.write jumped id.index true >>= _) = _
      rw [Guarded.write_bind (by rw [hf.marks.size]; exact hi)]

theorem visit_new (hp : placement[id.index]? = some none)
    (hb : blocks[id.index]? = some b) :
    visit blocks id ⟨tasks, placement, jumped, e⟩ =
      match b.layOut blocks e with
      | .error err => throw err
      | .ok (more, e') => do
        let jumped ← more.foldlM mark jumped
        return ⟨more ++ tasks, placement.setIfInBounds id.index (some e.code.size), jumped, e'⟩ := by
  obtain ⟨hi, -⟩ := Array.getElem?_eq_some_iff.1 hp
  rw [visit, hb]
  simp only [Guarded.read_bind hp]
  rw [Guarded.write_bind hi]
  rcases b.layOut blocks e with err | ⟨more, e'⟩
  · rfl
  · rfl

/-- A block without a place is visited by either task. -/
theorem round_new {task : Task} (hp : placement[task.block.index]? = some none) :
    round blocks ⟨tasks, placement, jumped, e⟩ task =
      visit blocks task.block ⟨tasks, placement, jumped, e⟩ := by
  cases task with
  | reach id => rfl
  | placeIfNew id => exact Guarded.read_bind hp _

end

theorem loop_cons (task : Task) (n : Nat) :
    loop blocks (n + 1) ⟨task :: tasks, placement, jumped, e⟩ =
      round blocks ⟨tasks, placement, jumped, e⟩ task >>= loop blocks n := rfl

theorem Fits.tail {task : Task} (hf : Fits blocks (task :: tasks) placement jumped e) :
    Fits blocks tasks placement jumped e :=
  ⟨hf.size, hf.marks, fun id hid => hf.queued id (List.mem_cons_of_mem _ hid)⟩

theorem Fits.goto {id : BlockId} {offset : Nat} (hf : Fits blocks tasks placement jumped e)
    (h : e.emitGoto id offset = .ok e') :
    Fits blocks tasks placement (jumped.setIfInBounds id.index true) e' := by
  obtain ⟨v, -, h⟩ := except_bind_eq_ok.1 h
  obtain ⟨rfl, -⟩ := Emission.checkLength_eq_ok.1 h
  exact ⟨hf.size, hf.marks.set id, hf.queued⟩

/-- The loop ends within its rounds, for a round takes a task away, and where it adds up to two it places
a block. -/
theorem loop_agrees {n : Nat} (hf : Fits blocks tasks placement jumped e)
    (hn : 2 * unplaced placement + tasks.length ≤ n) :
    Agrees blocks (run blocks tasks placement e) (loop blocks n ⟨tasks, placement, jumped, e⟩) := by
  fun_induction run blocks tasks placement e generalizing n jumped
  case case1 placement e =>
    cases n <;> exact .ok hf
  all_goals
    obtain ⟨n, rfl⟩ : ∃ k, n = k + 1 := ⟨n - 1, by rw [List.length_cons] at hn; omega⟩
    rw [loop_cons]
  case case2 placement e tasks offset f _ hi _ hp ih =>
    have hplace : placement[f.index]? = some (some offset) := Array.getElem?_eq_some_iff.2 ⟨hi, hp⟩
    have hround : round blocks ⟨tasks, placement, jumped, e⟩ (.placeIfNew f) =
        pure ⟨tasks, placement, jumped, e⟩ := Guarded.read_bind hplace _
    rw [hround, pure_bind]
    exact ih hf.tail (by rw [List.length_cons] at hn; omega)
  case case3 placement e tasks offset t err _ hi _ hp he =>
    have hplace : placement[t.index]? = some (some offset) := Array.getElem?_eq_some_iff.2 ⟨hi, hp⟩
    have he : e.emitGoto t offset = .error err := he
    rw [round, visit_placed hf.tail hplace, he]
    exact .error
  case case4 placement e tasks offset t e' _ hi _ hp he ih =>
    have hplace : placement[t.index]? = some (some offset) := Array.getElem?_eq_some_iff.2 ⟨hi, hp⟩
    have he : e.emitGoto t offset = .ok e' := he
    rw [round, visit_placed hf.tail hplace, he]
    exact ih (hf.tail.goto he) (by rw [List.length_cons] at hn; omega)
  case case5 placement e task tasks _ hi hp hb =>
    rw [round_new (Array.getElem?_eq_some_iff.2 ⟨hi, hp⟩), visit_missing _ hb]
    exact .error
  case case6 placement e task tasks _ hi hp b hb err he =>
    have hplace : placement[task.block.index]? = some none := Array.getElem?_eq_some_iff.2 ⟨hi, hp⟩
    rw [round_new hplace, visit_new hplace hb, he]
    exact .error
  case case7 placement e task tasks _ hi hp b hb more e' he ih =>
    have hplace : placement[task.block.index]? = some none := Array.getElem?_eq_some_iff.2 ⟨hi, hp⟩
    obtain ⟨jumped', hmark, hmarks, hlength, hqueued⟩ := layOut_marks he hf.marks
    rw [round_new hplace, visit_new hplace hb, he]
    simp only [hmark, pure_bind]
    rw [Array.setIfInBounds, dif_pos hi]
    refine ih ⟨by rw [Array.size_set, hf.size], hmarks, fun id hid => ?_⟩ ?_
    · rcases List.mem_append.1 hid with hid | hid
      · exact hqueued id hid
      · exact hf.tail.queued id hid
    · have hless := unplaced_set_lt (n := e.code.size) hi hp
      rw [List.length_cons] at hn
      rw [List.length_append]
      omega
  case case8 placement e task tasks _ hi =>
    have hmissing : blocks[task.block.index]? = none := by
      rw [hf.size] at hi
      exact Array.getElem?_eq_none (Nat.le_of_not_lt hi)
    cases task with
    | reach id =>
        have hmissing : blocks[id.index]? = none := hmissing
        rw [round, visit_missing _ hmissing]
        exact .error
    | placeIfNew id => exact absurd (hf.queued id List.mem_cons_self) (by rwa [← hf.size])

end Layout

/-! ## Patches -/

namespace Patch

variable {placement : Placement} {patches : List Patch} {code code' : Array UInt8}

/-- Writes the two bytes of the value, each to its place. -/
def fill (p : Patch) (placement : Placement) (code : Array UInt8) : Guarded (Array UInt8) := do
  let value ← Guarded.ofExcept (p.resolve placement)
  let n := value.toUInt16.toNat
  let code ← Guarded.write code p.location (UInt8.ofNat (n / 256))
  Guarded.write code (p.location + 1) (UInt8.ofNat n)

theorem fill_eq {p : Patch} (h : p.location + 1 < code.size) :
    p.fill placement code = Guarded.ofExcept (p.apply placement code) := by
  refine Guarded.ofExcept_bind fun v _ => ?_
  rw [Guarded.write_bind (by omega), dif_pos h, Guarded.write,
    if_pos (by rwa [Array.size_setIfInBounds])]
  simp only [Array.setIfInBounds, Array.size_set, dif_pos h, dif_pos (Nat.lt_of_succ_lt h)]
  rfl

theorem size_apply {p : Patch} (h : p.apply placement code = .ok code') : code'.size = code.size := by
  unfold Patch.apply at h
  obtain ⟨v, -, h⟩ := except_bind_eq_ok.1 h
  split at h
  · cases h
    simp
  · cases h

theorem foldlM_fill_eq (h : ∀ p ∈ patches, p.location + 1 < code.size) :
    patches.foldlM (fun code p => p.fill placement code) code =
      Guarded.ofExcept (patches.foldlM (fun code p => p.apply placement code) code) := by
  induction patches generalizing code with
  | nil => rfl
  | cons p patches ih =>
      obtain ⟨hp, hps⟩ := List.forall_mem_cons.1 h
      rw [List.foldlM_cons, List.foldlM_cons, fill_eq hp]
      refine Guarded.ofExcept_bind fun code' hc => ih ?_
      rw [size_apply hc]
      exact hps

end Patch

theorem Piece.jumps_le {n : Nat} {ps : List Piece} {j : Nat × BlockId} (h : j ∈ Piece.jumps n ps) :
    j.1 + 3 ≤ n + (ps.flatMap Piece.placeholder).length := by
  induction ps generalizing n with
  | nil => cases h
  | cons p ps ih =>
      rw [List.flatMap_cons, List.length_append]
      rcases List.mem_append.1 h with h | h
      · cases p with
        | body b => cases h
        | ret opcode => cases h
        | goto t =>
            obtain rfl : j = (n, t) := by simpa [Piece.target?] using h
            simp [Piece.placeholder]
        | compare t =>
            obtain rfl : j = (n, t) := by simpa [Piece.target?] using h
            simp [Piece.placeholder]
      · have hj := ih h
        omega

/-- Every patch lies inside the code. -/
theorem Emission.Renders.location_lt {o : BlockId → Option Nat} {ps : List Piece} {e : Emission}
    (h : e.Renders o ps) {p : Patch} (hp : p ∈ e.patches) : p.location + 1 < e.code.size := by
  obtain ⟨j, hj, hs⟩ := exists_of_forall₂ h.patches (List.mem_reverse.2 hp)
  have hle := Piece.jumps_le hj
  rw [hs.location, h.size_eq]
  omega

/-! ## The blocks that are jumped to -/

namespace MethodDraft

variable {m : MethodDraft}

/-- The entry of a placed block that is jumped to. -/
def marked (jumped : Array Bool) (b : Block) : Option Nat → Guarded (Option (Nat × Frame))
  | none => pure none
  | some offset => do
    if ← Guarded.read jumped b.id.index then return some (← Guarded.ofExcept (entryAt b offset))
    else return none

def markedTargets (m : MethodDraft) (placement : Placement) (jumped : Array Bool) :
    Guarded (List (Nat × Frame)) := do
  let found ← (m.blocks.toList.zip placement.toList).mapM fun x => marked jumped x.1 x.2
  return (found.filterMap id).mergeSort fun a b => a.1 ≤ b.1

def bodyWithin (m : MethodDraft) (rounds : Nat) : Guarded Body := do
  let s ← Layout.loop m.blocks rounds
    ⟨[.reach .entry], Array.replicate m.blocks.size none, Array.replicate m.blocks.size false, .empty⟩
  let code ← s.emission.patches.reverse.foldlM (fun code p => p.fill s.placement code) s.emission.code
  let targets ← m.markedTargets s.placement s.jumped
  let frames ← Guarded.ofExcept (framesFrom none targets)
  return ⟨code.toList, frames, s.emission.maxima⟩

section

variable {P : Block → Prop} {placement : Placement} {targets : List BlockId} {jumped : Array Bool}

theorem marked_eq {b : Block} {marks : Array Bool} (hb : b.id.index < jumped.size)
    (hj : jumped[b.id.index]? = some true ↔ marks[b.id.index]? = some true) (offset? : Option Nat) :
    marked jumped b offset? = Guarded.ofExcept (jumpTarget? marks b offset?) := by
  cases offset? with
  | none => rfl
  | some offset =>
      have hx := Array.getElem?_eq_getElem hb
      rw [marked, Guarded.read_bind hx, jumpTarget?]
      simp only [← hj, hx, Option.some.injEq]
      split
      · exact Guarded.ofExcept_bind fun _ _ => rfl
      · rfl

theorem markedTargets_eq (hm : m.Numbered P) (hj : Layout.Marks m.blocks.size targets jumped) :
    m.markedTargets placement jumped = Guarded.ofExcept (m.jumpTargets placement targets) := by
  have hmarked : ∀ x ∈ m.blocks.toList.zip placement.toList, marked jumped x.1 x.2 =
      Guarded.ofExcept (jumpTarget? (marksOf m.blocks.size targets) x.1 x.2) := by
    intro x hx
    obtain ⟨i, hi⟩ := Array.mem_iff_getElem?.1 (Array.mem_toList_iff.1 (List.of_mem_zip hx).1)
    obtain ⟨hsize, -⟩ := Array.getElem?_eq_some_iff.1 hi
    refine marked_eq ?_ ?_ x.2
    · rw [(hm i _ hi).1, hj.size]
      exact hsize
    · rw [hj.iff, getElem?_marksOf]
  rw [markedTargets, Guarded.mapM_ofExcept hmarked]
  exact Guarded.ofExcept_bind fun _ _ => rfl

end

/-- The tables are never accessed outside, and there are at most two rounds for each block and one more. -/
theorem bodyWithin_eq {P : Block → Prop} (hm : m.Numbered P) :
    m.bodyWithin (2 * m.blocks.size + 1) = Guarded.ofExcept m.body := by
  have hfits : Layout.Fits m.blocks [.reach .entry] (Array.replicate m.blocks.size none)
      (Array.replicate m.blocks.size false) .empty := by
    refine ⟨Array.size_replicate, ⟨Array.size_replicate, fun i => ?_⟩, by simp⟩
    simp [Array.getElem?_replicate, Emission.empty]
  have hrounds : 2 * Layout.unplaced (Array.replicate m.blocks.size none) + 1 ≤
      2 * m.blocks.size + 1 := by
    have hle : Layout.unplaced (Array.replicate m.blocks.size none) ≤ _ := Array.countP_le_size
    rw [Array.size_replicate] at hle
    omega
  have hloop := Layout.loop_agrees hfits hrounds
  rw [bodyWithin]
  change Layout.Agrees m.blocks m.layout _ at hloop
  generalize Layout.loop m.blocks _ _ = x at hloop ⊢
  cases hl : m.layout with
  | error err =>
      rw [hl] at hloop
      cases hloop
      rw [body, hl]
      rfl
  | ok r =>
      obtain ⟨placement, e⟩ := r
      rw [hl] at hloop
      cases hloop with
      | @ok _ jumped _ hfits =>
          obtain ⟨l, -, hh⟩ := layout_eq_ok hl
          rw [body, hl, pure_bind]
          change _ = Guarded.ofExcept (_ >>= _)
          simp only [markedTargets_eq hm hfits.marks]
          rw [Patch.foldlM_fill_eq fun p hp => hh.renders.location_lt (List.mem_reverse.1 hp)]
          refine Guarded.ofExcept_bind fun code _ => ?_
          refine Guarded.ofExcept_bind fun xs _ => ?_
          exact Guarded.ofExcept_bind fun frames _ => rfl

end MethodDraft

end ClassForge
