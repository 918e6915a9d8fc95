import ClassForge.Proofs.Assembly.Disassembly
import ClassForge.Proofs.Assembly.Layout
import Mathlib.Data.List.Nodup

/-!
# The stack map table of a method

The table of a finished method, with its distances turned into offsets: it has one full frame at each
destination of a jump, and nothing else. The main result is `MethodDraft.finish_stackMap`.
-/

namespace ClassForge

/-! ## Offsets of a table -/

namespace StackMapTable

/-- The frames with their offsets. A distance counts from behind the frame before, that of the first
frame from the start of the code. -/
def locatedFrom : Option Nat → StackMapTable → List (Nat × StackMapFrame)
  | _, [] => []
  | none, f :: table => (f.delta.toNat, f) :: locatedFrom (some f.delta.toNat) table
  | some n, f :: table =>
    (n + f.delta.toNat + 1, f) :: locatedFrom (some (n + f.delta.toNat + 1)) table

def located (table : StackMapTable) : List (Nat × StackMapFrame) := locatedFrom none table

def offsets (table : StackMapTable) : List Nat := table.located.map Prod.fst

end StackMapTable

theorem Frame.delta_stackMapFrame (f : Frame) (delta : UInt16) : (f.stackMapFrame delta).delta = delta :=
  rfl

def Frame.At (entry : Nat × StackMapFrame) (x : Nat × Frame) : Prop :=
  entry.1 = x.1 ∧ entry.2 = x.2.stackMapFrame entry.2.delta

theorem StackMapTable.offsets_eq {table : StackMapTable} {ys : List (Nat × Frame)}
    (h : List.Forall₂ Frame.At table.located ys) : table.offsets = ys.map Prod.fst := by
  have hf : List.Forall₂ (· = ·) (table.located.map Prod.fst) (ys.map Prod.fst) := by
    rw [List.forall₂_map_left_iff, List.forall₂_map_right_iff]
    exact h.imp fun _ _ ha => ha.1
  rwa [List.forall₂_eq_eq_eq] at hf

theorem exists_of_forall₂ {α β : Type} {R : α → β → Prop} {as : List α} {bs : List β} {a : α}
    (h : List.Forall₂ R as bs) (ha : a ∈ as) : ∃ b ∈ bs, R a b := by
  induction h with
  | nil => cases ha
  | cons hr _ ih =>
      rcases List.mem_cons.1 ha with rfl | ha
      · exact ⟨_, List.mem_cons_self, hr⟩
      · obtain ⟨b, hb, hab⟩ := ih ha
        exact ⟨b, List.mem_cons_of_mem _ hb, hab⟩

namespace MethodDraft

theorem framesFrom_some {p : Nat × Frame} {xs : List (Nat × Frame)} {table : StackMapTable}
    (h : framesFrom (some p) xs = .ok table) (hs : (p :: xs).Pairwise fun a b => a.1 ≤ b.1)
    (hb : ∀ x ∈ xs, x.1 ≤ 65535) :
    ∃ ys, (p :: ys).Pairwise (fun a b => a.1 < b.1) ∧ (∀ x, x ∈ p :: ys ↔ x ∈ p :: xs) ∧
      List.Forall₂ Frame.At (table.locatedFrom (some p.1)) ys := by
  induction xs generalizing p table with
  | nil =>
      cases h
      exact ⟨[], by simp, by simp, .nil⟩
  | cons x xs ih =>
      obtain ⟨hbx, hbs⟩ := List.forall_mem_cons.1 hb
      obtain ⟨hpx, hsx⟩ := List.pairwise_cons.1 hs
      simp only [framesFrom] at h
      split at h
      next he =>
        split at h
        next hf =>
          -- the same frame once more
          obtain rfl : p = x := Prod.ext he hf
          obtain ⟨ys, hy, hmem, hat⟩ := ih h hsx hbs
          exact ⟨ys, hy, fun z => by simp [hmem], hat⟩
        next => cases h
      next hne =>
        obtain ⟨frames, hf, h⟩ := except_bind_eq_ok.1 h
        cases h
        have hlt : p.1 < x.1 := by
          have := hpx x List.mem_cons_self
          omega
        obtain ⟨ys, hy, hmem, hat⟩ := ih hf hsx hbs
        refine ⟨x :: ys, ?_, fun z => ?_, ?_⟩
        · refine List.pairwise_cons.2 ⟨fun z hz => ?_, hy⟩
          rcases List.mem_cons.1 hz with rfl | hz
          · exact hlt
          · exact Nat.lt_trans hlt ((List.pairwise_cons.1 hy).1 z hz)
        · rw [List.mem_cons, hmem, ← List.mem_cons]
        · have hd : p.1 + (UInt16.ofNat (x.1 - p.1 - 1)).toNat + 1 = x.1 := by
            rw [toNat_ofNat_u16 (by omega)]
            omega
          simp only [StackMapTable.locatedFrom, Frame.delta_stackMapFrame, hd]
          exact .cons ⟨rfl, rfl⟩ hat

theorem framesFrom_none {xs : List (Nat × Frame)} {table : StackMapTable}
    (h : framesFrom none xs = .ok table) (hs : xs.Pairwise fun a b => a.1 ≤ b.1)
    (hb : ∀ x ∈ xs, x.1 ≤ 65535) :
    ∃ ys, ys.Pairwise (fun a b => a.1 < b.1) ∧ (∀ x, x ∈ ys ↔ x ∈ xs) ∧
      List.Forall₂ Frame.At table.located ys := by
  cases xs with
  | nil =>
      cases h
      exact ⟨[], by simp, by simp, .nil⟩
  | cons x xs =>
      obtain ⟨hbx, hbs⟩ := List.forall_mem_cons.1 hb
      obtain ⟨frames, hf, h⟩ := except_bind_eq_ok.1 h
      cases h
      obtain ⟨ys, hy, hmem, hat⟩ := framesFrom_some hf hs hbs
      refine ⟨x :: ys, hy, hmem, ?_⟩
      simp only [StackMapTable.located, StackMapTable.locatedFrom, Frame.delta_stackMapFrame,
        toNat_ofNat_u16 hbx]
      exact .cons ⟨rfl, rfl⟩ hat

/-! ## The blocks that are jumped to -/

theorem getElem?_jumped (targets : List BlockId) (a : Array Bool) (i : Nat) :
    (targets.foldl (fun a t => a.setIfInBounds t.index true) a)[i]? = some true ↔
      a[i]? = some true ∨ i < a.size ∧ ∃ t ∈ targets, t.index = i := by
  induction targets generalizing a with
  | nil => simp
  | cons t targets ih =>
      rw [List.foldl_cons, ih, Array.getElem?_setIfInBounds, Array.size_setIfInBounds]
      by_cases ht : t.index = i
      · by_cases hi : i < a.size
        · simp [ht, hi]
        · simp [ht, hi]
      · simp [ht]

theorem getElem?_marksOf {size : Nat} {targets : List BlockId} {i : Nat} :
    (marksOf size targets)[i]? = some true ↔ i < size ∧ ∃ t ∈ targets, t.index = i := by
  rw [marksOf, getElem?_jumped]
  simp [Array.getElem?_replicate]

variable {m : MethodDraft} {placement : Placement} {targets : List BlockId}

/-- The entry frames of the placed blocks of `targets` with their offsets, in the order of the code. -/
structure Destinations (m : MethodDraft) (placement : Placement) (targets : List BlockId)
    (xs : List (Nat × Frame)) : Prop where
  sorted : xs.Pairwise fun a b => a.1 ≤ b.1
  limit : ∀ x ∈ xs, x.1 ≤ 65535
  mem_iff : ∀ x, x ∈ xs ↔ ∃ t ∈ targets, ∃ b, m.blocks[t.index]? = some b ∧
    placement.offset? t = some x.1 ∧ b.entry = x.2

section

variable {P : Block → Prop}

theorem zip_placement (hm : m.Numbered P) (hp : placement.size = m.blocks.size) :
    m.blocks.toList.zip placement.toList =
      m.blocks.toList.map fun b => (b, placement.offset? b.id) := by
  refine List.ext_getElem (by simp [hp]) fun i hi _ => ?_
  have hsize : i < m.blocks.size := by simpa [hp] using hi
  have hid : m.blocks[i].id = ⟨i⟩ := (hm i _ (Array.getElem?_eq_getElem hsize)).1
  have hplace : i < placement.size := by rwa [hp]
  simp [Placement.offset?, hid, hplace]

/-- What is found for one block when its offset fits into 16 bits. -/
def found? (placement : Placement) (jumped : Array Bool) (b : Block) : Option (Nat × Frame) :=
  if jumped[b.id.index]? = some true then (placement.offset? b.id).map fun n => (n, b.entry) else none

theorem jumpTarget?_eq {jumped : Array Bool} (b : Block)
    (h : ∀ n, placement.offset? b.id = some n → n ≤ 65535) :
    jumpTarget? jumped b (placement.offset? b.id) = pure (found? placement jumped b) := by
  rw [found?]
  cases ho : placement.offset? b.id with
  | none => split <;> rfl
  | some n =>
      simp only [jumpTarget?, entryAt, if_pos (h n ho)]
      split <;> rfl

theorem found?_eq_some {jumped : Array Bool} {b : Block} {x : Nat × Frame} :
    found? placement jumped b = some x ↔
      jumped[b.id.index]? = some true ∧ placement.offset? b.id = some x.1 ∧ b.entry = x.2 := by
  rw [found?]
  split
  next hj =>
    rw [Option.map_eq_some_iff]
    refine ⟨fun h => ?_, fun h => ⟨x.1, h.2.1, Prod.ext rfl h.2.2⟩⟩
    obtain ⟨n, ho, rfl⟩ := h
    exact ⟨hj, ho, rfl⟩
  next hj => simp [hj]

theorem mem_found (hm : m.Numbered P) {x : Nat × Frame} :
    (∃ b ∈ m.blocks, found? placement (marksOf m.blocks.size targets) b = some x) ↔
      ∃ t ∈ targets, ∃ b, m.blocks[t.index]? = some b ∧ placement.offset? t = some x.1 ∧
        b.entry = x.2 := by
  simp only [found?_eq_some, getElem?_marksOf]
  refine ⟨fun h => ?_, fun h => ?_⟩
  · obtain ⟨b, hb, ⟨-, t, ht, hti⟩, ho, he⟩ := h
    obtain ⟨i, hi⟩ := Array.mem_iff_getElem?.1 hb
    obtain rfl : t = b.id := by rw [← BlockId.mk.injEq] at hti; exact hti
    exact ⟨b.id, ht, b, by rw [(hm i b hi).1]; exact hi, ho, he⟩
  · obtain ⟨t, ht, b, hb, ho, he⟩ := h
    obtain rfl : b.id = t := (hm _ b hb).1
    obtain ⟨hi, -⟩ := Array.getElem?_eq_some_iff.1 hb
    exact ⟨b, Array.mem_of_getElem? hb, ⟨hi, b.id, ht, rfl⟩, ho, he⟩

theorem pairwise_mergeSort_fst (xs : List (Nat × Frame)) :
    (xs.mergeSort fun a b => a.1 ≤ b.1).Pairwise fun a b => a.1 ≤ b.1 := by
  refine (List.pairwise_mergeSort (fun a b c hab hbc => ?_) (fun a b => ?_) _).imp fun h => ?_
  · simp only [decide_eq_true_eq] at hab hbc ⊢
    exact Nat.le_trans hab hbc
  · simp only [Bool.or_eq_true, decide_eq_true_eq]
    exact Nat.le_total a.1 b.1
  · simpa using h

/-- Code that is no longer than 16 bits can say has its destinations. -/
theorem exists_destinations (hm : m.Numbered P) (hp : placement.size = m.blocks.size)
    (hlimit : ∀ id n, placement.offset? id = some n → n ≤ 65535) (targets : List BlockId) :
    ∃ xs, m.jumpTargets placement targets = .ok xs ∧ m.Destinations placement targets xs := by
  let found := m.blocks.toList.map (found? placement (marksOf m.blocks.size targets))
  have hmem : ∀ x, x ∈ (found.filterMap id).mergeSort (fun a b => a.1 ≤ b.1) ↔ ∃ t ∈ targets, ∃ b,
      m.blocks[t.index]? = some b ∧ placement.offset? t = some x.1 ∧ b.entry = x.2 := by
    intro x
    rw [← mem_found hm]
    simp [found]
  refine ⟨_, ?_, pairwise_mergeSort_fst (found.filterMap id), fun x hx => ?_, hmem⟩
  · have hok : (m.blocks.toList.zip placement.toList).mapM (fun x =>
        jumpTarget? (marksOf m.blocks.size targets) x.1 x.2) = .ok found := by
      rw [zip_placement hm hp, List.mapM_map]
      exact (congrArg m.blocks.toList.mapM (funext fun b => jumpTarget?_eq b (hlimit b.id))).trans
        List.mapM_pure
    rw [jumpTargets, hok]
    rfl
  · obtain ⟨t, -, b, -, ho, -⟩ := (hmem x).1 hx
    exact hlimit t x.1 ho

end

end MethodDraft

/-! ## Where control does not run on -/

/-- Control does not run on behind the piece. -/
def Piece.isFinal : Piece → Bool
  | ret _ | goto _ => true
  | body _ | compare _ => false

theorem Leaves.target_or_ret {next : Option BlockId} {ending : Ending} {exit : List Piece}
    {p : Piece} (h : Leaves next ending exit) (hp : p ∈ exit) :
    (∃ t, p = .goto t ∨ p = .compare t) ∨ ∃ opcode, p = .ret opcode ∧ ending = .ret opcode := by
  cases h with
  | ret opcode => exact Or.inr ⟨opcode, List.mem_singleton.1 hp, rfl⟩
  | fall _ => cases hp
  | goto t => exact Or.inl ⟨t, Or.inl (List.mem_singleton.1 hp)⟩
  | @compareFall _ f _ => exact Or.inl ⟨f, Or.inr (List.mem_singleton.1 hp)⟩
  | compareGoto t f =>
      rcases List.mem_cons.1 hp with hp | hp
      · exact Or.inl ⟨f, Or.inr hp⟩
      · exact Or.inl ⟨t, Or.inl (List.mem_singleton.1 hp)⟩

theorem Leaves.getLast?_eq {next : Option BlockId} {ending : Ending} {exit : List Piece}
    {n k : Nat} {p : Piece} (h : Leaves next ending exit) (hk : (k, p) ∈ Piece.positions n exit)
    (hp : p.isFinal) :
    exit.getLast? = some p ∧
      k + p.placeholder.length = n + (exit.flatMap Piece.placeholder).length := by
  cases h with
  | fall _ => cases hk
  | ret opcode =>
      obtain ⟨rfl, rfl⟩ : k = n ∧ p = .ret opcode := by simpa [Piece.positions] using hk
      exact ⟨rfl, rfl⟩
  | goto t =>
      obtain ⟨rfl, rfl⟩ : k = n ∧ p = .goto t := by simpa [Piece.positions] using hk
      exact ⟨rfl, rfl⟩
  | @compareFall _ f _ =>
      obtain ⟨rfl, rfl⟩ : k = n ∧ p = .compare f := by simpa [Piece.positions] using hk
      cases hp
  | compareGoto t f =>
      simp only [Piece.positions, List.mem_cons, Prod.mk.injEq, List.not_mem_nil, or_false] at hk
      rcases hk with ⟨rfl, rfl⟩ | ⟨rfl, rfl⟩
      · cases hp
      · exact ⟨rfl, rfl⟩

theorem Listing.mem_positions {l : Listing} {n k : Nat} {p : Piece}
    (h : (k, p) ∈ Piece.positions n l.pieces) :
    ∃ (l₁ : Listing) (s : Stretch) (l₂ : Listing), l = l₁ ++ s :: l₂ ∧
      (k, p) ∈ Piece.positions (n + l₁.size) s.pieces := by
  induction l generalizing n with
  | nil => cases h
  | cons s l ih =>
      have hs : Listing.pieces (s :: l) = s.pieces ++ Listing.pieces l := rfl
      rw [hs, Piece.positions_append] at h
      rcases List.mem_append.1 h with h | h
      · exact ⟨[], s, l, rfl, h⟩
      · obtain ⟨l₁, r, l₂, rfl, hr⟩ := ih h
        refine ⟨s :: l₁, r, l₂, rfl, ?_⟩
        rwa [size_cons, ← Nat.add_assoc]

/-- A position behind a jump or a return is the end of the code, or some block that is jumped to
stands there. -/
theorem Walk.Complete.target_behind {blocks : Array Block} {l : Listing} {k : Nat} {p : Piece}
    (h : Walk.Complete blocks l) (hk : (k, p) ∈ Piece.positions 0 l.pieces) (hp : p.isFinal)
    (hne : k + p.placeholder.length ≠ l.size) :
    ∃ t ∈ l.targets, l.offset? t = some (k + p.placeholder.length) := by
  obtain ⟨l₁, s, l₂, hl, hk⟩ := Listing.mem_positions hk
  obtain ⟨ending, -, hx⟩ := (hl ▸ h.linked).closes
  rcases List.mem_cons.1 hk with hk | hk
  · cases hk
    cases hp
  · obtain ⟨hlast, hend⟩ := hx.getLast?_eq hk hp
    have hsize : k + p.placeholder.length = Listing.size (l₁ ++ [s]) := by
      rw [hend, Listing.size_append, Listing.size_singleton, Stretch.size, Stretch.pieces,
        List.flatMap_cons, List.length_append, Nat.zero_add, Nat.add_assoc]
    cases l₂ with
    | nil => exact absurd (by rw [hsize, hl]) hne
    | cons r l₂ =>
        have hl' : l = (l₁ ++ [s]) ++ r :: l₂ := by rw [hl, List.append_assoc]; rfl
        refine ⟨r.id, ?_, by rw [hsize]; exact h.offset?_split hl'⟩
        have hc := h.entered
        rw [hl, List.isChain_append_cons_cons] at hc
        rcases hc.2.1 with (he | ⟨f, he⟩) | ht
        · rw [he] at hlast
          cases hlast
        · rw [he] at hlast
          cases hlast
          cases hp
        · rw [hl]
          exact ht

/-! ## Finished methods -/

/-- The table is written from `ys`: the entry frames of the blocks that are jumped to, each at the
offset of its block. -/
structure StackMapTable.Describes (blocks : Array Block) (o : BlockId → Option Nat)
    (targets : List BlockId) (ys : List (Nat × Frame)) (table : StackMapTable) : Prop where
  increasing : ys.Pairwise fun a b => a.1 < b.1
  mem_iff : ∀ x, x ∈ ys ↔ ∃ t ∈ targets, ∃ b, blocks[t.index]? = some b ∧ o t = some x.1 ∧
    b.entry = x.2
  located : List.Forall₂ Frame.At table.located ys

namespace StackMapTable.Describes

variable {blocks : Array Block} {o : BlockId → Option Nat} {targets : List BlockId}
  {ys : List (Nat × Frame)} {table : StackMapTable}

theorem pairwise_offsets (h : table.Describes blocks o targets ys) :
    table.offsets.Pairwise (· < ·) := by
  rw [offsets_eq h.located]
  exact List.pairwise_map.2 h.increasing

theorem mem_offsets (h : table.Describes blocks o targets ys) {n : Nat} :
    n ∈ table.offsets ↔ ∃ t ∈ targets, ∃ b, blocks[t.index]? = some b ∧ o t = some n := by
  rw [offsets_eq h.located, List.mem_map]
  refine ⟨fun hn => ?_, fun hn => ?_⟩
  · obtain ⟨x, hx, rfl⟩ := hn
    obtain ⟨t, ht, b, hb, ho, -⟩ := (h.mem_iff x).1 hx
    exact ⟨t, ht, b, hb, ho⟩
  · obtain ⟨t, ht, b, hb, ho⟩ := hn
    exact ⟨(n, b.entry), (h.mem_iff _).2 ⟨t, ht, b, hb, ho, rfl⟩, rfl⟩

theorem frame (h : table.Describes blocks o targets ys) {n : Nat} {f : StackMapFrame} {t : BlockId}
    {b : Block} (hf : (n, f) ∈ table.located) (ht : t ∈ targets) (hb : blocks[t.index]? = some b)
    (ho : o t = some n) : f = b.entry.stackMapFrame f.delta := by
  obtain ⟨y, hy, hn, hf⟩ := exists_of_forall₂ h.located hf
  -- one frame stands at each offset
  have hb' : (n, b.entry) ∈ ys := (h.mem_iff _).2 ⟨t, ht, b, hb, ho, rfl⟩
  have hnodup : (ys.map Prod.fst).Nodup := List.pairwise_map.2 (h.increasing.imp Nat.ne_of_lt)
  obtain rfl := List.inj_on_of_nodup_map hnodup hy hb' hn.symm
  exact hf

end StackMapTable.Describes

/-- The table has one full frame at each destination of a jump of the code, and no other; so has every
position behind a jump or a return, unless the code ends there. The jumps are those by which the blocks of
the listing are left, and a frame is the entry frame of all the blocks that are jumped to at its offset. -/
structure StackMapTable.Exact (blocks : Array Block) (o : BlockId → Option Nat) (l : Listing)
    (ops : List (Nat × Op)) (size : Nat) (table : StackMapTable) : Prop where
  increasing : table.offsets.Pairwise (· < ·)
  mem_iff : ∀ n, n ∈ table.offsets ↔
    ∃ k op v, (k, op) ∈ ops ∧ op.distance? = some v ∧ (k : Int) + v.toInt = n
  linked : Listing.Linked none l
  exists_target : ∀ n f, (n, f) ∈ table.located → ∃ t ∈ l.targets, o t = some n
  frame : ∀ n f, (n, f) ∈ table.located → ∀ t ∈ l.targets, o t = some n →
    ∃ b, blocks[t.index]? = some b ∧
      f = .full f.delta b.entry.locals.elements b.entry.stack.elements
  behind_goto : ∀ k v, (k, .goto v) ∈ ops → k + 3 ≠ size → k + 3 ∈ table.offsets
  behind_ret : ∀ k opcode, (k, .ret opcode) ∈ ops → k + 1 ≠ size → k + 1 ∈ table.offsets

theorem StackMapTable.Exact.eq_nil_iff {blocks : Array Block} {o : BlockId → Option Nat}
    {l : Listing} {ops : List (Nat × Op)} {size : Nat} {table : StackMapTable}
    (h : table.Exact blocks o l ops size) (hd : Piece.Disassembles o 0 l.pieces ops) :
    table = [] ↔ ∀ k op, (k, op) ∈ ops → op.distance? = none := by
  refine ⟨fun he k op hk => ?_, fun hn => ?_⟩
  · cases hv : op.distance? with
    | none => rfl
    | some v =>
        obtain ⟨_, -, d, -, hd⟩ := hd.exists_target hk hv
        have hmem := (h.mem_iff d).2 ⟨k, op, v, hk, hv, hd⟩
        rw [he] at hmem
        cases hmem
  · cases table with
    | nil => rfl
    | cons f table =>
        obtain ⟨t, ht, -⟩ := h.exists_target _ f List.mem_cons_self
        have hnil : l.targets = [] := hd.jumpFree_iff.1 hn
        rw [hnil] at ht
        cases ht

namespace Walk.Complete

variable {blocks : Array Block} {l : Listing}

theorem offset?_le_size (h : Complete blocks l) {id : BlockId} {n : Nat}
    (ho : l.offset? id = some n) : n ≤ l.size := by
  obtain ⟨l₁, s, l₂, rfl, -, rfl⟩ := h.exists_split ho
  rw [Listing.size_append]
  exact Nat.le_add_right _ _

theorem exists_block (h : Complete blocks l) {id : BlockId} {n : Nat}
    (ho : l.offset? id = some n) : ∃ b, blocks[id.index]? = some b := by
  obtain ⟨l₁, s, l₂, hl, rfl, -⟩ := h.exists_split ho
  exact ⟨s.block, h.proper.block s (by rw [hl]; exact List.mem_append_right _ List.mem_cons_self)⟩

/-- The blocks of a draft hold only instructions that exist, so its listing does. -/
theorem defined (h : Complete blocks l) (hb : ∀ (i : Nat) (b : Block), blocks[i]? = some b → b.Sane) :
    ∀ p ∈ l.pieces, p.Defined := by
  intro p hp
  obtain ⟨s, hs, hp⟩ := List.mem_flatMap.1 hp
  have hsane := hb _ _ (h.proper.block s hs)
  obtain ⟨l₁, l₂, hl⟩ := List.append_of_mem hs
  obtain ⟨ending, he, hx⟩ := (hl ▸ h.linked).closes
  rcases List.mem_cons.1 hp with rfl | hp
  · exact fun i hi => hsane.defined i (List.mem_reverse.1 hi)
  · rcases hx.target_or_ret hp with ⟨t, rfl | rfl⟩ | ⟨opcode, rfl, rfl⟩
    · trivial
    · trivial
    · exact hsane.ret opcode he

theorem exact {ops : List (Nat × Op)} {table : StackMapTable} {ys : List (Nat × Frame)}
    (h : Complete blocks l) (hd : Piece.Disassembles l.offset? 0 l.pieces ops)
    (ht : table.Describes blocks l.offset? l.targets ys) :
    table.Exact blocks l.offset? l ops l.size := by
  have htarget : ∀ n, n ∈ table.offsets ↔ ∃ t ∈ l.targets, l.offset? t = some n := by
    intro n
    rw [ht.mem_offsets]
    refine ⟨fun hn => ?_, fun hn => ?_⟩
    · obtain ⟨t, htt, _, -, ho⟩ := hn
      exact ⟨t, htt, ho⟩
    · obtain ⟨t, htt, ho⟩ := hn
      obtain ⟨b, hb⟩ := h.exists_block ho
      exact ⟨t, htt, b, hb, ho⟩
  refine ⟨ht.pairwise_offsets, fun n => (htarget n).trans hd.destination_iff.symm, h.linked,
    ?_, ?_, ?_, ?_⟩
  · intro n f hf
    exact (htarget n).1 (List.mem_map.2 ⟨_, hf, rfl⟩)
  · intro n f hf t htt ho
    obtain ⟨b, hb⟩ := h.exists_block ho
    exact ⟨b, hb, ht.frame hf htt hb ho⟩
  · intro k v hk hne
    rcases hd.sound k _ hk with ⟨i, hi⟩ | ⟨p, hp, hr⟩
    · cases hi
    · cases hr
      exact (htarget _).2 (h.target_behind hp rfl hne)
  · intro k opcode hk hne
    rcases hd.sound k _ hk with ⟨i, hi⟩ | ⟨p, hp, hr⟩
    · cases hi
    · cases hr
      exact (htarget _).2 (h.target_behind hp rfl hne)

end Walk.Complete

namespace MethodDraft

variable {m m' : MethodDraft} {pool pool' : Pool}

theorem tableAttributes_eq_ok {table : StackMapTable} {as : List Attribute} :
    tableAttributes table pool = (.ok as, pool') ↔
      table = [] ∧ as = [] ∧ pool = pool' ∨
      table ≠ [] ∧ ∃ name info, Pool.utf8 "StackMapTable" pool = (.ok name, pool') ∧
        table.write = .ok info ∧ as = [⟨name, info⟩] := by
  unfold tableAttributes
  cases table with
  | nil =>
      refine Interning.pure_eq_ok.trans ?_
      simp [eq_comm]
  | cons f table =>
      simp only [List.isEmpty_cons, Bool.false_eq_true, if_false, Interning.bind_eq_ok,
        Pool.attributeFor_eq_ok, Interning.pure_eq_ok]
      refine ⟨fun h => ?_, fun h => ?_⟩
      · obtain ⟨a, _, ⟨hn, hw⟩, rfl, rfl⟩ := h
        exact Or.inr ⟨List.cons_ne_nil _ _, a.name, a.info, hn, hw, rfl⟩
      · rcases h with ⟨h, -⟩ | ⟨-, name, info, hn, hw, rfl⟩
        · cases h
        · exact ⟨⟨name, info⟩, pool', ⟨hn, hw⟩, rfl, rfl⟩

theorem placed_le {placement : Placement} {e : Emission} {l : Listing}
    (hw : Walk.Complete m.blocks l) (hh : e.Holds m.blocks l placement) (id : BlockId) (n : Nat)
    (ho : placement.offset? id = some n) : n ≤ 65535 := by
  rw [hh.offset] at ho
  calc n ≤ l.size := hw.offset?_le_size ho
    _ = e.code.size := hh.renders.size_eq.symm
    _ ≤ 65535 := hh.limit

theorem destinations_of_ok {P : Block → Prop} {placement : Placement} {e : Emission} {l : Listing}
    {targets : List BlockId} {xs : List (Nat × Frame)} (hm : m.Numbered P)
    (hw : Walk.Complete m.blocks l) (hh : e.Holds m.blocks l placement)
    (hx : m.jumpTargets placement targets = .ok xs) : m.Destinations placement targets xs := by
  obtain ⟨ys, hy, h⟩ := exists_destinations hm hh.size (placed_le hw hh) targets
  rw [hx] at hy
  cases hy
  exact h

theorem body_exact {body : Body} (hm : m.Reachable) (hb : m.body = .ok body) :
    ∃ (l : Listing) (ops : List (Nat × Op)), Walk.Complete m.blocks l ∧
      Assembles l.offset? 0 l.pieces body.bytecode ∧ body.bytecode.length ≤ 65535 ∧
      Op.disassemble 0 body.bytecode = some ops ∧
      Piece.Disassembles l.offset? 0 l.pieces ops ∧
      body.frames.Exact m.blocks l.offset? l ops body.bytecode.length := by
  obtain ⟨placement, e, l, hw, hh, ha, ⟨xs, hx, hf⟩, -⟩ := body_eq_ok hb
  obtain ⟨ops, hops, hd⟩ := ha.disassemble (hw.defined fun i b hi => (hm.sane i b hi).2)
  have hsize : body.bytecode.length = l.size := ha.length_eq
  have hlimit : l.size ≤ 65535 := hh.renders.size_eq.symm.trans_le hh.limit
  have htargets : l.targets = e.targets.reverse := hh.renders.targets.symm
  have hdest := destinations_of_ok hm.sane hw hh hx
  have hjumped : ∀ x, x ∈ xs ↔ ∃ t ∈ l.targets, ∃ b,
      m.blocks[t.index]? = some b ∧ l.offset? t = some x.1 ∧ b.entry = x.2 := by
    intro x
    simp only [hdest.mem_iff, htargets, List.mem_reverse, hh.offset]
  obtain ⟨ys, hy, hmem, hat⟩ := framesFrom_none hf hdest.sorted hdest.limit
  have hexact := hw.exact hd ⟨hy, fun x => (hmem x).trans (hjumped x), hat⟩
  rw [← hsize] at hlimit hexact
  exact ⟨l, ops, hw, ha, hlimit, hops, hd, hexact⟩

/-- The table of a finished method is exact, and a method without jumps has none. -/
theorem finish_stackMap {attributes : List Attribute} (hm : m.Reachable)
    (h : m.finish pool = (.ok (attributes, m'), pool')) :
    ∃ (name : Index .utf8) (code : Code) (o : BlockId → Option Nat) (l : Listing)
      (ops : List (Nat × Op)) (table : StackMapTable),
      attributes = [⟨name, code.write⟩] ∧ code.bytecode.length ≤ 65535 ∧
      Layout.Arranges m.blocks o l code.bytecode ∧
      Op.disassemble 0 code.bytecode = some ops ∧
      table.Exact m.blocks o l ops code.bytecode.length ∧
      (code.attributes = [] ∧ table = [] ∨
        ∃ name info pool₁, Pool.utf8 "StackMapTable" pool = (.ok name, pool₁) ∧
          table.write = .ok info ∧ code.attributes = [⟨name, info⟩]) ∧
      (code.attributes = [] ↔ ∀ k op, (k, op) ∈ ops → op.distance? = none) := by
  obtain ⟨-, body, attributes', pool₁, name, hb, ht, -, -, rfl, -⟩ := finish_eq_ok.1 h
  obtain ⟨l, ops, hw, ha, hlimit, hops, hd, hexact⟩ := body_exact hm hb
  refine ⟨name, body.toCode attributes', l.offset?, l, ops, body.frames, rfl, hlimit,
    hw.arranges ha, hops, hexact, ?_, ?_⟩
  · rcases tableAttributes_eq_ok.1 ht with ⟨hf, has, -⟩ | ⟨-, tableName, info, hn, hwrite, has⟩
    · exact Or.inl ⟨has, hf⟩
    · exact Or.inr ⟨tableName, info, pool₁, hn, hwrite, has⟩
  · rw [← hexact.eq_nil_iff hd]
    rcases tableAttributes_eq_ok.1 ht with ⟨hf, has, -⟩ | ⟨hf, _, _, -, -, has⟩
    · exact iff_of_true has hf
    · refine iff_of_false (fun h => ?_) hf
      rw [Body.toCode, has] at h
      cases h

theorem spin_reachable : spin.Reachable := by
  have h := Reachable.start [] none
  have h := (h.newBlock [] []).newBlock [] []
  have h := ((h.newBlock [] []).newBlock [] []).newBlock [] []
  refine h.applyAll
    [(⟨0⟩, .pushInt 50), (⟨0⟩, .pop), (⟨0⟩, .jump ⟨1⟩), (⟨1⟩, .jump ⟨2⟩), (⟨2⟩, .pushInt 10),
      (⟨2⟩, .pushInt 20), (⟨2⟩, .branch .le ⟨3⟩ ⟨4⟩), (⟨3⟩, .jump ⟨1⟩), (⟨4⟩, .returnVoid)]
    .empty ?_
  rfl

theorem finish_stackMap_spin :
    ∃ (name : Index .utf8) (code : Code) (o : BlockId → Option Nat) (l : Listing)
      (ops : List (Nat × Op)) (table : StackMapTable),
      spinAttributes = [⟨name, code.write⟩] ∧ code.bytecode.length ≤ 65535 ∧
      Layout.Arranges spin.blocks o l code.bytecode ∧
      Op.disassemble 0 code.bytecode = some ops ∧
      table.Exact spin.blocks o l ops code.bytecode.length ∧
      (code.attributes = [] ∧ table = [] ∨
        ∃ name info pool₁, Pool.utf8 "StackMapTable" .empty = (.ok name, pool₁) ∧
          table.write = .ok info ∧ code.attributes = [⟨name, info⟩]) ∧
      (code.attributes = [] ↔ ∀ k op, (k, op) ∈ ops → op.distance? = none) :=
  finish_stackMap spin_reachable finish_spin

end MethodDraft

end ClassForge
