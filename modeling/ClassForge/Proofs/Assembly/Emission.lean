import ClassForge.Proofs.Assembly.Walk
import ClassForge.Proofs.Interning

/-!
# The code of a listing

The run that emits bytes carries out a walk: at every moment its code is that of a listing whose jumps
still lack their distances, and its patches are the ones that those jumps need. Applying them gives
the listing as bytes.
-/

namespace ClassForge

theorem jumpOffset_eq_ok {origin target : Nat} {v : Int16} (h : jumpOffset origin target = .ok v) :
    (origin : Int) + v.toInt = target := by
  simp only [jumpOffset] at h
  split at h
  · cases h
    rw [Int16.toInt_ofInt_of_le (by omega) (by omega)]
    omega
  · cases h

theorem Emission.checkLength_eq_ok {e e' : Emission} {b : BlockId} :
    e.checkLength b = .ok e' ↔ e = e' ∧ e.code.size ≤ 65535 := by
  unfold Emission.checkLength
  by_cases h : e.code.size > 65535
  · simp only [h, if_true, reduceCtorEq, false_iff, not_and]
    omega
  · simp only [h, if_false, Except.ok.injEq]
    exact ⟨fun he => ⟨he, by omega⟩, fun he => he.1⟩

/-! ## What an emission has written -/

/-- Where the jumps among pieces from offset `n` on stand, and the blocks that they lead to. -/
def Piece.jumps : Nat → List Piece → List (Nat × BlockId)
  | _, [] => []
  | n, p :: ps => (p.target?.map (n, ·)).toList ++ jumps (n + p.placeholder.length) ps

theorem Piece.jumps_append (n : Nat) (ps qs : List Piece) :
    jumps n (ps ++ qs) =
      jumps n ps ++ jumps (n + (ps.flatMap Piece.placeholder).length) qs := by
  induction ps generalizing n with
  | nil => rfl
  | cons p ps ih =>
      simp only [List.cons_append, jumps, ih, List.append_assoc, List.flatMap_cons,
        List.length_append, Nat.add_assoc]

/-- The patch fills in the distance of a jump from `origin` to `target`: it names the block, or it
holds the distance to where the block already stands. -/
structure Patch.Serves (o : BlockId → Option Nat) (p : Patch) (jump : Nat × BlockId) : Prop where
  location : p.location = jump.1 + 1
  value : p.value = .jump jump.2 jump.1 ∨
    ∃ n v, o jump.2 = some n ∧ jumpOffset jump.1 n = .ok v ∧ p.value = .known v

def Piece.maxima (ps : List Piece) : Maxima :=
  ps.foldl (fun m p => match p with | .body b => m.join b.maxima | _ => m) Maxima.zero

theorem Piece.maxima_concat (ps : List Piece) (b : Block) :
    maxima (ps ++ [.body b]) = (maxima ps).join b.maxima := by
  simp [maxima]

theorem Piece.stack_le_maxima {b : Block} {ps : List Piece} (h : .body b ∈ ps) :
    b.maxima.stack ≤ (maxima ps).stack := by
  induction ps using List.reverseRecOn with
  | nil => cases h
  | append_singleton ps p ih =>
      rcases List.mem_append.1 h with h | h
      · have hle : (maxima ps).stack ≤ (maxima (ps ++ [p])).stack := by
          cases p with
          | body c =>
              rw [maxima_concat]
              exact Nat.le_max_left _ _
          | _ => simp [maxima]
        exact (ih h).trans hle
      · obtain rfl := List.mem_singleton.1 h
        rw [maxima_concat]
        exact Nat.le_max_right _ _

structure Emission.Renders (o : BlockId → Option Nat) (ps : List Piece) (e : Emission) : Prop where
  code : e.code.toList = ps.flatMap Piece.placeholder
  patches : List.Forall₂ (Patch.Serves o) e.patches.reverse (Piece.jumps 0 ps)
  targets : e.targets.reverse = ps.filterMap Piece.target?
  maxima : e.maxima = Piece.maxima ps

namespace Emission.Renders

variable {o : BlockId → Option Nat} {ps : List Piece} {e : Emission}

theorem size_eq (h : e.Renders o ps) : e.code.size = (ps.flatMap Piece.placeholder).length := by
  rw [← h.code, Array.length_toList]

theorem mono {o' : BlockId → Option Nat} (h : e.Renders o ps)
    (ho : ∀ t n, o t = some n → o' t = some n) : e.Renders o' ps := by
  refine ⟨h.code, h.patches.imp fun p j hp => ⟨hp.location, hp.value.imp_right ?_⟩, h.targets,
    h.maxima⟩
  rintro ⟨n, v, hn, hv, hp⟩
  exact ⟨n, v, ho _ _ hn, hv, hp⟩

theorem body (h : e.Renders o ps) (b : Block) :
    (e.emitBody b).Renders o (ps ++ [.body b]) := by
  refine ⟨?_, ?_, ?_, ?_⟩
  · simp [emitBody, h.code, Piece.placeholder]
  · rw [Piece.jumps_append]
    simpa [emitBody, Piece.jumps, Piece.target?] using h.patches
  · rw [List.filterMap_append]
    exact h.targets.trans (List.append_nil _).symm
  · rw [Piece.maxima_concat, ← h.maxima]
    rfl

theorem ret (h : e.Renders o ps) (opcode : UInt8) :
    Emission.Renders o (ps ++ [.ret opcode]) { e with code := e.code.push opcode } := by
  refine ⟨?_, ?_, ?_, ?_⟩
  · simp [h.code, Piece.placeholder]
  · rw [Piece.jumps_append]
    simpa [Piece.jumps, Piece.target?] using h.patches
  · rw [List.filterMap_append]
    exact h.targets.trans (List.append_nil _).symm
  · simp [h.maxima, Piece.maxima]

theorem jump (h : e.Renders o ps) {p : Piece} {opcode : UInt8} {value : PatchValue} {t : BlockId}
    (hp : p = .goto t ∧ opcode = 0xa7 ∨ p = .compare t ∧ opcode = 0xa3)
    (hv : Patch.Serves o ⟨e.code.size + 1, value⟩ (e.code.size, t)) :
    (e.emitJump opcode value t).Renders o (ps ++ [p]) := by
  have ht : p.target? = some t := by rcases hp with ⟨rfl, -⟩ | ⟨rfl, -⟩ <;> rfl
  have hb : p.placeholder = [opcode, 0, 0] := by rcases hp with ⟨rfl, rfl⟩ | ⟨rfl, rfl⟩ <;> rfl
  have hm : Piece.maxima (ps ++ [p]) = Piece.maxima ps := by
    rcases hp with ⟨rfl, -⟩ | ⟨rfl, -⟩ <;> simp [Piece.maxima]
  refine ⟨?_, ?_, ?_, ?_⟩
  · simp [emitJump, h.code, hb]
  · rw [Piece.jumps_append, ← h.size_eq]
    simp only [emitJump, List.reverse_cons, Piece.jumps, ht, Option.map_some, Option.toList_some,
      Nat.zero_add, List.append_nil]
    exact List.rel_append h.patches (.cons hv .nil)
  · simp [emitJump, ht, h.targets]
  · rw [hm]
    exact h.maxima

end Emission.Renders

/-! ## The run carries out a walk -/

theorem Block.layOut_eq_ok {b : Block} {blocks : Array Block} {e e' : Emission} {more : List Task}
    (h : b.layOut blocks e = .ok (more, e')) :
    ∃ exit, b.Departs blocks more exit ∧ e'.code.size ≤ 65535 ∧
      ∀ o ps, e.Renders o ps → e'.Renders o (ps ++ .body b :: exit) := by
  have happ : ∀ (ps : List Piece) (p : Piece), ps ++ [.body b, p] = ps ++ [.body b] ++ [p] :=
    fun ps p => by rw [List.append_assoc]; rfl
  unfold Block.layOut at h
  cases hb : b.ending with
  | none => rw [hb] at h; cases h
  | some ending =>
      cases ending with
      | ret opcode =>
          simp only [hb] at h
          obtain ⟨e₁, h₁, h⟩ := except_bind_eq_ok.1 h
          obtain ⟨rfl, hsize⟩ := Emission.checkLength_eq_ok.1 h₁
          cases h
          refine ⟨_, .ret hb, hsize, fun o ps hr => ?_⟩
          rw [happ]
          exact (hr.body b).ret opcode
      | jump t =>
          simp only [hb] at h
          obtain ⟨⟨⟩, ht, h⟩ := except_bind_eq_ok.1 h
          obtain ⟨e₁, h₁, h⟩ := except_bind_eq_ok.1 h
          obtain ⟨rfl, hsize⟩ := Emission.checkLength_eq_ok.1 h₁
          cases h
          exact ⟨_, .jump hb ht, hsize, fun o ps hr => hr.body b⟩
      | branch condition t f =>
          simp only [hb] at h
          obtain ⟨⟨⟩, ht, h⟩ := except_bind_eq_ok.1 h
          obtain ⟨⟨⟩, hf, h⟩ := except_bind_eq_ok.1 h
          cases condition with
          | le =>
              simp only [Condition.negatedOpcode?] at h
              obtain ⟨e₁, h₁, h⟩ := except_bind_eq_ok.1 h
              obtain ⟨rfl, hsize⟩ := Emission.checkLength_eq_ok.1 h₁
              cases h
              refine ⟨_, .branch hb ht hf, hsize, fun o ps hr => ?_⟩
              rw [happ]
              exact (hr.body b).jump (Or.inr ⟨rfl, rfl⟩) ⟨rfl, Or.inl rfl⟩
          | _ => cases h

theorem Emission.emitGoto_eq_ok {e e' : Emission} {t : BlockId} {offset : Nat}
    (h : e.emitGoto t offset = .ok e') :
    e'.code.size ≤ 65535 ∧ ∀ o ps, o t = some offset → e.Renders o ps →
      e'.Renders o (ps ++ [.goto t]) := by
  unfold Emission.emitGoto at h
  obtain ⟨v, hv, h⟩ := except_bind_eq_ok.1 h
  obtain ⟨rfl, hsize⟩ := Emission.checkLength_eq_ok.1 h
  exact ⟨hsize, fun o ps ho hr =>
    hr.jump (Or.inl ⟨rfl, rfl⟩) ⟨rfl, Or.inr ⟨offset, v, ho, hv, rfl⟩⟩⟩

/-- The blocks stand where the listing has them, and the emission is that of the listing. -/
structure Emission.Holds (blocks : Array Block) (l : Listing) (placement : Placement)
    (e : Emission) : Prop where
  size : placement.size = blocks.size
  offset : ∀ id, placement.offset? id = l.offset? id
  renders : e.Renders l.offset? l.pieces
  limit : e.code.size ≤ 65535

theorem Placement.offset?_set {p : Placement} {i n : Nat} (h : i < p.size) (id : BlockId) :
    Placement.offset? (p.set i (some n)) id = if id.index = i then some n else p.offset? id := by
  unfold Placement.offset?
  rw [Array.getElem?_set]
  by_cases hi : i = id.index
  · simp [hi]
  · simp [hi, Ne.symm hi]

theorem Placement.offset?_eq {p : Placement} {id : BlockId} (h : id.index < p.size) :
    p.offset? id = p[id.index] := by
  simp [Placement.offset?, h]

theorem Placement.offset?_replicate (n : Nat) (id : BlockId) :
    Placement.offset? (Array.replicate n none) id = none := by
  rw [Placement.offset?, Array.getElem?_replicate]
  split <;> rfl

namespace Emission.Holds

variable {blocks : Array Block} {l : Listing} {placement : Placement} {e e' : Emission}

theorem goto {s : Stretch} {t : BlockId} {offset : Nat} (hh : e.Holds blocks (l ++ [s]) placement)
    (ht : placement.offset? t = some offset) (h : e.emitGoto t offset = .ok e') :
    e'.Holds blocks (l ++ [{ s with exit := s.exit ++ [.goto t] }]) placement := by
  obtain ⟨hsize, hren⟩ := Emission.emitGoto_eq_ok h
  have hoff : Listing.offset? (l ++ [{ s with exit := s.exit ++ [.goto t] }]) =
      Listing.offset? (l ++ [s]) := by
    funext id
    rw [Listing.offset?_snoc, Listing.offset?_snoc]
  have hpieces : Listing.pieces (l ++ [{ s with exit := s.exit ++ [.goto t] }]) =
      Listing.pieces (l ++ [s]) ++ [.goto t] := by
    simp only [Listing.pieces_append, Listing.pieces_singleton, Stretch.pieces, List.append_assoc,
      List.cons_append]
  refine ⟨hh.size, fun id => by rw [hoff]; exact hh.offset id, ?_, hsize⟩
  rw [hoff, hpieces]
  exact hren _ _ (by rw [← hh.offset]; exact ht) hh.renders

theorem place {id : BlockId} {b : Block} {more : List Task} (hh : e.Holds blocks l placement)
    (hi : id.index < placement.size) (hn : placement.offset? id = none)
    (h : b.layOut blocks e = .ok (more, e')) :
    ∃ exit, b.Departs blocks more exit ∧
      e'.Holds blocks (l ++ [⟨id, b, exit⟩]) (placement.set id.index (some e.code.size)) := by
  obtain ⟨exit, hd, hsize, hren⟩ := Block.layOut_eq_ok h
  refine ⟨exit, hd, ?_, fun id' => ?_, ?_, hsize⟩
  · rw [Array.size_set]
    exact hh.size
  · have hsz : e.code.size = l.size := hh.renders.size_eq
    rw [Placement.offset?_set hi, Listing.offset?_snoc, hsz]
    by_cases hid : id' = id
    · subst hid
      rw [← hh.offset, hn]
      simp
    · have hne : ¬id'.index = id.index := fun h => hid (by cases id'; cases id; simpa using h)
      simp [hne, Ne.symm hid, hh.offset]
  · have hmono : ∀ t n, l.offset? t = some n →
        Listing.offset? (l ++ [⟨id, b, exit⟩]) t = some n := by
      intro t n ht
      rw [Listing.offset?_snoc, ht]
      rfl
    rw [Listing.pieces_append, Listing.pieces_singleton]
    exact hren _ _ (hh.renders.mono hmono)

end Emission.Holds

/-! ## One step of the run -/

/-- What a task adds whose block stands at `offset` already. -/
def Emission.revisit (e : Emission) (offset : Nat) : Task → Except Error Emission
  | .placeIfNew _ => .ok e
  | .reach target => e.emitGoto target offset

namespace Layout

variable {blocks : Array Block} {tasks : List Task} {placement : Placement} {e : Emission} {id : BlockId}
  {b : Block} {offset : Nat}

theorem lt_size_of_offset? (h : placement.offset? id = some offset) : id.index < placement.size := by
  by_contra hn
  rw [Placement.offset?, Array.getElem?_eq_none (Nat.le_of_not_lt hn)] at h
  cases h

theorem run_nil : run blocks [] placement e = .ok (placement, e) := by rw [run]

theorem run_placed {task : Task} (h : placement.offset? task.block = some offset) :
    run blocks (task :: tasks) placement e =
      e.revisit offset task >>= fun e => run blocks tasks placement e := by
  have hi := lt_size_of_offset? h
  rw [Placement.offset?_eq hi] at h
  rw [run]
  simp only [hi, dite_true]
  split
  next hs =>
    rw [h] at hs
    cases hs
    cases task with
    | placeIfNew _ => rfl
    | reach target =>
        simp only [Emission.revisit, Task.block]
        cases e.emitGoto target offset <;> rfl
  next hn =>
    rw [hn] at h
    cases h

theorem run_new {task : Task} (hi : task.block.index < placement.size)
    (h : placement.offset? task.block = none) (hb : blocks[task.block.index]? = some b) :
    run blocks (task :: tasks) placement e =
      b.layOut blocks e >>= fun r =>
        run blocks (r.1 ++ tasks) (placement.set task.block.index (some e.code.size)) r.2 := by
  rw [Placement.offset?_eq hi] at h
  rw [run]
  simp only [hi, dite_true]
  split
  next hs =>
    rw [h] at hs
    cases hs
  next hn =>
    simp only [hb]
    cases b.layOut blocks e <;> rfl

end Layout

/-- A run that succeeds follows a walk, and ends with the emission of its listing. -/
theorem Layout.run_walk {blocks : Array Block} {tasks : List Task} {placement placement' : Placement}
    {e e' : Emission} {l : Listing} (hh : e.Holds blocks l placement)
    (h : Layout.run blocks tasks placement e = .ok (placement', e')) :
    ∃ l', Walk blocks tasks l l' ∧ e'.Holds blocks l' placement' := by
  fun_induction Layout.run blocks tasks placement e generalizing l
  case case1 =>
    cases h
    exact ⟨l, .done, hh⟩
  case case2 placement _ _ offset f _ hi _ hp ih =>
    have ho : placement.offset? f = some offset := (Placement.offset?_eq hi).trans hp
    have hf : f ∈ l.ids := by
      rw [← Listing.isSome_offset?, ← hh.offset, ho]
      rfl
    obtain ⟨l', hw, hh'⟩ := ih hh h
    exact ⟨l', .step (.skip hf) hw, hh'⟩
  case case4 placement _ _ offset t _ _ hi _ hp he ih =>
    have ho : placement.offset? t = some offset := (Placement.offset?_eq hi).trans hp
    have ht : t ∈ l.ids := by
      rw [← Listing.isSome_offset?, ← hh.offset, ho]
      rfl
    rcases List.eq_nil_or_concat l with rfl | ⟨l₀, s, rfl⟩
    · cases ht
    · rw [List.concat_eq_append] at hh ht ⊢
      obtain ⟨l', hw, hh'⟩ := ih (hh.goto ho he) h
      exact ⟨l', .step (.goto rfl ht) hw, hh'⟩
  case case7 placement _ task _ _ hi hp _ hb _ _ he ih =>
    have ho : placement.offset? task.block = none := (Placement.offset?_eq hi).trans hp
    have hn : task.block ∉ l.ids := by
      rw [← Listing.offset?_eq_none, ← hh.offset]
      exact ho
    obtain ⟨exit, hd, hh₁⟩ := hh.place hi ho he
    obtain ⟨l', hw, hh'⟩ := ih hh₁ h
    exact ⟨l', .step (.place hn hb hd) hw, hh'⟩
  case case3 | case5 | case6 | case8 => cases h

/-! ## Patching -/

namespace Patch

variable {o : BlockId → Option Nat} {placement : Placement}

theorem Serves.resolve_eq_ok {p : Patch} {n : Nat} {t : BlockId} {v : Int16}
    (hs : p.Serves o (n, t)) (ho : ∀ id, placement.offset? id = o id)
    (h : p.resolve placement = .ok v) : ∃ k, o t = some k ∧ (n : Int) + v.toInt = k := by
  rcases hs.value with hv | ⟨k, w, hk, hw, hv⟩
  · simp only [resolve, hv, ho] at h
    cases hk : o t with
    | none => rw [hk] at h; cases h
    | some k =>
        rw [hk] at h
        exact ⟨k, rfl, jumpOffset_eq_ok h⟩
  · simp only [resolve, hv] at h
    cases h
    exact ⟨k, hk, jumpOffset_eq_ok hw⟩

/-- A patch turns the placeholder of its jump into the jump. -/
theorem Serves.apply_eq_ok {p : Patch} {t : BlockId} {code code' : Array UInt8}
    {before after : List UInt8} {opcode : UInt8} (hs : p.Serves o (before.length, t))
    (ho : ∀ id, placement.offset? id = o id)
    (hc : code.toList = before ++ ([opcode, 0, 0] ++ after))
    (h : p.apply placement code = .ok code') :
    ∃ bytes, JumpTo o opcode before.length t bytes ∧ code'.toList = before ++ (bytes ++ after) := by
  unfold Patch.apply at h
  obtain ⟨v, hv, h⟩ := except_bind_eq_ok.1 h
  obtain ⟨k, hk, hd⟩ := hs.resolve_eq_ok ho hv
  split at h
  · cases h
    refine ⟨_, ⟨k, v, hk, hd, rfl⟩, ?_⟩
    have hloc : p.location = before.length + 1 := hs.location
    simp [hc, hloc, Nat.add_assoc, Bytes.u16, Bytes.bigEndian]
  · cases h

theorem assembles_of_foldlM {ps : List Piece} {patches : List Patch} {before : List UInt8}
    {code code' : Array UInt8} (ho : ∀ id, placement.offset? id = o id)
    (hc : code.toList = before ++ ps.flatMap Piece.placeholder)
    (hp : List.Forall₂ (Serves o) patches (Piece.jumps before.length ps))
    (h : patches.foldlM (fun code p => p.apply placement code) code = .ok code') :
    ∃ done, Assembles o before.length ps done ∧ code'.toList = before ++ done := by
  induction ps generalizing patches before code with
  | nil =>
      cases hp
      cases h
      exact ⟨[], .nil, hc⟩
  | cons p ps ih =>
      rw [List.flatMap_cons] at hc
      -- what is written before the rest of the pieces, once `p` has its final bytes
      have hnext : ∀ {bytes patches} {code : Array UInt8}, p.Stands o before.length bytes →
          code.toList = before ++ (bytes ++ ps.flatMap Piece.placeholder) →
          List.Forall₂ (Serves o) patches (Piece.jumps (before.length + p.placeholder.length) ps) →
          patches.foldlM (fun code p => p.apply placement code) code = .ok code' →
          ∃ done, Assembles o before.length (p :: ps) done ∧ code'.toList = before ++ done := by
        intro bytes patches code hb hc hp h
        rw [← hb.length_eq, ← List.length_append] at hp
        rw [← List.append_assoc] at hc
        obtain ⟨done, ha, hd⟩ := ih hc hp h
        rw [List.length_append] at ha
        exact ⟨bytes ++ done, .cons hb ha, by rw [hd, List.append_assoc]⟩
      have hjump : ∀ {opcode t}, p.placeholder = [opcode, 0, 0] → p.target? = some t →
          (∀ bytes, JumpTo o opcode before.length t bytes → p.Stands o before.length bytes) →
          ∃ done, Assembles o before.length (p :: ps) done ∧ code'.toList = before ++ done := by
        intro opcode t hph ht hst
        simp only [Piece.jumps, ht, Option.map_some, Option.toList_some, List.singleton_append] at hp
        cases hp with
        | cons hs hp =>
            rw [List.foldlM_cons] at h
            obtain ⟨code₁, h₁, h⟩ := except_bind_eq_ok.1 h
            rw [hph] at hc
            obtain ⟨bytes, hb, hc₁⟩ := hs.apply_eq_ok ho hc h₁
            exact hnext (hst bytes hb) hc₁ hp h
      cases p with
      | body b => exact hnext (.body b) hc hp h
      | ret opcode => exact hnext (.ret opcode) hc hp h
      | goto t => exact hjump rfl rfl fun _ => .goto
      | compare t => exact hjump rfl rfl fun _ => .compare

end Patch

end ClassForge
