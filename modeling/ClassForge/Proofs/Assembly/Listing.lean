import ClassForge.Assembly.MethodDraft
import Mathlib.Data.List.Basic

/-!
# Listings

A listing is the code of a method before it is bytes: the placed blocks in order, and behind each of
them the instructions by which control leaves it, with jumps that still name the block they lead to.
-/

namespace ClassForge

inductive Piece where
  | body (b : Block)
  | ret (opcode : UInt8)
  | goto (target : BlockId)
  /-- Jumps when the comparison of a branch fails. -/
  | compare (target : BlockId)

namespace Piece

def target? : Piece → Option BlockId
  | goto t | compare t => some t
  | body _ | ret _ => none

/-- The bytes of a piece while no distance is known. -/
def placeholder : Piece → List UInt8
  | body b => b.code
  | ret opcode => [opcode]
  | goto _ => [0xa7, 0, 0]
  | compare _ => [0xa3, 0, 0]

end Piece

/-! ## Pieces as bytes -/

/-- A jump from `origin` by a signed distance of 16 bits that leads to where `target` stands. -/
def JumpTo (o : BlockId → Option Nat) (opcode : UInt8) (origin : Nat) (target : BlockId)
    (bytes : List UInt8) : Prop :=
  ∃ (n : Nat) (v : Int16), o target = some n ∧ (origin : Int) + v.toInt = n ∧
    bytes = opcode :: Bytes.u16 v.toUInt16

/-- The bytes of a piece that stands at offset `n`, once every block has its offset. -/
inductive Piece.Stands (o : BlockId → Option Nat) (n : Nat) : Piece → List UInt8 → Prop
  | body (b : Block) : Stands o n (.body b) b.code
  | ret (opcode : UInt8) : Stands o n (.ret opcode) [opcode]
  | goto {t bytes} : JumpTo o 0xa7 n t bytes → Stands o n (.goto t) bytes
  | compare {t bytes} : JumpTo o 0xa3 n t bytes → Stands o n (.compare t) bytes

inductive Assembles (o : BlockId → Option Nat) : Nat → List Piece → List UInt8 → Prop
  | nil {n} : Assembles o n [] []
  | cons {n p ps bytes code} : p.Stands o n bytes → Assembles o (n + bytes.length) ps code →
      Assembles o n (p :: ps) (bytes ++ code)

theorem JumpTo.length_eq {o opcode origin t bytes} (h : JumpTo o opcode origin t bytes) :
    bytes.length = 3 := by
  obtain ⟨n, v, -, -, rfl⟩ := h
  rfl

theorem Piece.Stands.length_eq {o n p bytes} (h : Piece.Stands o n p bytes) :
    bytes.length = p.placeholder.length := by
  cases h with
  | body b => rfl
  | ret opcode => rfl
  | goto h => exact h.length_eq
  | compare h => exact h.length_eq

theorem Assembles.length_eq {o n ps code} (h : Assembles o n ps code) :
    code.length = (ps.flatMap Piece.placeholder).length := by
  induction h with
  | nil => rfl
  | cons hp _ ih => rw [List.length_append, List.flatMap_cons, List.length_append, hp.length_eq, ih]

theorem Assembles.append_iff {o n ps qs code} :
    Assembles o n (ps ++ qs) code ↔
      ∃ as bs, code = as ++ bs ∧ Assembles o n ps as ∧ Assembles o (n + as.length) qs bs := by
  induction ps generalizing n code with
  | nil =>
      refine ⟨fun h => ⟨[], code, rfl, .nil, h⟩, fun h => ?_⟩
      obtain ⟨as, bs, rfl, ha, hb⟩ := h
      cases ha
      exact hb
  | cons p ps ih =>
      refine ⟨fun h => ?_, fun h => ?_⟩
      · cases h with
        | @cons _ _ _ bytes code hp h =>
            obtain ⟨as, bs, rfl, ha, hb⟩ := ih.1 h
            refine ⟨bytes ++ as, bs, by rw [List.append_assoc], .cons hp ha, ?_⟩
            rwa [List.length_append, ← Nat.add_assoc]
      · obtain ⟨as, bs, rfl, ha, hb⟩ := h
        cases ha with
        | @cons _ _ _ bytes as hp ha =>
            rw [List.append_assoc]
            refine .cons hp (ih.2 ⟨as, bs, rfl, ha, ?_⟩)
            rwa [List.length_append, ← Nat.add_assoc] at hb

/-! ## Stretches -/

/-- A placed block and the pieces behind its body. -/
structure Stretch where
  id : BlockId
  block : Block
  exit : List Piece

namespace Stretch

def pieces (s : Stretch) : List Piece := .body s.block :: s.exit

def size (s : Stretch) : Nat := (s.pieces.flatMap Piece.placeholder).length

end Stretch

/-- How control leaves a block with a given ending when the block `next` is laid down behind it. -/
inductive Leaves (next : Option BlockId) : Ending → List Piece → Prop
  | ret (opcode : UInt8) : Leaves next (.ret opcode) [.ret opcode]
  | fall {t : BlockId} : next = some t → Leaves next (.jump t) []
  | goto (t : BlockId) : Leaves next (.jump t) [.goto t]
  | compareFall {t f : BlockId} : next = some t → Leaves next (.branch .le t f) [.compare f]
  | compareGoto (t f : BlockId) : Leaves next (.branch .le t f) [.compare f, .goto t]

def Stretch.Closes (s : Stretch) (next : Option BlockId) : Prop :=
  ∃ ending, s.block.ending = some ending ∧ Leaves next ending s.exit

theorem Leaves.of_none {next ending exit} (h : Leaves none ending exit) : Leaves next ending exit := by
  cases h with
  | ret opcode => exact .ret opcode
  | fall hn => cases hn
  | goto t => exact .goto t
  | compareFall hn => cases hn
  | compareGoto t f => exact .compareGoto t f

theorem Stretch.Closes.of_none {s : Stretch} {next} (h : s.Closes none) : s.Closes next := by
  obtain ⟨ending, he, hl⟩ := h
  exact ⟨ending, he, hl.of_none⟩

abbrev Listing := List Stretch

namespace Listing

def ids (l : Listing) : List BlockId := l.map Stretch.id

def pieces (l : Listing) : List Piece := l.flatMap Stretch.pieces

def size (l : Listing) : Nat := (l.pieces.flatMap Piece.placeholder).length

def targets (l : Listing) : List BlockId := l.pieces.filterMap Piece.target?

/-- Where a block stands in a listing that starts at offset `n`. -/
def offsetFrom (n : Nat) : Listing → BlockId → Option Nat
  | [], _ => none
  | s :: l, id => if s.id = id then some n else offsetFrom (n + s.size) l id

def offset? (l : Listing) : BlockId → Option Nat := l.offsetFrom 0

/-- Every stretch is left in a way that fits the one behind it; `next` comes behind the last. -/
def Linked (next : Option BlockId) : Listing → Prop
  | [] => True
  | s :: l => s.Closes ((l.head?.map Stretch.id).or next) ∧ Linked next l

theorem ids_append (l l' : Listing) : (l ++ l').ids = l.ids ++ l'.ids := List.map_append

theorem pieces_append (l l' : Listing) : (l ++ l').pieces = l.pieces ++ l'.pieces :=
  List.flatMap_append

theorem pieces_singleton (s : Stretch) : Listing.pieces [s] = s.pieces := List.append_nil _

theorem targets_append (l l' : Listing) : (l ++ l').targets = l.targets ++ l'.targets := by
  rw [targets, pieces_append, List.filterMap_append]
  rfl

theorem size_append (l l' : Listing) : (l ++ l').size = l.size + l'.size := by
  rw [size, pieces_append, List.flatMap_append, List.length_append]
  rfl

theorem size_singleton (s : Stretch) : Listing.size [s] = s.size := by
  rw [size, pieces_singleton]
  rfl

theorem size_cons (s : Stretch) (l : Listing) : Listing.size (s :: l) = s.size + size l := by
  rw [← size_singleton, ← size_append]
  rfl

theorem offsetFrom_append (n : Nat) (l l' : Listing) (id : BlockId) :
    (l ++ l').offsetFrom n id = (l.offsetFrom n id).or (l'.offsetFrom (n + l.size) id) := by
  induction l generalizing n with
  | nil => rfl
  | cons s l ih =>
      by_cases hs : s.id = id
      · simp [offsetFrom, hs]
      · simp only [List.cons_append, offsetFrom, hs, if_false, ih, size_cons, Nat.add_assoc]

theorem offset?_snoc (l : Listing) (s : Stretch) (id : BlockId) :
    (l ++ [s]).offset? id = (l.offset? id).or (if s.id = id then some l.size else none) := by
  simp [offset?, offsetFrom_append, offsetFrom]

theorem offsetFrom_eq_none {n : Nat} {l : Listing} {id : BlockId} :
    l.offsetFrom n id = none ↔ id ∉ l.ids := by
  induction l generalizing n with
  | nil => simp [offsetFrom, ids]
  | cons s l ih =>
      by_cases hs : s.id = id
      · simp [offsetFrom, hs, ids]
      · simp only [offsetFrom, hs, if_false, ih, ids, List.map_cons, List.mem_cons, not_or,
          Ne.symm hs, not_false_eq_true, true_and]

theorem offset?_eq_none {l : Listing} {id : BlockId} : l.offset? id = none ↔ id ∉ l.ids :=
  offsetFrom_eq_none

theorem isSome_offset? {l : Listing} {id : BlockId} : (l.offset? id).isSome ↔ id ∈ l.ids := by
  rw [← not_iff_not, ← offset?_eq_none]
  simp

theorem offset?_of_split {l l' : Listing} {s : Stretch} (h : s.id ∉ l.ids) :
    (l ++ s :: l').offset? s.id = some l.size := by
  rw [offset?, offsetFrom_append, offsetFrom_eq_none.2 h]
  simp [offsetFrom]

theorem linked_snoc {next : Option BlockId} {l : Listing} {s : Stretch} :
    Linked next (l ++ [s]) ↔ Linked (some s.id) l ∧ s.Closes next := by
  induction l with
  | nil => simp [Linked]
  | cons r l ih =>
      have hnext : ((l ++ [s]).head?.map Stretch.id).or next =
          (l.head?.map Stretch.id).or (some s.id) := by
        cases l <;> simp
      simp only [List.cons_append, Linked, ih, hnext, and_assoc]

theorem Linked.of_none {next : Option BlockId} {l : Listing} (h : Linked none l) : Linked next l := by
  induction l with
  | nil => trivial
  | cons s l ih =>
      obtain ⟨hs, hl⟩ := h
      refine ⟨?_, ih hl⟩
      cases l with
      | nil => exact Stretch.Closes.of_none hs
      | cons r l => exact hs

end Listing

end ClassForge
