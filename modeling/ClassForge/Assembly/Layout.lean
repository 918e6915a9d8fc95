import ClassForge.Assembly.Block
import ClassForge.Assembly.Patch

/-!
The layout of a method: a walk from the entry block that places each reachable block once. A jump to
a block that has no place yet is a fall through to it; a comparison jumps to its second target and
falls through to its first; a block that has its place is reached by a `goto`.
-/

namespace ClassForge

/-- What is left to place. -/
inductive Task where
  /-- Place the block here, or jump to it. -/
  | reach (block : BlockId)
  /-- Place the block here if it has no place; a comparison jumps to it already. -/
  | placeIfNew (block : BlockId)
  deriving DecidableEq, Repr

def Task.block : Task → BlockId
  | reach b | placeIfNew b => b

/-- The code so far. -/
structure Emission where
  code : Array UInt8
  /-- Newest first. -/
  patches : List Patch
  /-- The blocks that some instruction jumps to. -/
  targets : List BlockId
  maxima : Maxima

namespace Emission

def empty : Emission := ⟨#[], [], [], Maxima.zero⟩

/-- No code has more than 65535 bytes. -/
def checkLength (e : Emission) (block : BlockId) : Except Error Emission :=
  if e.code.size > 65535 then .error (.codeOverflow block e.code.size) else .ok e

/-- Adds an instruction with a placeholder for the distance to `target`. -/
def emitJump (e : Emission) (opcode : UInt8) (value : PatchValue) (target : BlockId) : Emission :=
  { e with
    patches := ⟨e.code.size + 1, value⟩ :: e.patches
    code := ((e.code.push opcode).push 0).push 0
    targets := target :: e.targets }

/-- Jumps to a block that stands at `offset`. -/
def emitGoto (e : Emission) (target : BlockId) (offset : Nat) : Except Error Emission := do
  let distance ← jumpOffset e.code.size offset
  (e.emitJump 0xa7 (.known distance) target).checkLength target

/-- Adds the instructions of a block, without its ending. -/
def emitBody (e : Emission) (b : Block) : Emission :=
  { e with code := e.code ++ b.code, maxima := e.maxima.join b.maxima }

end Emission

namespace Block

/-- Whether control can go from the end of this block to another. -/
def checkEdge (source : Block) (blocks : Array Block) (target : BlockId) : Except Error Unit :=
  match blocks[target.index]? with
  | none => .error (.unknownBlock target)
  | some b =>
    if source.frame.assignable b.entry then .ok ()
    else .error (.incompatibleFrames source.id target source.frame b.entry)

/-- Adds a block's instructions and its ending, and says what to place next. -/
def layOut (b : Block) (blocks : Array Block) (e : Emission) :
    Except Error (List Task × Emission) := do
  let e' := e.emitBody b
  match b.ending with
  | none => throw (.notSealed b.id)
  | some (.ret opcode) =>
    let e' ← { e' with code := e'.code.push opcode }.checkLength b.id
    return ([], e')
  | some (.jump target) =>
    b.checkEdge blocks target
    let e' ← e'.checkLength b.id
    return ([.reach target], e')
  | some (.branch condition ifTrue ifFalse) =>
    b.checkEdge blocks ifTrue
    b.checkEdge blocks ifFalse
    match condition.negatedOpcode? with
    | none => throw (.unsupportedCondition condition)
    | some opcode =>
      let e' ← (e'.emitJump opcode (.jump ifFalse e'.code.size) ifFalse).checkLength b.id
      return ([.reach ifTrue, .placeIfNew ifFalse], e')

end Block

namespace Layout

def unplaced (p : Placement) : Nat := p.countP Option.isNone

theorem unplaced_set_lt {p : Placement} {i n : Nat} (h : i < p.size) (hi : p[i] = none) :
    unplaced (p.set i (some n)) < unplaced p := by
  have hpos : 0 < p.countP Option.isNone :=
    Array.countP_pos_iff.2 ⟨p[i], p.getElem_mem h, by simp [hi]⟩
  simp only [unplaced, Array.countP_set, hi, Option.isNone_none, Option.isNone_some, if_true,
    Bool.false_eq_true, if_false, Nat.add_zero]
  exact Nat.sub_lt hpos Nat.one_pos

/-- Carries out the tasks, the first one first. -/
def run (blocks : Array Block) (tasks : List Task) (placement : Placement) (e : Emission) :
    Except Error (Placement × Emission) :=
  match tasks with
  | [] => .ok (placement, e)
  | task :: tasks =>
    let id := task.block
    if h : id.index < placement.size then
      match hp : placement[id.index] with
      | some offset =>
        match task with
        | .placeIfNew _ => run blocks tasks placement e
        | .reach _ =>
          match e.emitGoto id offset with
          | .error err => .error err
          | .ok e => run blocks tasks placement e
      | none =>
        match blocks[id.index]? with
        | none => .error (.unknownBlock id)
        | some b =>
          match b.layOut blocks e with
          | .error err => .error err
          | .ok (more, e') =>
            run blocks (more ++ tasks) (placement.set id.index (some e.code.size)) e'
    else .error (.unknownBlock id)
termination_by (unplaced placement, tasks.length)
decreasing_by
  · exact Prod.Lex.right _ (Nat.lt_succ_self _)
  · exact Prod.Lex.right _ (Nat.lt_succ_self _)
  · exact Prod.Lex.left _ _ (unplaced_set_lt h hp)

end Layout

end ClassForge
