import ClassForge.Proofs.Assembly.Calls
import ClassForge.Proofs.Assembly.Disassembly
import Mathlib.Data.List.Forall2

/-!
# Calls read back from code

The code of a block is the concatenation of the instructions of its calls, and it is read back as one
instruction for each of them. Slots, numbers and names come out as they went in.
-/

namespace ClassForge

namespace Constants

def integer? (cs : Constants) (i : UInt16) : Option Int32 :=
  match cs.lookup? (⟨i⟩ : Index .any) with
  | some (.integer v) => some v
  | _ => none

end Constants

/-- The integer that an instruction pushes; bytes and shorts are extended by their sign. -/
def Instruction.pushed? (cs : Constants) : Instruction → Option Int32
  | iconst n => some (Int32.ofInt (n.val - 1))
  | bipush v => some v.toInt32
  | sipush v => some v.toInt32
  | ldc i => cs.integer? i.toUInt16
  | ldcWide i => cs.integer? i
  | _ => none

/-- The three forms of an instruction that moves a local. -/
inductive MoveForm (slot : UInt16) : List UInt8 → Prop
  | short {opcode : UInt8} : slot.toNat ≤ 3 → MoveForm slot [opcode]
  | byte {opcode operand : UInt8} : 4 ≤ slot.toNat → operand.toNat = slot.toNat →
      MoveForm slot [opcode, operand]
  | wide {opcode high low : UInt8} : 256 ≤ slot.toNat → 256 * high.toNat + low.toNat = slot.toNat →
      MoveForm slot [0xc4, opcode, high, low]

/-- What a call asks for is what its bytes and the instruction read from them say. -/
inductive Command.Spelled (locals : Slots VType) (cs : Constants) :
    Command → List UInt8 × Instruction → Prop
  | load {slot t bank bytes} : locals.get? slot.toNat = some t → Bank.ofType? t = some bank →
      MoveForm slot bytes → Spelled locals cs (.load slot) (bytes, .load bank slot)
  | store {slot t bank bytes} : locals.get? slot.toNat = some t → Bank.ofType? t = some bank →
      MoveForm slot bytes → Spelled locals cs (.store slot) (bytes, .store bank slot)
  | pushInt {v i bytes} : i.pushed? cs = some v → Spelled locals cs (.pushInt v) (bytes, i)
  | accessField {access field owner i bytes} : cs.field? i = some (owner, field.symbol) →
      Spelled locals cs (.accessField access field) (bytes, .field access i)
  | defaultValue {name i bytes} : cs.className? i = some name →
      Spelled locals cs (.defaultValue name) (bytes, .defaultValue i)
  | invokeStatic {method i bytes} : cs.method? i = some (method.symbol, method.onInterface) →
      Spelled locals cs (.invokeStatic method) (bytes, .invokeStatic i)
  | arithmetic {op kind bytes} :
      Spelled locals cs (.arithmetic op kind) (bytes, .arithmetic op kind)
  | negate {kind bytes} : Spelled locals cs (.negate kind) (bytes, .negate kind)
  | pop {i bytes} : i = .pop ∨ i = .pop2 → Spelled locals cs .pop (bytes, i)
  | dup {i bytes} : i = .dup ∨ i = .dup2 → Spelled locals cs .dup (bytes, i)

/-! ## One instruction -/

theorem Pool.Holds.integer? {pool : Pool} {v : Int32} {i : Index .any}
    (h : pool.Holds (.integer v) i) (hs : pool.Sound) : pool.constants.integer? i.val = some v := by
  simp only [Constants.integer?, h.lookup? hs]

theorem ofInt_iconst {v : Int32} (h₁ : -1 ≤ v.toInt) (h₂ : v.toInt ≤ 5) :
    Int32.ofInt (((Fin.ofNat 7 (v.toInt + 1).toNat).val : Int) - 1) = v := by
  have hn : ((Fin.ofNat 7 (v.toInt + 1).toNat).val : Int) = v.toInt + 1 := by
    rw [Fin.val_ofNat, Nat.mod_eq_of_lt (by omega)]
    omega
  rw [hn, Int.add_sub_cancel, Int32.ofInt_toInt]

theorem toInt32_toInt8 {v : Int32} (h₁ : -128 ≤ v.toInt) (h₂ : v.toInt ≤ 127) :
    v.toInt8.toInt32 = v := by
  apply Int32.toInt_inj.1
  rw [Int8.toInt_toInt32, Int32.toInt_toInt8]
  exact Int.bmod_eq_of_le (by omega) (by omega)

theorem toInt32_toInt16 {v : Int32} (h₁ : -32768 ≤ v.toInt) (h₂ : v.toInt ≤ 32767) :
    v.toInt16.toInt32 = v := by
  apply Int32.toInt_inj.1
  rw [Int16.toInt_toInt32, Int32.toInt_toInt16]
  exact Int.bmod_eq_of_le (by omega) (by omega)

theorem Command.PushesInt.pushed? {pool : Pool} {v : Int32} {i : Instruction}
    (h : PushesInt pool v i) (hs : pool.Sound) : i.pushed? pool.constants = some v := by
  cases h with
  | iconst h₁ h₂ => exact congrArg some (ofInt_iconst h₁ h₂)
  | bipush h₁ h₂ => exact congrArg some (toInt32_toInt8 h₁ h₂)
  | sipush h₁ h₂ => exact congrArg some (toInt32_toInt16 h₁ h₂)
  | ldc h hi =>
      rw [Instruction.pushed?, Op.toUInt16_ofNat hi]
      exact h.integer? hs
  | ldcWide h => exact h.integer? hs

theorem moveForm_encodeMove (opcode shortOpcode : Nat) (slot : UInt16) :
    MoveForm slot (Instruction.encodeMove opcode shortOpcode slot) := by
  unfold Instruction.encodeMove
  split
  next h => exact .short h
  next h =>
    split
    next h' =>
      refine .byte (by omega) ?_
      rw [UInt8.toNat_ofNat', Nat.mod_eq_of_lt (by omega)]
    next h' =>
      refine .wide (by omega) ?_
      have hlt : slot.toNat < 65536 := slot.toNat_lt
      simp only [UInt8.toNat_ofNat']
      omega

theorem Command.Emits.spelled {locals : Slots VType} {pool : Pool} {stack : List VType}
    {command : Command} {i : Instruction} {pops pushes : List VType}
    (h : Emits locals pool stack command i pops pushes) (hs : pool.Sound) :
    Spelled locals pool.constants command (i.encode, i) := by
  cases h with
  | load ht hb => exact .load ht hb (moveForm_encodeMove _ _ _)
  | store ht hb => exact .store ht hb (moveForm_encodeMove _ _ _)
  | pushInt h => exact .pushInt (h.pushed? hs)
  | @accessField _ field owner _ i _ hm hi _ =>
      have hf : pool.constants.field? i = some (owner, field.symbol) := by
        simp only [Constants.field?, hi.lookup? hs, hm.member? hs, Option.map_some]
      exact .accessField hf
  | defaultValue h => exact .defaultValue (h.className? hs)
  | invokeStatic hm hi _ _ =>
      refine .invokeStatic ?_
      simp only [Constants.method?, hi.lookup? hs, hm.member? hs, Option.map_some]
  | arithmetic _ => exact .arithmetic
  | negate => exact .negate
  | pop _ => exact .pop (by split <;> simp)
  | dup _ => exact .dup (by split <;> simp)

/-! ## All instructions -/

theorem Block.Wrote.spelled {locals : Slots VType} {pool : Pool} {bound : Nat}
    {entry stack : List VType} {commands : List Command} {is : List Instruction}
    (h : Wrote locals pool bound entry commands is stack) (hs : pool.Sound) :
    List.Forall₂ (Command.Spelled locals pool.constants) commands
      (is.map fun i => (i.encode, i)) := by
  induction h with
  | start _ => exact .nil
  | emit _ hi _ _ ih =>
      rw [List.map_append]
      exact List.rel_append ih (.cons (hi.spelled hs) .nil)

theorem Block.Wrote.defined {locals : Slots VType} {pool : Pool} {bound : Nat}
    {entry stack : List VType} {commands : List Command} {is : List Instruction}
    (h : Wrote locals pool bound entry commands is stack) : ∀ i ∈ is, i.Defined := by
  induction h with
  | start _ => simp
  | emit _ hi _ _ ih =>
      intro i hmem
      rcases List.mem_append.1 hmem with hmem | hmem
      · exact ih i hmem
      · rw [List.mem_singleton.1 hmem]
        exact hi.defined

theorem Op.map_snd_placed (n : Nat) (ops : List Op) : (placed n ops).map Prod.snd = ops := by
  induction ops generalizing n with
  | nil => rfl
  | cons op ops ih => exact congrArg (op :: ·) (ih _)

theorem Op.disassemble_flatMap {ops : List Op} (h : ∀ op ∈ ops, op.Defined) (n : Nat) :
    disassemble n (ops.flatMap encode) = some (placed n ops) := by
  have hd := disassemble_append h n []
  rw [List.append_nil, disassemble_nil, Option.map_some, List.append_nil] at hd
  exact hd

theorem Block.Log.disassemble {pool : Pool} {calls : List Command} {entry stack : List VType}
    {b : Block} (h : b.Log pool calls entry stack) :
    Op.disassemble 0 b.code = some (Op.placed 0 (b.instructions.map Op.plain)) := by
  rw [code_eq]
  refine Op.disassemble_flatMap (fun op hop => ?_) 0
  obtain ⟨i, hi, rfl⟩ := List.mem_map.1 hop
  exact h.wrote.defined i hi

namespace Session

/-- The code is cut into the instructions of the accepted calls, in their order, in one way only. -/
structure ReadsBack (s : Session) (parts : List (List UInt8 × Instruction)) : Prop where
  code : s.block.code = parts.flatMap Prod.fst
  decode : ∀ part ∈ parts, ∀ rest, Op.decode? (part.1 ++ rest) = some (.plain part.2, rest)
  disassemble : (Op.disassemble 0 s.block.code).map (List.map Prod.snd) =
    some (parts.map fun part => .plain part.2)
  calls : List.Forall₂ (Command.Spelled s.block.frame.locals s.pool.constants)
    (s.accepted.filter Command.emits) parts

theorem Valid.readsBack {locals stack : List VType} {s : Session} (h : s.Valid locals stack) :
    ∃ parts, s.ReadsBack parts := by
  obtain ⟨hs, -, top, hl⟩ := h
  refine ⟨s.block.instructions.map fun i => (i.encode, i), ?_, ?_, ?_, hl.wrote.spelled hs⟩
  · rw [List.flatMap_map]
    rfl
  · intro part hpart rest
    obtain ⟨i, hi, rfl⟩ := List.mem_map.1 hpart
    have hd : (Op.plain i).Defined := hl.wrote.defined i hi
    exact Op.decode?_encode hd rest
  · rw [hl.disassemble, Option.map_some, Op.map_snd_placed, List.map_map]
    rfl

/-- The code of a block reads as one instruction for each accepted call that adds one. -/
theorem code_reads_back {pool : Pool} (h : pool.Origin) (id : BlockId) (locals stack : List VType)
    (returns : Option VType) (events : List Event) :
    ∃ parts, ((start id locals stack returns pool).run events).ReadsBack parts :=
  ((valid_start id locals stack returns h.sound).run events).readsBack

/-- A wide local, a refused load and a request to the pool among the calls. -/
def moves : List Event :=
  [.call (.reserve .integer), .call (.pushInt 200), .call (.store 2), .request (.classNamed "A"),
    .call (.load 1), .call (.load 0), .call .pop, .call (.load 2)]

theorem code_reads_back_moves : Pool.empty.Origin ∧
    ((start .entry [.long] [] none .empty).run moves).block.code =
      [0x11, 0, 200, 0x3d, 0x1e, 0x58, 0x1c] ∧
    ∃ parts, ((start .entry [.long] [] none .empty).run moves).ReadsBack parts :=
  ⟨.empty, rfl, code_reads_back .empty .entry [.long] [] none moves⟩

end Session

end ClassForge
