import ClassForge.Assembly.MethodDraft
import ClassForge.Proofs.Interning

/-!
# Drafts

What a command that succeeds does to a block, and the drafts that come about by commands. Their blocks
are numbered by their places, hold only instructions that exist, and return by an instruction of the
return family.
-/

namespace ClassForge

/-- Bitwise operations exist for integral kinds only; all other instructions exist. -/
def Instruction.Defined : Instruction → Prop
  | arithmetic op kind => op.isDefinedOn kind
  | _ => True

/-- The instruction exists, and a local that it moves has a type of its family. -/
def Instruction.Allowed (locals : Slots VType) : Instruction → Prop
  | load bank slot | store bank slot =>
    ∃ t, locals.get? slot.toNat = some t ∧ Bank.ofType? t = some bank
  | i => i.Defined

theorem Instruction.Allowed.defined {locals : Slots VType} {i : Instruction} (h : i.Allowed locals) :
    i.Defined := by
  cases i with
  | load _ _ | store _ _ => trivial
  | _ => exact h

namespace Block

variable {b b' : Block} {pool pool' : Pool} {answer : Option UInt16}

/-! ## Commands -/

/-- What a command that succeeds does to a block, which must be open. -/
inductive Step (b : Block) : Block → Prop
  | reserve {t slot frame} : b.ending = none → b.frame.reserve t = .ok (slot, frame) →
      Step b (b.advance frame)
  | emit {pops pushes frame i} : b.ending = none → i.Allowed b.frame.locals →
      b.frame.exchange pops pushes = .ok frame →
      Step b { b.advance frame with newest := i :: b.newest }
  | returnVoid : b.ending = none → b.returns = none → Step b { b with ending := some (.ret 0xb1) }
  | returnValue {found expected opcode frame} : b.ending = none → b.frame.pop = .ok (found, frame) →
      b.returns = some expected → found.assignable expected → expected.returnOpcode? = some opcode →
      Step b { b with frame, ending := some (.ret opcode) }
  | jump {target} : b.ending = none → Step b { b with ending := some (.jump target) }
  | branch {ifTrue ifFalse frame} : b.ending = none →
      b.frame.exchange [.integer, .integer] [] = .ok frame →
      Step b { b.advance frame with ending := some (.branch .le ifTrue ifFalse) }

theorem checkOpen_eq_ok {u : Unit} : b.checkOpen = .ok u ↔ b.ending = none := by
  unfold checkOpen
  cases b.ending <;> simp

theorem blame_eq_ok {α : Type} {mnemonic : String} {x : Except VerifyError α} {a : α} :
    blame mnemonic x = .ok a ↔ x = .ok a := by
  cases x with
  | error e => refine ⟨fun h => ?_, fun h => ?_⟩ <;> cases h
  | ok a' => refine ⟨fun h => ?_, fun h => ?_⟩ <;> (cases h; rfl)

theorem close_eq_ok {ending : Ending} :
    b.close ending = .ok b' ↔ b.ending = none ∧ b' = { b with ending := some ending } := by
  simp only [close, except_bind_eq_ok, checkOpen_eq_ok]
  refine ⟨fun h => ?_, fun h => ?_⟩
  · obtain ⟨-, ho, h⟩ := h
    cases h
    exact ⟨ho, rfl⟩
  · obtain ⟨ho, rfl⟩ := h
    exact ⟨(), ho, rfl⟩

theorem emit_eq_ok {mnemonic : String} {pops pushes : List VType} {i : Instruction} :
    b.emit mnemonic pops pushes i = .ok b' ↔ b.ending = none ∧ ∃ frame,
      b.frame.exchange pops pushes = .ok frame ∧
        b' = { b.advance frame with newest := i :: b.newest } := by
  simp only [emit, except_bind_eq_ok, checkOpen_eq_ok, blame_eq_ok]
  refine ⟨fun h => ?_, fun h => ?_⟩
  · obtain ⟨-, ho, frame, hf, h⟩ := h
    cases h
    exact ⟨ho, frame, hf, rfl⟩
  · obtain ⟨ho, frame, hf, rfl⟩ := h
    exact ⟨(), ho, frame, hf, rfl⟩

theorem emit_step {mnemonic : String} {pops pushes : List VType} {i : Instruction}
    (h : b.emit mnemonic pops pushes i = .ok b') (hi : i.Allowed b.frame.locals) : b.Step b' := by
  obtain ⟨ho, frame, hf, rfl⟩ := emit_eq_ok.1 h
  exact .emit ho hi hf

theorem checkOpen_bind {α : Type} (ho : b.ending = none) (f : Unit → Except Error α) :
    (b.checkOpen >>= f) = f () := by
  rw [checkOpen, ho]
  rfl

theorem localAt_eq_ok {f : Frame} {slot : UInt16} {t : VType} :
    f.localAt slot = .ok t ↔ f.locals.get? slot.toNat = some t := by
  unfold Frame.localAt
  cases f.locals.get? slot.toNat <;> simp

theorem bankAt_eq_ok {verb : String} {slot : UInt16} {t : VType} {bank : Bank}
    (ho : b.ending = none) : b.bankAt verb slot = .ok (t, bank) ↔
      b.frame.locals.get? slot.toNat = some t ∧ Bank.ofType? t = some bank := by
  rw [bankAt, checkOpen_bind ho, except_bind_eq_ok]
  simp only [blame_eq_ok, localAt_eq_ok]
  constructor
  · rintro ⟨t', ht, h⟩
    cases hb : Bank.ofType? t' with
    | none =>
        rw [hb] at h
        cases h
    | some bank' =>
        rw [hb] at h
        cases h
        exact ⟨ht, hb⟩
  · rintro ⟨ht, hb⟩
    refine ⟨t, ht, ?_⟩
    rw [hb]
    rfl

theorem intInstruction_allowed {value : Int32} {mnemonic : String} {i : Instruction}
    (h : intInstruction value pool = (.ok (mnemonic, i), pool')) (locals : Slots VType) :
    i.Allowed locals := by
  revert h
  fun_cases intInstruction value with
  | case1 | case2 | case3 =>
      intro h
      cases h
      trivial
  | case4 =>
      intro h
      obtain ⟨index, pool₁, -, h⟩ := Interning.bind_eq_ok.1 h
      split at h <;> (cases h; trivial)

theorem top_eq_of_pop {instruction : String} {found t : VType} {frame : Frame}
    (ht : b.top instruction = .ok found) (hp : b.frame.pop = .ok (t, frame)) : t = found := by
  cases hs : b.frame.stack.newest with
  | nil => simp [Frame.pop, Slots.pop?, hs] at hp
  | cons e rest =>
      simp only [Frame.pop, Slots.pop?, hs, Except.ok.injEq, Prod.mk.injEq] at hp
      simp only [top, Slots.last?, hs, List.head?_cons, Option.map_some, Except.ok.injEq] at ht
      rw [← hp.1, ht]

theorem silent_eq (x : Interning Block) : silent x = Prod.mk none <$> x :=
  bind_pure_comp (Prod.mk none) x

theorem silent_eq_ok {x : Interning Block} :
    silent x pool = (.ok (answer, b'), pool') ↔ answer = none ∧ x pool = (.ok b', pool') := by
  rw [silent_eq, Interning.map_eq_ok]
  refine ⟨fun h => ?_, fun h => ?_⟩
  · obtain ⟨_, hx, ⟨⟩⟩ := h
    exact ⟨rfl, hx⟩
  · obtain ⟨rfl, hx⟩ := h
    exact ⟨b', hx, rfl⟩

theorem ofExcept_of_silent {x : Except Error Block}
    (h : silent (Interning.ofExcept x) pool = (.ok (answer, b'), pool')) : x = .ok b' :=
  (Interning.ofExcept_eq_ok.1 (silent_eq_ok.1 h).2).1

/-- The answer to a reservation is the slot of the new local. -/
theorem reserve_eq_ok {t : VType} (h : b.apply (.reserve t) pool = (.ok (answer, b'), pool')) :
    b.ending = none ∧ pool = pool' ∧ ∃ slot frame, b.frame.reserve t = .ok (slot, frame) ∧
      answer = some slot ∧ b' = b.advance frame := by
  simp only [apply, Interning.bind_eq_ok, Interning.ofExcept_eq_ok, Interning.pure_eq_ok, reserve,
    except_bind_eq_ok, checkOpen_eq_ok, blame_eq_ok] at h
  obtain ⟨_, _, ⟨⟨-, ho, ⟨slot, frame⟩, hf, hr⟩, rfl⟩, he, rfl⟩ := h
  cases hr
  cases he
  exact ⟨ho, rfl, slot, frame, hf, rfl, rfl⟩

theorem arithmetic_step {op : Arithmetic} {kind : NumericKind} (h : b.arithmetic op kind = .ok b') :
    b.Step b' := by
  by_cases hk : op.isDefinedOn kind
  · simp only [arithmetic, hk, if_true] at h
    exact emit_step h hk
  · simp only [arithmetic, hk] at h
    cases h

theorem pop_step (h : b.pop = .ok b') : b.Step b' := by
  simp only [pop, except_bind_eq_ok] at h
  obtain ⟨-, -, t, -, h⟩ := h
  exact emit_step h (by split <;> trivial)

theorem dup_step (h : b.dup = .ok b') : b.Step b' := by
  simp only [dup, except_bind_eq_ok] at h
  obtain ⟨-, -, t, -, h⟩ := h
  exact emit_step h (by split <;> trivial)

theorem returnVoid_eq_ok (h : b.returnVoid = .ok b') :
    b.ending = none ∧ b.returns = none ∧ b' = { b with ending := some (.ret 0xb1) } := by
  obtain ⟨-, -, h⟩ := except_bind_eq_ok.1 h
  cases hr : b.returns with
  | some expected => rw [hr] at h; cases h
  | none =>
      rw [hr] at h
      obtain ⟨ho, rfl⟩ := close_eq_ok.1 h
      exact ⟨ho, rfl, by rw [hr]⟩

theorem returnValue_eq_ok (h : b.returnValue = .ok b') :
    b.ending = none ∧ ∃ found frame expected opcode, b.frame.pop = .ok (found, frame) ∧
      b.returns = some expected ∧ found.assignable expected ∧
      expected.returnOpcode? = some opcode ∧ b' = { b with frame, ending := some (.ret opcode) } := by
  simp only [returnValue, except_bind_eq_ok, blame_eq_ok] at h
  obtain ⟨-, -, found, hfound, ⟨t, frame⟩, hp, h⟩ := h
  obtain rfl := top_eq_of_pop hfound hp
  cases hr : b.returns with
  | none => rw [hr] at h; cases h
  | some expected =>
      simp only [hr] at h
      split at h
      next ha hx =>
        obtain ⟨ho, rfl⟩ := close_eq_ok.1 h
        exact ⟨ho, t, frame, expected, _, hp, rfl, ha, hx, rfl⟩
      next => cases h

theorem branch_eq_ok {condition : Condition} {ifTrue ifFalse : BlockId}
    (h : b.branch condition ifTrue ifFalse = .ok b') :
    b.ending = none ∧ condition = .le ∧ ∃ frame,
      b.frame.exchange [.integer, .integer] [] = .ok frame ∧
        b' = { b.advance frame with ending := some (.branch .le ifTrue ifFalse) } := by
  obtain ⟨-, -, h⟩ := except_bind_eq_ok.1 h
  cases condition with
  | le =>
      obtain ⟨frame, hf, h⟩ := except_bind_eq_ok.1 h
      obtain ⟨ho, rfl⟩ := close_eq_ok.1 h
      exact ⟨ho, rfl, frame, blame_eq_ok.1 hf, rfl⟩
  | _ => cases h

theorem apply_step {command : Command} (h : b.apply command pool = (.ok (answer, b'), pool')) :
    b.Step b' := by
  cases command with
  | reserve t =>
      obtain ⟨ho, -, _, _, hf, -, rfl⟩ := reserve_eq_ok h
      exact .reserve ho hf
  | load slot =>
      obtain ⟨⟨t, bank⟩, hbank, h⟩ := except_bind_eq_ok.1 (ofExcept_of_silent h)
      obtain ⟨ho, -⟩ := emit_eq_ok.1 h
      exact emit_step h ⟨t, (bankAt_eq_ok ho).1 hbank⟩
  | store slot =>
      obtain ⟨⟨t, bank⟩, hbank, h⟩ := except_bind_eq_ok.1 (ofExcept_of_silent h)
      obtain ⟨ho, -⟩ := emit_eq_ok.1 h
      exact emit_step h ⟨t, (bankAt_eq_ok ho).1 hbank⟩
  | pushInt value =>
      simp only [apply, silent_eq_ok, pushInt, Interning.bind_eq_ok, Interning.ofExcept_eq_ok] at h
      obtain ⟨-, _, _, -, ⟨mnemonic, i⟩, _, hi, h, -⟩ := h
      exact emit_step h (intInstruction_allowed hi _)
  | accessField access field =>
      simp only [apply, silent_eq_ok, accessField, Interning.bind_eq_ok,
        Interning.ofExcept_eq_ok] at h
      obtain ⟨-, _, _, -, _, _, -, _, _, -, _, _, -, h, -⟩ := h
      exact emit_step h trivial
  | defaultValue name =>
      simp only [apply, silent_eq_ok, defaultValue, Interning.bind_eq_ok,
        Interning.ofExcept_eq_ok] at h
      obtain ⟨-, _, _, -, _, _, -, h, -⟩ := h
      exact emit_step h trivial
  | invokeStatic method =>
      simp only [apply, silent_eq_ok, invokeStatic, Interning.bind_eq_ok,
        Interning.ofExcept_eq_ok] at h
      obtain ⟨-, _, _, -, _, _, -, _, _, -, _, _, -, h, -⟩ := h
      exact emit_step h trivial
  | arithmetic op kind => exact arithmetic_step (ofExcept_of_silent h)
  | negate kind => exact emit_step (ofExcept_of_silent h) trivial
  | pop => exact pop_step (ofExcept_of_silent h)
  | dup => exact dup_step (ofExcept_of_silent h)
  | returnVoid =>
      obtain ⟨ho, hr, rfl⟩ := returnVoid_eq_ok (ofExcept_of_silent h)
      exact .returnVoid ho hr
  | returnValue =>
      obtain ⟨ho, _, _, _, _, hp, hr, ha, hx, rfl⟩ :=
        returnValue_eq_ok (ofExcept_of_silent h)
      exact .returnValue ho hp hr ha hx
  | jump target =>
      obtain ⟨ho, rfl⟩ := close_eq_ok.1 (ofExcept_of_silent h)
      exact .jump ho
  | branch condition ifTrue ifFalse =>
      obtain ⟨ho, -, _, hf, rfl⟩ := branch_eq_ok (ofExcept_of_silent h)
      exact .branch ho hf

theorem Step.unsealed (h : b.Step b') : b.ending = none := by
  cases h <;> assumption

theorem Step.id (h : b.Step b') : b'.id = b.id := by
  cases h <;> rfl

theorem Step.entry (h : b.Step b') : b'.entry = b.entry := by
  cases h <;> rfl

end Block

/-! ## Drafts that come about -/

/-- An instruction of the family that returns from a method. -/
def isReturnOpcode (opcode : UInt8) : Bool := 0xac ≤ opcode.toNat && opcode.toNat ≤ 0xb1

theorem VType.isReturnOpcode_returnOpcode? {t : VType} {opcode : UInt8}
    (h : t.returnOpcode? = some opcode) : isReturnOpcode opcode := by
  cases t <;> cases h <;> rfl

/-- The block holds instructions that exist and returns by one of the return family. -/
structure Block.Sane (b : Block) : Prop where
  defined : ∀ i ∈ b.newest, i.Defined
  ret : ∀ opcode, b.ending = some (.ret opcode) → isReturnOpcode opcode

theorem Block.sane_start (id : BlockId) (entry : Frame) (returns : Option VType) :
    (Block.start id entry returns).Sane := by
  refine ⟨fun i hi => ?_, fun opcode h => ?_⟩
  · cases hi
  · cases h

theorem Block.Step.sane {b b' : Block} (h : b.Step b') (hb : b.Sane) : b'.Sane := by
  cases h with
  | reserve _ _ => exact ⟨hb.defined, hb.ret⟩
  | emit _ hi _ => exact ⟨List.forall_mem_cons.2 ⟨hi.defined, hb.defined⟩, hb.ret⟩
  | returnVoid _ _ => exact ⟨hb.defined, fun _ h => by cases h; rfl⟩
  | returnValue _ _ _ _ hx =>
      refine ⟨hb.defined, fun _ h => ?_⟩
      cases h
      exact VType.isReturnOpcode_returnOpcode? hx
  | jump _ => exact ⟨hb.defined, fun _ h => by cases h⟩
  | branch _ _ => exact ⟨hb.defined, fun _ h => by cases h⟩

namespace MethodDraft

variable {m m' : MethodDraft} {pool pool' : Pool} {answer : Option UInt16}

/-- A draft that comes about by calls that succeed. -/
inductive Reachable : MethodDraft → Prop
  | start (locals : List VType) (returns : Option VType) : Reachable (start locals returns)
  | ofType {type receiver pool m pool'} : ofType type receiver pool = (.ok m, pool') → Reachable m
  | newBlock {m : MethodDraft} (locals stack : List VType) : Reachable m →
      Reachable (m.newBlock locals stack).2
  | continueBlock {m : MethodDraft} {source stack id m'} : Reachable m →
      m.continueBlock source stack = .ok (id, m') → Reachable m'
  | apply {m : MethodDraft} {id command pool answer m' pool'} : Reachable m →
      m.apply id command pool = (.ok (answer, m'), pool') → Reachable m'
  | finish {m : MethodDraft} {pool attributes m' pool'} : Reachable m →
      m.finish pool = (.ok (attributes, m'), pool') → Reachable m'

/-- The body of a method as it is written, with the attributes of its code. -/
def Body.toCode (body : Body) (attributes : List Attribute) : Code where
  maxStack := UInt16.ofNat body.maxima.stack
  maxLocals := UInt16.ofNat body.maxima.locals
  bytecode := body.bytecode
  handlers := []
  attributes

theorem finish_eq_ok {attributes : List Attribute} :
    m.finish pool = (.ok (attributes, m'), pool') ↔
      m.finished = false ∧ ∃ body table pool₁ name, m.body = .ok body ∧
        tableAttributes body.frames pool = (.ok table, pool₁) ∧ checkMaxima body.maxima = .ok () ∧
        Pool.utf8 "Code" pool₁ = (.ok name, pool') ∧
        attributes = [⟨name, (body.toCode table).write⟩] ∧ m' = { m with finished := true } := by
  unfold finish
  cases hm : m.finished with
  | true =>
      refine ⟨fun h => ?_, fun h => ?_⟩
      · cases h
      · cases h.1
  | false =>
      simp only [Bool.false_eq_true, if_false, Interning.bind_eq_ok, Interning.ofExcept_eq_ok,
        Interning.pure_eq_ok, Pool.attributeFor_eq_ok, true_and]
      refine ⟨fun h => ?_, fun h => ?_⟩
      · obtain ⟨body, _, ⟨hb, rfl⟩, table, pool₁, ht, ⟨⟩, _, ⟨hx, rfl⟩, ⟨name, info⟩, _, ⟨hn, hw⟩,
          he, rfl⟩ := h
        obtain rfl : (body.toCode table).write = info := Except.ok.inj hw
        cases he
        exact ⟨body, table, pool₁, name, hb, ht, hx, hn, rfl, rfl⟩
      · obtain ⟨body, table, pool₁, name, hb, ht, hx, hn, rfl, rfl⟩ := h
        exact ⟨body, _, ⟨hb, rfl⟩, table, pool₁, ht, (), _, ⟨hx, rfl⟩, ⟨name, _⟩, _, ⟨hn, rfl⟩, rfl, rfl⟩

theorem block?_eq_ok {id : BlockId} {b : Block} (h : m.block? id = .ok b) :
    m.blocks[id.index]? = some b := by
  unfold block? at h
  split at h
  next => cases h
  next hb =>
    cases h
    exact hb

theorem ofType_eq_ok {type : MethodType} {receiver : Option (Index .classInfo)}
    (h : ofType type receiver pool = (.ok m, pool')) :
    ∃ parameters returns pool₁, type.parameters.mapM Pool.typeOf pool = (.ok parameters, pool₁) ∧
      Pool.typeOf? type.returns pool₁ = (.ok returns, pool') ∧
      m = start ((receiver.map VType.object).toList ++ parameters) returns := by
  simp only [ofType, Interning.bind_eq_ok, Interning.pure_eq_ok] at h
  obtain ⟨parameters, pool₁, hp, returns, _, hr, rfl, rfl⟩ := h
  exact ⟨parameters, returns, pool₁, hp, hr, rfl⟩

theorem continueBlock_eq_ok {source id : BlockId} {stack : List VType}
    (h : m.continueBlock source stack = .ok (id, m')) :
    ∃ b, m.blocks[source.index]? = some b ∧ m' = (m.addBlock ⟨b.frame.locals, .ofList stack⟩).2 := by
  obtain ⟨b, hb, h⟩ := except_bind_eq_ok.1 h
  cases h
  exact ⟨b, block?_eq_ok hb, rfl⟩

theorem apply_eq_ok {id : BlockId} {command : Command}
    (h : m.apply id command pool = (.ok (answer, m'), pool')) :
    ∃ b b', m.blocks[id.index]? = some b ∧ b.apply command pool = (.ok (answer, b'), pool') ∧
      m' = m.setBlock b' := by
  simp only [apply, Interning.bind_eq_ok, Interning.pure_eq_ok, Interning.ofExcept_eq_ok] at h
  obtain ⟨b, _, ⟨hb, rfl⟩, ⟨answer, b'⟩, _, hs, ⟨⟩, rfl⟩ := h
  exact ⟨b, b', block?_eq_ok hb, hs, rfl⟩

/-- Every block has the number of its place, and `P` holds of it. -/
def Numbered (P : Block → Prop) (m : MethodDraft) : Prop :=
  ∀ i b, m.blocks[i]? = some b → b.id = ⟨i⟩ ∧ P b

section

variable {P : Block → Prop}

theorem numbered_start {locals : List VType} {returns : Option VType}
    (h : P (.start .entry (.ofLists locals []) returns)) : (start locals returns).Numbered P := by
  intro i b hb
  rw [start, Array.getElem?_singleton] at hb
  split at hb
  next hi =>
    cases hb
    exact ⟨by rw [hi]; rfl, h⟩
  next => cases hb

theorem Numbered.addBlock {entry : Frame} (h : m.Numbered P)
    (hnew : P (.start ⟨m.blocks.size⟩ entry m.returns)) : (m.addBlock entry).2.Numbered P := by
  intro i b hb
  rw [MethodDraft.addBlock, Array.getElem?_push] at hb
  split at hb
  next hi =>
    cases hb
    exact ⟨by rw [hi]; rfl, hnew⟩
  next => exact h i b hb

theorem Numbered.setBlock {b : Block} (h : m.Numbered P) (hb : P b) : (m.setBlock b).Numbered P := by
  intro i r hr
  rw [MethodDraft.setBlock, Array.getElem?_setIfInBounds] at hr
  split at hr
  next hi =>
    split at hr
    next =>
      cases hr
      exact ⟨by rw [← hi], hb⟩
    next => cases hr
  next => exact h i r hr

/-- What holds of an empty block on every frame that a block can start with, and is kept by commands,
holds of every block of a draft. -/
theorem Reachable.numbered_of_calls {Q : Frame → Prop} (h : m.Reachable)
    (hlists : ∀ locals stack, Q (.ofLists locals stack))
    (hlocals : ∀ b stack, P b → Q ⟨b.frame.locals, .ofList stack⟩)
    (hstart : ∀ id entry returns, Q entry → P (.start id entry returns))
    (hcall : ∀ (b b' : Block) (command : Command) (answer : Option UInt16) (pool pool' : Pool),
      b.apply command pool = (.ok (answer, b'), pool') → P b → P b') : m.Numbered P := by
  induction h with
  | start locals returns => exact numbered_start (hstart _ _ _ (hlists _ _))
  | ofType h =>
      obtain ⟨_, _, _, -, -, rfl⟩ := ofType_eq_ok h
      exact numbered_start (hstart _ _ _ (hlists _ _))
  | newBlock locals stack _ ih => exact ih.addBlock (hstart _ _ _ (hlists _ _))
  | continueBlock _ h ih =>
      obtain ⟨b, hb, rfl⟩ := continueBlock_eq_ok h
      exact ih.addBlock (hstart _ _ _ (hlocals b _ (ih _ _ hb).2))
  | apply _ h ih =>
      obtain ⟨b, b', hb, hs, rfl⟩ := apply_eq_ok h
      exact ih.setBlock (hcall _ _ _ _ _ _ hs (ih _ _ hb).2)
  | finish _ h ih =>
      obtain ⟨-, _, _, _, _, -, -, -, -, -, rfl⟩ := finish_eq_ok.1 h
      exact ih

theorem Reachable.numbered_of_frames {Q : Frame → Prop} (h : m.Reachable)
    (hlists : ∀ locals stack, Q (.ofLists locals stack))
    (hlocals : ∀ b stack, P b → Q ⟨b.frame.locals, .ofList stack⟩)
    (hstart : ∀ id entry returns, Q entry → P (.start id entry returns))
    (hstep : ∀ b b', Block.Step b b' → P b → P b') : m.Numbered P :=
  h.numbered_of_calls hlists hlocals hstart fun _ _ _ _ _ _ hs => hstep _ _ (Block.apply_step hs)

theorem Reachable.numbered (h : m.Reachable)
    (hstart : ∀ id entry returns, P (.start id entry returns))
    (hstep : ∀ b b', Block.Step b b' → P b → P b') : m.Numbered P :=
  h.numbered_of_frames (Q := fun _ => True) (fun _ _ => trivial) (fun _ _ _ => trivial)
    (fun id entry returns _ => hstart id entry returns) hstep

theorem Reachable.sane (h : m.Reachable) : m.Numbered Block.Sane :=
  h.numbered Block.sane_start fun _ _ hs hb => hs.sane hb

end

def applyAll (m : MethodDraft) (steps : List (BlockId × Command)) : Interning MethodDraft :=
  steps.foldlM (fun m step => Prod.snd <$> m.apply step.1 step.2) m

theorem Reachable.applyAll (h : m.Reachable) (steps : List (BlockId × Command)) (pool : Pool)
    (hs : (m.applyAll steps pool).1 = .ok m') : m'.Reachable := by
  induction steps generalizing m pool with
  | nil =>
      cases hs
      exact h
  | cons step steps ih =>
      obtain ⟨pool', hp⟩ : ∃ pool', m.applyAll (step :: steps) pool = (.ok m', pool') :=
        ⟨_, Prod.ext hs rfl⟩
      rw [MethodDraft.applyAll, List.foldlM_cons] at hp
      obtain ⟨m₁, pool₁, hm, hp⟩ := Interning.bind_eq_ok.1 hp
      obtain ⟨⟨answer, _⟩, ha, rfl⟩ := Interning.map_eq_ok.1 hm
      exact ih (.apply h ha) pool₁ (congrArg Prod.fst hp)

end MethodDraft

end ClassForge
