import ClassForge.Proofs.Assembly.Spelling

/-!
# The types on the stack of a block

A second account of what instructions do to the stack, taken from the bytes of a block and from the
descriptors that they refer to. Replaying the code of a block in this way never fails and ends in the
stack that the block keeps, and a call is accepted exactly when its instruction can be replayed.
-/

namespace ClassForge

/-! ## The effect of an instruction -/

/-- The values that a family of moves can hold. -/
def Bank.holds : Bank → VType → Bool
  | int, .integer | long, .long | float, .float | double, .double => true
  | reference, t => t.isReference
  | _, _ => false

namespace Constants

/-- The type of a constant that fills one slot. -/
def loaded? (cs : Constants) (i : UInt16) : Option VType :=
  match cs.lookup? (⟨i⟩ : Index .any) with
  | some (.integer _) => some .integer
  | some (.float _) => some .float
  | _ => none

/-- The owner and the type of a field, the latter by its descriptor. -/
def fieldTypes? (cs : Constants) (i : Index .fieldRef) : Option (VType × VType) := do
  let (owner, symbol) ← cs.field? i
  let type ← (FieldType.parse symbol.descriptor).toOption
  return (.object owner, ← cs.vtype? type)

/-- The parameters and the result of a method, by its descriptor. -/
def methodTypes? (cs : Constants) (i : Index .methodRef) : Option (List VType × List VType) := do
  let (symbol, _) ← cs.method? i
  let type ← (MethodType.parse symbol.descriptor).toOption
  return (← cs.vtypes? type.parameters, ← cs.vtypes? type.returns.toList)

end Constants

/-- Takes operands from a stack, the first from the top, and then adds results, the last on top. -/
def exchange? (results : List VType) : List VType → List VType → Option (List VType)
  | [], stack => some (results.reverse ++ stack)
  | _ :: _, [] => none
  | e :: operands, t :: stack => if t.assignable e then exchange? results operands stack else none

namespace Instruction

/-- What an instruction makes of a stack, given from its top; the types of slots are those of `locals`. -/
def replay (locals : Slots VType) (cs : Constants) (stack : List VType) :
    Instruction → Option (List VType)
  | iconst _ | bipush _ | sipush _ => some (.integer :: stack)
  | ldc i => (cs.loaded? i.toUInt16).map (· :: stack)
  | ldcWide i => (cs.loaded? i).map (· :: stack)
  | load bank slot => do
    let t ← locals.get? slot.toNat
    if bank.holds t then some (t :: stack) else none
  | store bank slot => do
    let t ← locals.get? slot.toNat
    if bank.holds t then exchange? [] [t] stack else none
  | field access i => do
    let (owner, type) ← cs.fieldTypes? i
    match access with
    | .getStatic => exchange? [type] [] stack
    | .putStatic => exchange? [] [type] stack
    | .getField => exchange? [type] [owner] stack
    | .putField => exchange? [] [type, owner] stack
    | .withField => exchange? [owner] [type, owner] stack
  | invokeStatic i => do
    let (parameters, returns) ← cs.methodTypes? i
    exchange? returns parameters.reverse stack
  | defaultValue i => (cs.className? i).map fun _ => .object i :: stack
  | arithmetic op kind =>
    exchange? [kind.type] [if op.isShift then .integer else kind.type, kind.type] stack
  | negate kind => exchange? [kind.type] [kind.type] stack
  -- the two-slot forms take one wide value or two others
  | pop =>
    match stack with
    | t :: stack => if t.width = 1 then some stack else none
    | [] => none
  | pop2 =>
    match stack with
    | t :: u :: stack =>
      if t.width = 2 then some (u :: stack) else if u.width = 1 then some stack else none
    | [t] => if t.width = 2 then some [] else none
    | [] => none
  | dup =>
    match stack with
    | t :: stack => if t.width = 1 then some (t :: t :: stack) else none
    | [] => none
  | dup2 =>
    match stack with
    | t :: u :: stack =>
      if t.width = 2 then some (t :: t :: u :: stack)
      else if u.width = 1 then some (t :: u :: t :: u :: stack) else none
    | [t] => if t.width = 2 then some [t, t] else none
    | [] => none

end Instruction

namespace Op

/-- A return takes the value of its family. -/
def replay (locals : Slots VType) (cs : Constants) (stack : List VType) : Op → Option (List VType)
  | plain i => i.replay locals cs stack
  | goto _ => some stack
  | compare _ => exchange? [] [.integer, .integer] stack
  | ret opcode =>
    match opcode.toNat, stack with
    | 0xac, stack => exchange? [] [.integer] stack
    | 0xad, stack => exchange? [] [.long] stack
    | 0xae, stack => exchange? [] [.float] stack
    | 0xaf, stack => exchange? [] [.double] stack
    | 0xb0, t :: stack => if t.isReference then some stack else none
    | 0xb1, stack => some stack
    | _, _ => none

def replayAll (locals : Slots VType) (cs : Constants) (ops : List Op) (stack : List VType) :
    Option (List VType) :=
  ops.foldlM (fun stack op => op.replay locals cs stack) stack

end Op

/-- The instruction of an ending; how far it jumps does not matter to the stack. -/
def Ending.op : Ending → Op
  | ret opcode => .ret opcode
  | jump _ => .goto 0
  | branch _ _ _ => .compare 0

/-- All class names in descriptors can stand there. -/
def Command.WellNamed : Command → Prop
  | accessField _ field => field.type.WellNamed
  | invokeStatic method => method.type.WellNamed
  | _ => True

/-! ## Calls are replayed -/

theorem exchange?_of_meets {stack operands : List VType} (h : Meets stack operands)
    (results : List VType) :
    exchange? results operands stack = some (results.reverse ++ stack.drop operands.length) := by
  induction operands generalizing stack with
  | nil => cases stack <;> rfl
  | cons e operands ih =>
      cases stack with
      | nil => cases h
      | cons t stack =>
          rw [exchange?, if_pos h.1, ih h.2]
          rfl

theorem Bank.holds_of_ofType? {t : VType} {bank : Bank} (h : ofType? t = some bank) :
    bank.holds t = true := by
  cases t <;> cases h <;> rfl

theorem VType.width_eq_two {t : VType} (h : ¬ t.width = 1) : t.width = 2 := by
  cases t <;> first | rfl | exact absurd rfl h

theorem Pool.Holds.loaded? {pool : Pool} {v : Int32} {i : Index .any}
    (h : pool.Holds (.integer v) i) (hs : pool.Sound) :
    pool.constants.loaded? i.val = some .integer := by
  simp only [Constants.loaded?, h.lookup? hs]

/-- The descriptor of a field that was asked for is read back as its type. -/
theorem Pool.NamesMember.fieldTypes? {pool : Pool} {field : FieldRef} {owner : Index .classInfo}
    {member : Index .nameAndType} {i : Index .fieldRef} {type : VType}
    (h : pool.NamesMember field.symbol owner member) (hi : pool.Holds (.fieldRef owner member) i)
    (ht : pool.constants.vtype? field.type = some type) (hs : pool.Sound)
    (hn : field.type.WellNamed) : pool.constants.fieldTypes? i = some (.object owner, type) := by
  have hp : FieldType.parse field.symbol.descriptor = .ok field.type := FieldType.parse_render hn
  simp [Constants.fieldTypes?, Constants.field?, hi.lookup? hs, h.member? hs, hp, ht, Except.toOption]

theorem Pool.NamesMember.methodTypes? {pool : Pool} {method : MethodRef} {owner : Index .classInfo}
    {member : Index .nameAndType} {i : Index .methodRef} {parameters returns : List VType}
    (h : pool.NamesMember method.symbol owner member)
    (hi : pool.Holds (.methodRef owner member method.onInterface) i)
    (hp : pool.constants.vtypes? method.type.parameters = some parameters)
    (hr : pool.constants.vtypes? method.type.returns.toList = some returns) (hs : pool.Sound)
    (hn : method.type.WellNamed) : pool.constants.methodTypes? i = some (parameters, returns) := by
  have hd : MethodType.parse method.symbol.descriptor = .ok method.type :=
    MethodType.parse_render hn
  simp [Constants.methodTypes?, Constants.method?, hi.lookup? hs, h.member? hs, hd, hp, hr,
    Except.toOption]

namespace Command

variable {locals : Slots VType} {pool : Pool} {stack : List VType} {command : Command}
  {i : Instruction} {pops pushes : List VType}

theorem PushesInt.replay {v : Int32} (h : PushesInt pool v i) (hs : pool.Sound) :
    i.replay locals pool.constants stack = some (.integer :: stack) := by
  cases h with
  | iconst _ _ => rfl
  | bipush _ _ => rfl
  | sipush _ _ => rfl
  | ldc h hi => rw [Instruction.replay, Op.toUInt16_ofNat hi, h.loaded? hs, Option.map_some]
  | ldcWide h => rw [Instruction.replay, h.loaded? hs, Option.map_some]

theorem Emits.replay (h : Emits locals pool stack command i pops pushes) (hm : Meets stack pops)
    (hs : pool.Sound) (hn : command.WellNamed) :
    i.replay locals pool.constants stack = some (pushes.reverse ++ stack.drop pops.length) := by
  have hx := exchange?_of_meets hm pushes
  cases h with
  | load ht hb => simp [Instruction.replay, ht, Bank.holds_of_ofType? hb]
  | store ht hb => simpa [Instruction.replay, ht, Bank.holds_of_ofType? hb] using hx
  | pushInt h => exact h.replay hs
  | @accessField access _ _ _ _ _ hf hi ht =>
      rw [Instruction.replay, hf.fieldTypes? hi ht hs hn]
      cases access <;> exact hx
  | defaultValue h => simp [Instruction.replay, h.className? hs]
  | invokeStatic hf hi hp hr =>
      rw [Instruction.replay, hf.methodTypes? hi hp hr hs hn]
      exact hx
  | arithmetic _ => exact hx
  | negate => exact hx
  | @pop t below ht =>
      subst ht
      by_cases hw : t.width = 1
      · simp [hw, Instruction.replay]
      · cases below <;> simp [Instruction.replay, VType.width_eq_two hw]
  | @dup t below ht =>
      subst ht
      by_cases hw : t.width = 1
      · simp [hw, Instruction.replay]
      · cases below <;> simp [Instruction.replay, VType.width_eq_two hw]

end Command

namespace Block

variable {b b' : Block} {pool pool' : Pool} {locals : Slots VType} {stack : List VType}
  {command : Command}

theorem Wrote.replayAll {bound : Nat} {entry : List VType} {commands : List Command}
    {is : List Instruction} (h : Wrote locals pool bound entry commands is stack) (hs : pool.Sound)
    (hn : ∀ command ∈ commands, command.WellNamed) :
    Op.replayAll locals pool.constants (is.map .plain) entry = some stack := by
  induction h with
  | start _ => rfl
  | emit _ hi hm _ ih =>
      have hmem := List.forall_mem_append.1 hn
      rw [Op.replayAll, List.map_append, List.foldlM_append]
      refine Option.bind_eq_some_iff.2 ⟨_, ih hmem.1, ?_⟩
      exact Option.bind_eq_some_iff.2 ⟨_, hi.replay hm hs (hmem.2 _ List.mem_cons_self), rfl⟩

theorem replay_returnValue {t expected : VType} {opcode : UInt8} (h : t.assignable expected = true)
    (hop : expected.returnOpcode? = some opcode) (cs : Constants) :
    (Op.ret opcode).replay locals cs (t :: stack) = some stack := by
  cases expected <;> cases hop <;> cases t <;> first | rfl | cases h

theorem Takes.replayAll {returns : Option VType} {ending : Option Ending} {left : List VType}
    (h : Takes returns ending stack left) (cs : Constants) :
    Op.replayAll locals cs (ending.map Ending.op).toList stack = some left := by
  cases h with
  | nothing => rfl
  | returnVoid _ => rfl
  | returnValue _ ha hop => exact Option.bind_eq_some_iff.2 ⟨_, replay_returnValue ha hop cs, rfl⟩
  | jump => rfl
  | branch hm => exact Option.bind_eq_some_iff.2 ⟨_, exchange?_of_meets hm [], rfl⟩

/-! ## Which calls are accepted -/

theorem returnVoid_accepted_iff (ho : b.ending = none) :
    (∃ b', b.returnVoid = .ok b') ↔ b.returns = none := by
  refine ⟨fun ⟨b', h⟩ => (returnVoid_eq_ok h).2.1, fun h => ?_⟩
  rw [returnVoid, checkOpen_bind ho, h]
  exact ⟨_, close_eq_ok.2 ⟨ho, rfl⟩⟩

theorem returnValue_accepted_iff (hf : b.frame = .ofOperands locals stack) (ho : b.ending = none) :
    (∃ b', b.returnValue = .ok b') ↔
      ∃ t opcode, b.returns = some t ∧ t.returnOpcode? = some opcode ∧ Meets stack [t] := by
  refine ⟨fun ⟨b', h⟩ => ?_, fun ⟨t, opcode, hr, hop, hm⟩ => ?_⟩
  · obtain ⟨-, found, frame, expected, opcode, hp, hr, ha, hop, -⟩ := returnValue_eq_ok h
    rw [hf] at hp
    cases stack with
    | nil => cases hp
    | cons found' below =>
        rw [Frame.pop_cons] at hp
        cases hp
        exact ⟨expected, opcode, hr, hop, ha, meets_nil below⟩
  · cases stack with
    | nil => cases hm
    | cons found below =>
        have htop : b.top "return" = .ok found := by rw [top, hf, Frame.last?_cons]
        have hpop : blame "return" b.frame.pop = .ok (found, .ofOperands locals below) := by
          rw [hf, Frame.pop_cons]
          rfl
        rw [returnValue, checkOpen_bind ho, htop, hpop]
        simp only [hr, hm.1, hop, Bind.bind, Except.bind]
        exact ⟨_, close_eq_ok.2 ⟨ho, rfl⟩⟩

theorem branch_accepted_iff {condition : Condition} {ifTrue ifFalse : BlockId}
    (hf : b.frame = .ofOperands locals stack) (ho : b.ending = none) :
    (∃ b', b.branch condition ifTrue ifFalse = .ok b') ↔
      condition = .le ∧ Meets stack [.integer, .integer] := by
  refine ⟨fun ⟨b', h⟩ => ?_, fun ⟨hc, hm⟩ => ?_⟩
  · obtain ⟨-, hc, frame, hx, -⟩ := branch_eq_ok h
    rw [hf] at hx
    exact ⟨hc, (Frame.exchange_eq_ok.1 hx).1⟩
  · subst hc
    obtain ⟨frame, hx⟩ : ∃ frame, b.frame.exchange [.integer, .integer] [] = .ok frame := by
      rw [hf]
      exact ⟨_, Frame.exchange_eq_ok.2 ⟨hm, rfl⟩⟩
    rw [branch, checkOpen_bind ho, hx]
    exact ⟨_, close_eq_ok.2 ⟨ho, rfl⟩⟩

/-- Short of a full pool, a call on an open block is accepted exactly when the operands of its
instruction are on top of the stack. -/
theorem apply_accepted_iff {r : Except Error (Option UInt16 × Block)} (hs : pool.Sound)
    (hf : b.frame = .ofOperands locals stack) (ho : b.ending = none)
    (hc : command.reserved? = none) (h : b.apply command pool = (r, pool'))
    (hfull : ∀ c next, r ≠ .error (.constantPoolOverflow c next)) :
    (∃ a, r = .ok a) ↔ ∃ operands,
      command.operands? b.returns locals pool'.constants = some operands ∧
        Meets stack operands := by
  generalize hr : r.map Prod.snd = x
  have hok : (∃ a, r = .ok a) ↔ ∃ b', x = .ok b' := by
    subst hr
    cases r <;> simp [Except.map]
  have hfull : ∀ c next, x ≠ .error (.constantPoolOverflow c next) := by
    subst hr
    cases r with
    | error e => simpa [Except.map] using hfull
    | ok a => simp [Except.map]
  rw [hok]
  cases he : command.emits with
  | true =>
      have hout := outcome_of_apply hs hf ho he h
      rw [hr] at hout
      cases hout with
      | full => exact absurd rfl (hfull _ _)
      | refused hno =>
          constructor
          · rintro ⟨b', ⟨⟩⟩
          · rintro ⟨operands, h, hm⟩
            exact absurd hm (hno operands h)
      | emit he =>
          obtain ⟨operands, hop, hiff⟩ := he.operands? b.returns
          simp only [emit_eq_ok, hf, Frame.exchange_eq_ok, hop, Option.some.injEq, exists_eq_left']
          constructor
          · rintro ⟨_, _, _, ⟨hm, -⟩, -⟩
            exact hiff.2 hm
          · intro hm
            exact ⟨_, ho, _, ⟨hiff.1 hm, rfl⟩, rfl⟩
  | false =>
      cases command with
      | returnVoid =>
          cases eq_of_silent rfl h hr
          simp [returnVoid_accepted_iff ho, Command.operands?, meets_nil]
      | returnValue =>
          cases eq_of_silent rfl h hr
          simp only [returnValue_accepted_iff hf ho, Command.operands?, Option.bind_eq_bind,
            Option.bind_eq_some_iff]
          constructor
          · rintro ⟨t, opcode, hr, hop, hm⟩
            exact ⟨[t], ⟨t, hr, opcode, hop, rfl⟩, hm⟩
          · rintro ⟨_, ⟨t, hr, opcode, hop, ⟨⟩⟩, hm⟩
            exact ⟨t, opcode, hr, hop, hm⟩
      | jump target =>
          cases eq_of_silent rfl h hr
          exact iff_of_true ⟨_, close_eq_ok.2 ⟨ho, rfl⟩⟩ ⟨[], rfl, meets_nil stack⟩
      | branch condition ifTrue ifFalse =>
          cases eq_of_silent rfl h hr
          simp [branch_accepted_iff hf ho, Command.operands?]
      | reserve t => cases hc
      | _ => cases he

theorem reserve_accepted_iff {t : VType} :
    (∃ a, (b.apply (.reserve t) pool).1 = .ok a) ↔
      b.ending = none ∧ b.frame.locals.stop < 65536 := by
  refine ⟨fun ⟨⟨answer, b'⟩, h⟩ => ?_, fun ⟨ho, hlt⟩ => ?_⟩
  · obtain ⟨ho, -, slot, frame, hr, -⟩ := reserve_eq_ok (Prod.ext h rfl)
    refine ⟨ho, ?_⟩
    rw [← (Frame.reserve_eq_ok.1 hr).1]
    exact slot.toNat_lt
  · simp only [apply, reserve, checkOpen_bind ho, Frame.reserve, if_pos hlt]
    exact ⟨_, rfl⟩

/-- Only a reservation has an answer, and the new local is found there. -/
theorem answers_of_apply (h : b.apply command pool = (.ok (answer, b'), pool')) :
    command.Answers b b' answer := by
  cases command with
  | reserve t =>
      obtain ⟨-, -, slot, frame, hr, rfl, rfl⟩ := reserve_eq_ok h
      obtain ⟨hslot, rfl⟩ := Frame.reserve_eq_ok.1 hr
      refine ⟨slot, rfl, hslot, ?_⟩
      rw [hslot]
      exact Slots.get?_stop_push _ t
  | _ => exact (silent_eq_ok.1 h).1

end Block

namespace Session

/-- The types that a block keeps are those of its code, and its calls are accepted by them. -/
structure Typed (locals stack : List VType) (s : Session) : Prop where
  locals : s.block.frame.locals = .ofList (locals ++ s.accepted.filterMap Command.reserved?)
  replay : ∃ ops left, Op.disassemble 0 s.block.code = some ops ∧
    Op.replayAll s.block.frame.locals s.pool.constants
      (ops.map Prod.snd ++ (s.block.ending.map Ending.op).toList) stack.reverse = some left ∧
    s.block.frame.stack = .ofList left.reverse
  accepted_iff : ∀ command r pool', s.block.apply command s.pool = (r, pool') →
    command.reserved? = none → (∀ c next, r ≠ .error (.constantPoolOverflow c next)) →
    ((∃ a, r = .ok a) ↔ s.block.ending = none ∧ ∃ operands,
      command.operands? s.block.returns s.block.frame.locals pool'.constants = some operands ∧
      Meets s.block.frame.stack.elements.reverse operands)
  reserve_iff : ∀ t, (∃ a, (s.block.apply (.reserve t) s.pool).1 = .ok a) ↔
    s.block.ending = none ∧ s.block.frame.locals.stop < 65536
  answers : ∀ command answer b pool', s.block.apply command s.pool = (.ok (answer, b), pool') →
    command.Answers s.block b answer

variable {locals stack : List VType} {s : Session}

/-- Only calls that were made are accepted. -/
theorem mem_of_mem_accepted {events : List Event} {command : Command}
    (h : command ∈ (s.run events).accepted) : command ∈ s.accepted ∨ .call command ∈ events := by
  induction events generalizing s with
  | nil => exact Or.inl h
  | cons event events ih =>
      rcases ih h with h | h
      · cases event with
        | request r => exact Or.inl h
        | call command' =>
            rw [step] at h
            split at h
            next =>
              rcases List.mem_append.1 h with h | h
              · exact Or.inl h
              · rw [List.mem_singleton.1 h]
                exact Or.inr List.mem_cons_self
            next => exact Or.inl h
      · exact Or.inr (List.mem_cons_of_mem _ h)

theorem Valid.locals_eq (h : s.Valid locals stack) :
    s.block.frame.locals = .ofList (locals ++ s.accepted.filterMap Command.reserved?) := by
  obtain ⟨-, he, top, hl⟩ := h
  rw [hl.locals, he, Frame.ofLists, Slots.ofList_extend]

theorem Valid.replay (h : s.Valid locals stack) (hn : ∀ command ∈ s.accepted, command.WellNamed) :
    ∃ ops left, Op.disassemble 0 s.block.code = some ops ∧
      Op.replayAll s.block.frame.locals s.pool.constants
        (ops.map Prod.snd ++ (s.block.ending.map Ending.op).toList) stack.reverse = some left ∧
      s.block.frame.stack = .ofList left.reverse := by
  obtain ⟨hs, -, top, hl⟩ := h
  obtain ⟨left, hf, ht⟩ := hl.frame
  refine ⟨_, left, hl.disassemble, ?_, by rw [hf]; rfl⟩
  rw [Op.map_snd_placed, Op.replayAll, List.foldlM_append]
  have hw := hl.wrote.replayAll hs fun command hc => hn command (List.mem_of_mem_filter hc)
  exact Option.bind_eq_some_iff.2 ⟨top, hw, ht.replayAll _⟩

theorem Valid.accepted_iff (h : s.Valid locals stack) {command : Command}
    {r : Except Error (Option UInt16 × Block)} {pool' : Pool}
    (ha : s.block.apply command s.pool = (r, pool'))
    (hc : command.reserved? = none)
    (hfull : ∀ c next, r ≠ .error (.constantPoolOverflow c next)) :
    (∃ a, r = .ok a) ↔ s.block.ending = none ∧ ∃ operands,
      command.operands? s.block.returns s.block.frame.locals pool'.constants = some operands ∧
      Meets s.block.frame.stack.elements.reverse operands := by
  obtain ⟨hs, -, top, hl⟩ := h
  refine ⟨fun ⟨a, hr⟩ => ?_, fun ⟨ho, hx⟩ => ?_⟩
  · subst hr
    have ho := (Block.apply_step ha).unsealed
    have hf := hl.frame_eq ho
    refine ⟨ho, ?_⟩
    rw [hf, Frame.elements_stack, List.reverse_reverse]
    exact (Block.apply_accepted_iff hs hf ho hc ha hfull).1 ⟨a, rfl⟩
  · have hf := hl.frame_eq ho
    rw [hf, Frame.elements_stack, List.reverse_reverse] at hx
    exact (Block.apply_accepted_iff hs hf ho hc ha hfull).2 hx

/-- Whatever is asked of a block, its types are those that its code gives. -/
theorem types_of_code {pool : Pool} (h : pool.Origin) (id : BlockId) (locals stack : List VType)
    (returns : Option VType) (events : List Event)
    (hn : ∀ command, .call command ∈ events → command.WellNamed) :
    ((start id locals stack returns pool).run events).Typed locals stack := by
  have hv := (valid_start id locals stack returns h.sound).run events
  refine ⟨hv.locals_eq, hv.replay fun command hc => ?_, ?_, fun t => Block.reserve_accepted_iff,
    fun command answer b pool' => Block.answers_of_apply⟩
  · exact (mem_of_mem_accepted hc).elim (fun h => by cases h) (hn command)
  · intro command r pool' ha hc hfull
    exact hv.accepted_iff ha hc hfull

/-- Wide values, a field of a class and a value that is returned. -/
def wides : List Event :=
  [.call (.reserve .double), .call (.load 0), .call .dup, .call (.arithmetic .shl .long), .call .pop,
    .call (.accessField .getStatic ⟨"Main", "last", .array (.object "java/lang/String")⟩),
    .call (.accessField .putField ⟨"Main", "next", .object "Main"⟩), .call (.load 0),
    .call .returnValue]

theorem types_of_code_wides : Pool.empty.Origin ∧
    (∀ command, Event.call command ∈ wides → command.WellNamed) ∧
    ((start .entry [.long, .integer] [.null] (some .long) .empty).run wides).Typed
      [.long, .integer] [.null] := by
  have hn : ∀ command, Event.call command ∈ wides → command.WellNamed := by
    intro command h
    simp only [wides, List.mem_cons, Event.call.injEq, List.not_mem_nil, or_false] at h
    rcases h with rfl | rfl | rfl | rfl | rfl | rfl | rfl | rfl | rfl <;>
      simp [Command.WellNamed, FieldType.WellNamed, FieldType.ValidName] <;> decide
  exact ⟨.empty, hn, types_of_code .empty .entry [.long, .integer] [.null] (some .long) wides hn⟩

end Session

end ClassForge
