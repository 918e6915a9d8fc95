import ClassForge.Proofs.Assembly.Draft
import ClassForge.Proofs.Frame
import ClassForge.Proofs.Resolution

/-!
# What calls leave in a block

Each call on a block that succeeds reserves a local, adds one instruction or seals the block. A block is
known by the calls that made it: their instructions, the operands that each of them took, and the
locals that they reserved.
-/

namespace ClassForge

namespace Command

/-- The type of the local that a call reserves. -/
def reserved? : Command → Option VType
  | reserve t => some t
  | _ => none

/-- What is answered to a call that made `b'` of `b`: to a reservation the slot behind the locals, where
the new one then stands, and nothing to other calls. -/
def Answers (b b' : Block) (answer : Option UInt16) : Command → Prop
  | reserve t => ∃ slot, answer = some slot ∧ slot.toNat = b.frame.locals.stop ∧
      b'.frame.locals.get? slot.toNat = some t
  | _ => answer = none

/-- Whether a call adds an instruction. -/
def emits : Command → Bool
  | reserve _ | returnVoid | returnValue | jump _ | branch _ _ _ => false
  | _ => true

/-- The instruction pushes an integer, by the shortest form that can hold it. -/
inductive PushesInt (pool : Pool) (v : Int32) : Instruction → Prop
  | iconst : -1 ≤ v.toInt → v.toInt ≤ 5 →
      PushesInt pool v (.iconst (Fin.ofNat 7 (v.toInt + 1).toNat))
  | bipush : -128 ≤ v.toInt → v.toInt ≤ 127 → PushesInt pool v (.bipush v.toInt8)
  | sipush : -32768 ≤ v.toInt → v.toInt ≤ 32767 → PushesInt pool v (.sipush v.toInt16)
  | ldc {i : Index .any} : pool.Holds (.integer v) i → i.val.toNat ≤ 255 →
      PushesInt pool v (.ldc (UInt8.ofNat i.val.toNat))
  | ldcWide {i : Index .any} : pool.Holds (.integer v) i → PushesInt pool v (.ldcWide i.val)

/-- The instruction of a call, with what it pops and pushes. -/
inductive Emits (locals : Slots VType) (pool : Pool) (stack : List VType) :
    Command → Instruction → List VType → List VType → Prop
  | load {slot t bank} : locals.get? slot.toNat = some t → Bank.ofType? t = some bank →
      Emits locals pool stack (.load slot) (.load bank slot) [] [t]
  | store {slot t bank} : locals.get? slot.toNat = some t → Bank.ofType? t = some bank →
      Emits locals pool stack (.store slot) (.store bank slot) [t] []
  | pushInt {v i} : PushesInt pool v i → Emits locals pool stack (.pushInt v) i [] [.integer]
  | accessField {access field owner member i type} :
      pool.NamesMember field.symbol owner member → pool.Holds (.fieldRef owner member) i →
      pool.constants.vtype? field.type = some type →
      Emits locals pool stack (.accessField access field) (.field access i)
        (access.effect (.object owner) type).1 (access.effect (.object owner) type).2
  | defaultValue {name i} : pool.Named name i →
      Emits locals pool stack (.defaultValue name) (.defaultValue i) [] [.object i]
  | invokeStatic {method owner member i parameters returns} :
      pool.NamesMember method.symbol owner member →
      pool.Holds (.methodRef owner member method.onInterface) i →
      pool.constants.vtypes? method.type.parameters = some parameters →
      pool.constants.vtypes? method.type.returns.toList = some returns →
      Emits locals pool stack (.invokeStatic method) (.invokeStatic i) parameters.reverse returns
  | arithmetic {op kind} : op.isDefinedOn kind = true →
      Emits locals pool stack (.arithmetic op kind) (.arithmetic op kind)
        [op.topOperand kind, kind.type] [kind.type]
  | negate {kind} : Emits locals pool stack (.negate kind) (.negate kind) [kind.type] [kind.type]
  | pop {t below} : stack = t :: below →
      Emits locals pool stack .pop (if t.width = 1 then .pop else .pop2) [t] []
  | dup {t below} : stack = t :: below →
      Emits locals pool stack .dup (if t.width = 1 then .dup else .dup2) [t] [t, t]

/-- What the instruction of a call takes from the top of the stack, if there is such an instruction. -/
def operands? (returns : Option VType) (locals : Slots VType) (cs : Constants) :
    Command → Option (List VType)
  | load slot => do
    let t ← locals.get? slot.toNat
    let _ ← Bank.ofType? t
    return []
  | store slot => do
    let t ← locals.get? slot.toNat
    let _ ← Bank.ofType? t
    return [t]
  | pushInt _ | defaultValue _ => some []
  | accessField access field => do
    let owner ← cs.classIndex? field.owner
    let type ← cs.vtype? field.type
    match access with
    | .getStatic => return []
    | .putStatic => return [type]
    | .getField => return [.object owner]
    | .putField | .withField => return [type, .object owner]
  | invokeStatic method => (cs.vtypes? method.type.parameters).map List.reverse
  | arithmetic op kind =>
    if op.isDefinedOn kind then some [if op.isShift then .integer else kind.type, kind.type] else none
  | negate kind => some [kind.type]
  | pop | dup => some [.top]
  | returnVoid => if returns = none then some [] else none
  | returnValue => do
    let t ← returns
    let _ ← t.returnOpcode?
    return [t]
  | jump _ => some []
  | branch condition _ _ => if condition = .le then some [.integer, .integer] else none
  | reserve _ => none

variable {locals : Slots VType} {pool pool' : Pool} {stack : List VType} {command : Command}
  {i : Instruction} {pops pushes : List VType}

theorem PushesInt.extends {v : Int32} (h : PushesInt pool v i) (he : pool.Extends pool') :
    PushesInt pool' v i := by
  cases h with
  | iconst h₁ h₂ => exact .iconst h₁ h₂
  | bipush h₁ h₂ => exact .bipush h₁ h₂
  | sipush h₁ h₂ => exact .sipush h₁ h₂
  | ldc h hi => exact .ldc (he.holds h) hi
  | ldcWide h => exact .ldcWide (he.holds h)

/-- Locals and constants that are added later change nothing. -/
theorem Emits.extends (h : Emits locals pool stack command i pops pushes) (hl : locals.Pushed)
    (reserved : List VType) (he : pool.Extends pool') :
    Emits (locals.extend reserved) pool' stack command i pops pushes := by
  cases h with
  | load ht hb => exact .load (hl.ordered.get?_extend ht _) hb
  | store ht hb => exact .store (hl.ordered.get?_extend ht _) hb
  | pushInt h => exact .pushInt (h.extends he)
  | accessField hm hi ht => exact .accessField (hm.extends he) (he.holds hi) (he.vtype? ht)
  | defaultValue h => exact .defaultValue (h.extends he)
  | invokeStatic hm hi hp hr =>
      exact .invokeStatic (hm.extends he) (he.holds hi) (he.vtypes? hp) (he.vtypes? hr)
  | arithmetic h => exact .arithmetic h
  | negate => exact .negate
  | pop h => exact .pop h
  | dup h => exact .dup h

theorem Emits.emits (h : Emits locals pool stack command i pops pushes) : command.emits = true := by
  cases h <;> rfl

theorem Emits.defined (h : Emits locals pool stack command i pops pushes) : i.Defined := by
  cases h with
  | pushInt h => cases h <;> trivial
  | arithmetic h => exact h
  | pop _ => split <;> trivial
  | dup _ => split <;> trivial
  | _ => trivial

theorem meets_self (t : VType) (below : List VType) : Meets (t :: below) [t] := by
  refine ⟨?_, meets_nil below⟩
  cases t <;> simp [VType.assignable]

theorem meets_top (t : VType) (below : List VType) : Meets (t :: below) [.top] := by
  refine ⟨?_, meets_nil below⟩
  cases t <;> rfl

theorem Emits.operands? (h : Emits locals pool stack command i pops pushes)
    (returns : Option VType) :
    ∃ operands, command.operands? returns locals pool.constants = some operands ∧
      (Meets stack operands ↔ Meets stack pops) := by
  cases h with
  | load ht hb => exact ⟨[], by simp [Command.operands?, ht, hb], Iff.rfl⟩
  | @store _ t _ ht hb => exact ⟨[t], by simp [Command.operands?, ht, hb], Iff.rfl⟩
  | pushInt _ => exact ⟨[], rfl, Iff.rfl⟩
  | @accessField access field owner _ _ type hm _ ht =>
      have ho : pool.constants.classIndex? field.owner = some owner := hm.owner.classIndex?
      refine ⟨_, ?_, Iff.rfl⟩
      cases access <;> simp [Command.operands?, ho, ht, FieldAccess.effect]
  | defaultValue _ => exact ⟨[], rfl, Iff.rfl⟩
  | invokeStatic _ _ hp _ => exact ⟨_, by simp [Command.operands?, hp], Iff.rfl⟩
  | @arithmetic op kind hd => exact ⟨_, if_pos hd, Iff.rfl⟩
  | negate => exact ⟨_, rfl, Iff.rfl⟩
  | pop hs | dup hs =>
      subst hs
      exact ⟨[.top], rfl, iff_of_true (meets_top _ _) (meets_self _ _)⟩

end Command

namespace Block

variable {b b' : Block} {pool pool' : Pool} {locals : Slots VType} {stack : List VType}
  {command : Command} {answer : Option UInt16}

open Command (Emits PushesInt)

/-! ## One call -/

/-- How a call that adds an instruction to an open block comes out. -/
inductive Outcome (b : Block) (locals : Slots VType) (stack : List VType) (command : Command)
    (pool : Pool) : Except Error Block → Prop
  | full {c next} : Outcome b locals stack command pool (.error (.constantPoolOverflow c next))
  /-- The slot or the operation does not exist, or there is nothing on the stack. -/
  | refused {e} : (∀ operands, command.operands? b.returns locals pool.constants = some operands →
      ¬ Meets stack operands) → Outcome b locals stack command pool (.error e)
  | emit {mnemonic i pops pushes} : Emits locals pool stack command i pops pushes →
      Outcome b locals stack command pool (b.emit mnemonic pops pushes i)

theorem intInstruction_eq_ok {v : Int32} {mnemonic : String} {i : Instruction} (hs : pool.Sound)
    (h : intInstruction v pool = (.ok (mnemonic, i), pool')) : PushesInt pool' v i := by
  revert h
  fun_cases intInstruction v with
  | case1 x hv =>
      intro h
      cases h
      exact .iconst hv.1 hv.2
  | case2 x _ hv =>
      intro h
      cases h
      exact .bipush hv.1 hv.2
  | case3 x _ _ hv =>
      intro h
      cases h
      exact .sipush hv.1 hv.2
  | case4 =>
      intro h
      obtain ⟨index, pool₁, hi, h⟩ := Interning.bind_eq_ok.1 h
      have hh := (hs.interned_of_eq hi).holds
      split at h
      next hle =>
        cases h
        exact .ldc hh hle
      next =>
        cases h
        exact .ldcWide hh

theorem interns_intInstruction {R : Error → Prop} (v : Int32) :
    Interning.Interns R (intInstruction v) := by
  fun_cases intInstruction v with
  | case1 | case2 | case3 => exact .pure _
  | case4 =>
      refine .bind (.intern _) fun i => ?_
      split <;> exact .pure _

theorem interns_apply (b : Block) (command : Command) :
    Interning.Interns (fun _ => True) (b.apply command) := by
  have hret : ∀ {α : Type} (x : Except Error α),
      Interning.Interns (fun _ => True) (Interning.ofExcept x) := fun _ => .ofExcept fun _ _ => trivial
  have hsilent : ∀ {x : Interning Block}, Interning.Interns (fun _ => True) x →
      Interning.Interns (fun _ => True) (silent x) := fun h => .bind h fun _ => .pure _
  cases command with
  | reserve t => exact .bind (hret _) fun _ => .pure _
  | pushInt v =>
      exact hsilent (.bind (hret _) fun _ => .bind (interns_intInstruction v) fun _ => hret _)
  | accessField access field =>
      exact hsilent (.bind (hret _) fun _ => .bind (Pool.interns_fieldRefFor _) fun _ =>
        .bind (Pool.interns_classNamed _) fun _ => .bind (Pool.interns_typeOf _) fun _ => hret _)
  | defaultValue name =>
      exact hsilent (.bind (hret _) fun _ => .bind (Pool.interns_classNamed _) fun _ => hret _)
  | invokeStatic method =>
      exact hsilent (.bind (hret _) fun _ => .bind (Pool.interns_methodRefFor _) fun _ =>
        .bind (.mapM Pool.interns_typeOf _) fun _ => .bind (Pool.interns_typeOf? _) fun _ => hret _)
  | _ => exact hsilent (hret _)

theorem grows_of_apply {r : Except Error (Option UInt16 × Block)} (hs : pool.Sound)
    (h : b.apply command pool = (r, pool')) : pool.Grows pool' := by
  have hg := (b.interns_apply command).grows hs
  rwa [h] at hg

theorem ofExcept_checkOpen_bind {α : Type} (ho : b.ending = none) (f : Unit → Interning α) :
    (Interning.ofExcept b.checkOpen >>= f) = f () := by
  rw [checkOpen, ho]
  rfl

/-- `load` and `store` move a local that has a family. -/
theorem outcome_local {verb : String} {slot : UInt16} {pops : VType → List VType}
    {f : VType × Bank → Except Error Block} (hf : b.frame = .ofOperands locals stack)
    (ho : b.ending = none)
    (hop : command.operands? b.returns locals pool.constants =
      (locals.get? slot.toNat).bind fun t => (Bank.ofType? t).bind fun _ => some (pops t))
    (hemit : ∀ t bank, locals.get? slot.toNat = some t → Bank.ofType? t = some bank →
      Outcome b locals stack command pool (f (t, bank))) :
    Outcome b locals stack command pool (b.bankAt verb slot >>= f) := by
  have hl : b.frame.locals = locals := by rw [hf]; rfl
  rcases hb : b.bankAt verb slot with e | ⟨t, bank⟩
  · refine .refused fun operands h => ?_
    simp only [hop, Option.bind_eq_some_iff] at h
    obtain ⟨t, ht, bank, hbank, -⟩ := h
    rw [(bankAt_eq_ok ho).2 ⟨hl ▸ ht, hbank⟩] at hb
    cases hb
  · obtain ⟨ht, hbank⟩ := (bankAt_eq_ok ho).1 hb
    exact hemit t bank (hl ▸ ht) hbank

theorem outcome_arithmetic {op : Arithmetic} {kind : NumericKind} :
    Outcome b locals stack (.arithmetic op kind) pool (b.arithmetic op kind) := by
  rw [arithmetic]
  by_cases hd : op.isDefinedOn kind
  · rw [if_pos hd]
    exact .emit (.arithmetic hd)
  · rw [if_neg hd]
    refine .refused fun operands h => ?_
    rw [Command.operands?, if_neg hd] at h
    cases h

/-- `pop` and `dup` work on whatever is on top. -/
theorem outcome_top {name : String} {f : VType → Except Error Block}
    (hf : b.frame = .ofOperands locals stack)
    (hop : command.operands? b.returns locals pool.constants = some [.top])
    (hemit : ∀ t below, stack = t :: below → Outcome b locals stack command pool (f t)) :
    Outcome b locals stack command pool (b.top name >>= f) := by
  rw [top, hf]
  cases stack with
  | nil =>
      refine .refused fun operands h => ?_
      rw [hop] at h
      cases h
      exact fun h => h
  | cons t below =>
      rw [Frame.last?_cons]
      exact hemit t below rfl

theorem outcome_accessField {access : FieldAccess} {field : FieldRef} {r : Except Error Block}
    (hs : pool.Sound) (ho : b.ending = none)
    (h : b.accessField access field pool = (r, pool')) :
    Outcome b locals stack (.accessField access field) pool' r := by
  rw [accessField, ofExcept_checkOpen_bind ho] at h
  rcases (Pool.interns_fieldRefFor field).bind_cases hs h with ⟨c, next, rfl⟩ | ⟨i, pool₁, hi, h⟩
  · exact .full
  obtain ⟨g₁, owner, member, hm, hi⟩ := Pool.fieldRefFor_eq_ok hs hi
  rcases (Pool.interns_classNamed field.owner).bind_cases g₁.sound h with
    ⟨c, next, rfl⟩ | ⟨owner', pool₂, ho', h⟩
  · exact .full
  obtain ⟨g₂, ho'⟩ := Pool.classNamed_eq_ok g₁.sound ho'
  rcases (Pool.interns_typeOf field.type).bind_cases g₂.sound h with
    ⟨c, next, rfl⟩ | ⟨type, pool₃, ht, h⟩
  · exact .full
  obtain ⟨g₃, ht⟩ := Pool.typeOf_eq_ok g₂.sound ht
  cases h
  -- the owner is asked for twice, and the answer is the same
  have hm := hm.extends g₂.added
  obtain rfl : owner = owner' := by
    have h₁ : pool₂.constants.classIndex? field.owner = some owner := hm.owner.classIndex?
    exact Option.some.inj (h₁.symm.trans ho'.classIndex?)
  exact .emit (.accessField (hm.extends g₃.added) ((g₂.trans g₃).added.holds hi) ht)

theorem outcome_invokeStatic {method : MethodRef} {r : Except Error Block} (hs : pool.Sound)
    (ho : b.ending = none) (h : b.invokeStatic method pool = (r, pool')) :
    Outcome b locals stack (.invokeStatic method) pool' r := by
  rw [invokeStatic, ofExcept_checkOpen_bind ho] at h
  rcases (Pool.interns_methodRefFor method).bind_cases hs h with ⟨c, next, rfl⟩ | ⟨i, pool₁, hi, h⟩
  · exact .full
  obtain ⟨g₁, owner, member, hm, hi⟩ := Pool.methodRefFor_eq_ok hs hi
  rcases (Interning.Interns.mapM Pool.interns_typeOf _).bind_cases g₁.sound h with
    ⟨c, next, rfl⟩ | ⟨parameters, pool₂, hp, h⟩
  · exact .full
  obtain ⟨g₂, hp⟩ := Pool.mapM_typeOf_eq_ok g₁.sound hp
  rcases (Pool.interns_typeOf? _).bind_cases g₂.sound h with ⟨c, next, rfl⟩ | ⟨returns, pool₃, hr, h⟩
  · exact .full
  obtain ⟨g₃, hr⟩ := Pool.typeOf?_eq_ok g₂.sound hr
  cases h
  have g := g₂.trans g₃
  exact .emit (.invokeStatic (hm.extends g.added) (g.added.holds hi) (g₃.added.vtypes? hp) hr)

/-- What a command does to the block, where it has no answer to give. -/
theorem eq_of_silent {x : Interning Block} {answered : Except Error (Option UInt16 × Block)}
    {r : Except Error Block} (hx : b.apply command = silent x)
    (h : b.apply command pool = (answered, pool')) (hr : answered.map Prod.snd = r) :
    x pool = (r, pool') := by
  rw [hx, silent_eq, Interning.map_apply] at h
  rcases hx : x pool with ⟨e | b, pool₁⟩ <;> (rw [hx] at h; cases h; cases hr; rfl)

/-- Every call for an instruction runs into a full pool, is refused or adds the instruction. -/
theorem outcome_of_apply {answered : Except Error (Option UInt16 × Block)} (hs : pool.Sound)
    (hf : b.frame = .ofOperands locals stack) (ho : b.ending = none) (hc : command.emits = true)
    (h : b.apply command pool = (answered, pool')) :
    Outcome b locals stack command pool' (answered.map Prod.snd) := by
  generalize hr : answered.map Prod.snd = r
  cases command with
  | load slot =>
      cases eq_of_silent rfl h hr
      exact outcome_local hf ho rfl fun t bank ht hb => .emit (.load ht hb)
  | store slot =>
      cases eq_of_silent rfl h hr
      exact outcome_local hf ho rfl fun t bank ht hb => .emit (.store ht hb)
  | pushInt v =>
      have h := eq_of_silent rfl h hr
      rw [pushInt, ofExcept_checkOpen_bind ho] at h
      rcases (interns_intInstruction v).bind_cases hs h with
        ⟨c, next, rfl⟩ | ⟨⟨mnemonic, i⟩, pool₁, hi, h⟩
      · exact .full
      · cases h
        exact .emit (.pushInt (intInstruction_eq_ok hs hi))
  | accessField access field => exact outcome_accessField hs ho (eq_of_silent rfl h hr)
  | defaultValue name =>
      have h := eq_of_silent rfl h hr
      rw [defaultValue, ofExcept_checkOpen_bind ho] at h
      rcases (Pool.interns_classNamed name).bind_cases hs h with ⟨c, next, rfl⟩ | ⟨i, pool₁, hi, h⟩
      · exact .full
      · cases h
        exact .emit (.defaultValue (Pool.classNamed_eq_ok hs hi).2)
  | invokeStatic method => exact outcome_invokeStatic hs ho (eq_of_silent rfl h hr)
  | arithmetic op kind =>
      cases eq_of_silent rfl h hr
      exact outcome_arithmetic
  | negate kind =>
      cases eq_of_silent rfl h hr
      exact .emit .negate
  | pop =>
      cases eq_of_silent rfl h hr
      rw [pop, checkOpen_bind ho]
      exact outcome_top hf rfl fun t below ht => .emit (.pop ht)
  | dup =>
      cases eq_of_silent rfl h hr
      rw [dup, checkOpen_bind ho]
      exact outcome_top hf rfl fun t below ht => .emit (.dup ht)
  | _ => cases hc

theorem emits_of_apply (hs : pool.Sound) (hf : b.frame = .ofOperands locals stack)
    (hc : command.emits = true) (ho : b.ending = none)
    (h : b.apply command pool = (.ok (answer, b'), pool')) :
    ∃ i pops pushes, Emits locals pool' stack command i pops pushes ∧ Meets stack pops ∧
      b' = { b.advance (.ofOperands locals (pushes.reverse ++ stack.drop pops.length)) with
        newest := i :: b.newest } := by
  have hout := outcome_of_apply hs hf ho hc h
  generalize hr : Except.map Prod.snd (.ok (answer, b')) = r at hout
  cases hout with
  | full => cases hr
  | refused _ => cases hr
  | emit he =>
      obtain ⟨-, frame, hx, hb⟩ := emit_eq_ok.1 hr.symm
      rw [hf] at hx
      obtain ⟨hm, rfl⟩ := Frame.exchange_eq_ok.1 hx
      exact ⟨_, _, _, he, hm, hb⟩

/-! ## All calls -/

/-- The calls added the instructions one by one, each on the stack that the ones before it left, and the
stack never took more than `bound` slots. -/
inductive Wrote (locals : Slots VType) (pool : Pool) (bound : Nat) (entry : List VType) :
    List Command → List Instruction → List VType → Prop
  | start : Slots.widths entry ≤ bound → Wrote locals pool bound entry [] [] entry
  | emit {commands is stack command i pops pushes} :
      Wrote locals pool bound entry commands is stack →
      Emits locals pool stack command i pops pushes → Meets stack pops →
      Slots.widths (pushes.reverse ++ stack.drop pops.length) ≤ bound →
      Wrote locals pool bound entry (commands ++ [command]) (is ++ [i])
        (pushes.reverse ++ stack.drop pops.length)

theorem Wrote.mono {bound bound' : Nat} {entry : List VType} {commands : List Command}
    {is : List Instruction} (h : Wrote locals pool bound entry commands is stack)
    (hl : locals.Pushed) (reserved : List VType) (he : pool.Extends pool') (hb : bound ≤ bound') :
    Wrote (locals.extend reserved) pool' bound' entry commands is stack := by
  induction h with
  | start hw => exact .start (Nat.le_trans hw hb)
  | emit _ hi hm hw ih => exact .emit ih (hi.extends hl reserved he) hm (Nat.le_trans hw hb)

/-- What the ending of a block takes from the stack. -/
inductive Takes (returns : Option VType) : Option Ending → List VType → List VType → Prop
  | nothing {stack : List VType} : Takes returns none stack stack
  | returnVoid {stack : List VType} : returns = none → Takes returns (some (.ret 0xb1)) stack stack
  | returnValue {t expected : VType} {opcode : UInt8} {stack : List VType} : returns = some expected →
      t.assignable expected = true → expected.returnOpcode? = some opcode →
      Takes returns (some (.ret opcode)) (t :: stack) stack
  | jump {target : BlockId} {stack : List VType} : Takes returns (some (.jump target)) stack stack
  | branch {ifTrue ifFalse : BlockId} {stack : List VType} : Meets stack [.integer, .integer] →
      Takes returns (some (.branch .le ifTrue ifFalse)) stack (stack.drop 2)

/-- The block came about by the calls, in their order, from a stack `entry`; before its ending the stack
is `stack`. -/
structure Log (pool : Pool) (calls : List Command) (entry stack : List VType) (b : Block) :
    Prop where
  entered : b.entry = .ofOperands b.entry.locals entry
  pushed : b.entry.locals.Pushed
  locals : b.frame.locals = b.entry.locals.extend (calls.filterMap Command.reserved?)
  wrote : Wrote b.frame.locals pool b.maxima.stack entry (calls.filter Command.emits) b.instructions
    stack
  frame : ∃ left, b.frame = .ofOperands b.frame.locals left ∧ Takes b.returns b.ending stack left

theorem log_start (id : BlockId) {locals : Slots VType} (hl : locals.Pushed) (entry : List VType)
    (returns : Option VType) (pool : Pool) :
    Log pool [] entry entry (.start id (.ofOperands locals entry) returns) where
  entered := rfl
  pushed := hl
  locals := rfl
  wrote := .start (Nat.le_trans (Nat.le_of_eq Frame.stop_stack.symm) (Nat.le_max_right _ _))
  frame := ⟨entry, rfl, .nothing⟩

variable {calls : List Command} {entry : List VType}

theorem Log.pushed_locals (h : Log pool calls entry stack b) : b.frame.locals.Pushed :=
  h.locals ▸ h.pushed.extend _

theorem Log.extends (h : Log pool calls entry stack b) (he : pool.Extends pool') :
    Log pool' calls entry stack b where
  entered := h.entered
  pushed := h.pushed
  locals := h.locals
  wrote := h.wrote.mono h.pushed_locals [] he (Nat.le_refl _)
  frame := h.frame

/-- Before the ending nothing is taken. -/
theorem Log.frame_eq (h : Log pool calls entry stack b) (ho : b.ending = none) :
    b.frame = .ofOperands b.frame.locals stack := by
  obtain ⟨left, hf, ht⟩ := h.frame
  rw [ho] at ht
  cases ht
  exact hf

theorem Log.reserve {t : VType} (h : Log pool calls entry stack b) (ho : b.ending = none) :
    Log pool (calls ++ [.reserve t]) entry stack
      (b.advance { b.frame with locals := (b.frame.locals.push t).2 }) where
  entered := h.entered
  pushed := h.pushed
  locals := by
    have hl : (b.frame.locals.push t).2 = b.frame.locals.extend [t] := rfl
    rw [List.filterMap_append]
    exact hl.trans (by rw [h.locals]; exact (List.foldl_append ..).symm)
  wrote := by
    rw [List.filter_append]
    exact (List.append_nil _).symm ▸
      h.wrote.mono h.pushed_locals [t] (.refl pool) (Nat.le_max_left _ _)
  frame := by
    refine ⟨stack, ?_, ho ▸ .nothing⟩
    have hs := congrArg Frame.stack (h.frame_eq ho)
    exact congrArg (Frame.mk (b.frame.locals.push t).2) hs

theorem Log.emit {command : Command} {i : Instruction} {pops pushes : List VType}
    (h : Log pool calls entry stack b) (ho : b.ending = none)
    (hi : Emits b.frame.locals pool stack command i pops pushes) (hm : Meets stack pops) :
    Log pool (calls ++ [command]) entry (pushes.reverse ++ stack.drop pops.length)
      { b.advance (.ofOperands b.frame.locals (pushes.reverse ++ stack.drop pops.length)) with
        newest := i :: b.newest } where
  entered := h.entered
  pushed := h.pushed
  locals := by
    have hr : command.reserved? = none := by cases hi <;> rfl
    rw [List.filterMap_append, List.filterMap_cons, hr]
    exact h.locals.trans (congrArg _ (List.append_nil _).symm)
  wrote := by
    have hw := h.wrote.mono h.pushed_locals [] (.refl pool) (Nat.le_max_left _
      (Frame.ofOperands b.frame.locals (pushes.reverse ++ stack.drop pops.length)).stack.stop)
    rw [List.filter_append, List.filter_cons, hi.emits, instructions, List.reverse_cons]
    refine .emit hw hi hm ?_
    exact Nat.le_trans (Nat.le_of_eq Frame.stop_stack.symm) (Nat.le_max_right _ _)
  frame := ⟨_, rfl, ho ▸ .nothing⟩

/-- Sealing a block keeps its code; `frame` and `m` are what the ending leaves. -/
theorem Log.close (command : Command) {ending : Ending} {left : List VType} {m : Maxima}
    (h : Log pool calls entry stack b) (hr : command.reserved? = none) (he : command.emits = false)
    (hm : b.maxima.stack ≤ m.stack) (ht : Takes b.returns (some ending) stack left) :
    Log pool (calls ++ [command]) entry stack
      { b with frame := .ofOperands b.frame.locals left, maxima := m, ending := some ending } where
  entered := h.entered
  pushed := h.pushed
  locals := by
    rw [List.filterMap_append, List.filterMap_cons, hr]
    exact h.locals.trans (congrArg _ (List.append_nil _).symm)
  wrote := by
    rw [List.filter_append, List.filter_cons, he]
    exact (List.append_nil _).symm ▸ h.wrote.mono h.pushed_locals [] (.refl pool) hm
  frame := ⟨left, rfl, ht⟩

/-- A call that succeeds is one more call of the block. -/
theorem Log.apply (h : Log pool calls entry stack b) (hs : pool.Sound)
    (ha : b.apply command pool = (.ok (answer, b'), pool')) :
    ∃ stack', Log pool' (calls ++ [command]) entry stack' b' := by
  have hg := grows_of_apply hs ha
  have ho := (apply_step ha).unsealed
  have hf := h.frame_eq ho
  cases hc : command.emits with
  | true =>
      obtain ⟨i, pops, pushes, hi, hm, rfl⟩ := emits_of_apply hs hf hc ho ha
      exact ⟨_, (h.extends hg.added).emit ho hi hm⟩
  | false =>
      have h := h.extends hg.added
      cases command with
      | reserve t =>
          obtain ⟨-, -, slot, frame, hr, -, rfl⟩ := reserve_eq_ok ha
          obtain ⟨-, rfl⟩ := Frame.reserve_eq_ok.1 hr
          exact ⟨stack, h.reserve ho⟩
      | returnVoid =>
          obtain ⟨-, hr, rfl⟩ := returnVoid_eq_ok (ofExcept_of_silent ha)
          have hl := h.close .returnVoid rfl rfl (Nat.le_refl _) (.returnVoid hr)
          rw [← hf] at hl
          exact ⟨stack, hl⟩
      | returnValue =>
          obtain ⟨-, found, frame, expected, opcode, hp, hr, hx, hop, rfl⟩ :=
            returnValue_eq_ok (ofExcept_of_silent ha)
          rw [hf] at hp
          cases stack with
          | nil => cases hp
          | cons t below =>
              rw [Frame.pop_cons] at hp
              cases hp
              exact ⟨_, h.close _ rfl rfl (Nat.le_refl _) (.returnValue hr hx hop)⟩
      | jump target =>
          obtain ⟨-, rfl⟩ := close_eq_ok.1 (ofExcept_of_silent ha)
          have ht : Takes b.returns (some (.jump target)) stack stack := .jump
          have hl := h.close (.jump target) rfl rfl (Nat.le_refl _) ht
          rw [← hf] at hl
          exact ⟨stack, hl⟩
      | branch condition ifTrue ifFalse =>
          obtain ⟨-, rfl, frame, hx, rfl⟩ := branch_eq_ok (ofExcept_of_silent ha)
          rw [hf] at hx
          obtain ⟨hm, rfl⟩ := Frame.exchange_eq_ok.1 hx
          exact ⟨stack, h.close _ rfl rfl (Nat.le_max_left _ _) (.branch hm)⟩
      | _ => cases hc

end Block

/-! ## Sessions -/

/-- A block under construction, its pool, and the calls that were accepted so far. -/
structure Session where
  block : Block
  pool : Pool
  accepted : List Command

namespace Session

/-- A call on the block, or something else that is asked of the pool. -/
inductive Event : Type 1 where
  | call (command : Command)
  | request (r : Pool.Request)

def start (id : BlockId) (locals stack : List VType) (returns : Option VType) (pool : Pool) :
    Session :=
  ⟨.start id (.ofLists locals stack) returns, pool, []⟩

/-- A call that fails leaves the block alone, but constants may stay behind in the pool. -/
def step (s : Session) : Event → Session
  | .call command =>
    match s.block.apply command s.pool with
    | (.ok (_, block), pool) => ⟨block, pool, s.accepted ++ [command]⟩
    | (.error _, pool) => { s with pool }
  | .request r => { s with pool := s.pool.serve r }

def run (s : Session) (events : List Event) : Session := events.foldl step s

/-- The block is what the accepted calls made of an empty one. -/
structure Valid (locals stack : List VType) (s : Session) : Prop where
  sound : s.pool.Sound
  entered : s.block.entry = .ofLists locals stack
  log : ∃ top, s.block.Log s.pool s.accepted stack.reverse top

variable {locals stack : List VType} {s : Session}

theorem valid_start (id : BlockId) (locals stack : List VType) (returns : Option VType) {pool : Pool}
    (hs : pool.Sound) : (start id locals stack returns pool).Valid locals stack := by
  refine ⟨hs, rfl, stack.reverse, ?_⟩
  rw [start, Frame.ofLists_eq]
  exact Block.log_start id (Slots.pushed_ofList locals) stack.reverse returns pool

theorem Valid.step (h : s.Valid locals stack) (event : Event) :
    (s.step event).Valid locals stack := by
  obtain ⟨hs, he, top, hl⟩ := h
  cases event with
  | call command =>
      rw [Session.step]
      rcases ha : s.block.apply command s.pool with ⟨e | ⟨answer, b⟩, pool⟩
      · have hg := Block.grows_of_apply hs ha
        exact ⟨hg.sound, he, top, hl.extends hg.added⟩
      · exact ⟨(Block.grows_of_apply hs ha).sound, (Block.apply_step ha).entry.trans he, hl.apply hs ha⟩
  | request r =>
      have hg := hs.serve r
      exact ⟨hg.sound, he, top, hl.extends hg.added⟩

theorem Valid.run (h : s.Valid locals stack) (events : List Event) :
    (s.run events).Valid locals stack := by
  induction events generalizing s with
  | nil => exact h
  | cons event events ih => exact ih (h.step event)

end Session

end ClassForge
