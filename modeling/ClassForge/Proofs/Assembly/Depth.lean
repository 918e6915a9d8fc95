import ClassForge.Proofs.Assembly.Typing

/-!
# The depth of the stack

The slots that instructions take from the stack and add to it, whatever types a block declares. In a
block they add up to the depth of its frame. Between blocks they do so too, except where a value of two
slots goes to a block that declares an unusable entry in its place: that entry counts one slot only.
-/

namespace ClassForge

/-! ## Slots -/

def Bank.width : Bank → Nat
  | long | double => 2
  | int | float | reference => 1

def NumericKind.width : NumericKind → Nat
  | long | double => 2
  | int | float => 1

namespace Instruction

/-- The slots that an instruction takes from the stack, and those that it adds. -/
def slots? (cs : Constants) : Instruction → Option (Nat × Nat)
  | iconst _ | bipush _ | sipush _ | ldc _ | ldcWide _ | defaultValue _ => some (0, 1)
  | load bank _ => some (0, bank.width)
  | store bank _ => some (bank.width, 0)
  | field access i => do
    let (_, symbol) ← cs.field? i
    let type ← (FieldType.parse symbol.descriptor).toOption
    match access with
    | .getStatic => return (0, type.width)
    | .putStatic => return (type.width, 0)
    | .getField => return (1, type.width)
    | .putField => return (type.width + 1, 0)
    | .withField => return (type.width + 1, 1)
  | invokeStatic i => do
    let (symbol, _) ← cs.method? i
    let type ← (MethodType.parse symbol.descriptor).toOption
    return (type.parameterWidth false, (type.returns.map FieldType.width).getD 0)
  | arithmetic op kind => some ((if op.isShift then 1 else kind.width) + kind.width, kind.width)
  | negate kind => some (kind.width, kind.width)
  | pop => some (1, 0)
  | pop2 => some (2, 0)
  | dup => some (1, 2)
  | dup2 => some (2, 4)

/-- The depth behind an instruction, if the stack is deep enough for it. -/
def depth? (cs : Constants) (depth : Nat) (i : Instruction) : Option Nat := do
  let (taken, added) ← i.slots? cs
  if taken ≤ depth then some (depth - taken + added) else none

theorem depth?_eq_some {cs : Constants} {i : Instruction} {depth after : Nat} :
    i.depth? cs depth = some after ↔ ∃ taken added, i.slots? cs = some (taken, added) ∧
      taken ≤ depth ∧ depth - taken + added = after := by
  simp [depth?, Option.bind_eq_some_iff]

end Instruction

def depthAfter? (cs : Constants) (is : List Instruction) (depth : Nat) : Option Nat :=
  is.foldlM (Instruction.depth? cs) depth

/-- The slots that the instruction of an ending takes. -/
def Ending.slots : Ending → Nat
  | ret opcode =>
    match opcode.toNat with
    | 0xb1 => 0
    | 0xad | 0xaf => 2
    | _ => 1
  | jump _ => 0
  | branch _ _ _ => 2

/-- A value of two slots goes where an unusable entry is declared, which counts one. -/
def VType.spills (t e : VType) : Bool := e = .top ∧ t.width = 2

def Frame.spill (f target : Frame) : Nat :=
  (f.stack.elements.zip target.stack.elements).countP fun p => p.1.spills p.2

/-! ## What depths have to do with types -/

theorem VType.width_of_assignable {t e : VType} (h : t.assignable e = true) :
    t.width = e.width + if t.spills e then 1 else 0 := by
  cases e with
  | top => cases t <;> rfl
  | _ => cases t <;> first | rfl | cases h

theorem VType.width_eq_of_assignable {t e : VType} (h : t.assignable e = true) (he : e ≠ .top) :
    t.width = e.width := by
  simpa [spills, he] using width_of_assignable h

theorem Meets.widths_eq {stack operands : List VType} (h : Meets stack operands)
    (ht : .top ∉ operands) :
    Slots.widths stack = Slots.widths operands + Slots.widths (stack.drop operands.length) := by
  induction operands generalizing stack with
  | nil => simp [Slots.widths]
  | cons e operands ih =>
      cases stack with
      | nil => cases h
      | cons t stack =>
          obtain ⟨he, hes⟩ := not_or.1 (List.mem_cons.not.1 ht)
          have hw : Wide.width t = Wide.width e := VType.width_eq_of_assignable h.1 (Ne.symm he)
          rw [Slots.widths, Slots.widths, ih h.2 hes, hw, Nat.add_assoc]
          rfl

theorem widths_of_assignable {as bs : List VType} (hl : as.length = bs.length)
    (h : (as.zip bs).all (fun p => p.1.assignable p.2) = true) :
    Slots.widths as = Slots.widths bs + (as.zip bs).countP fun p => p.1.spills p.2 := by
  induction as generalizing bs with
  | nil =>
      cases bs with
      | nil => rfl
      | cons e bs => cases hl
  | cons t as ih =>
      cases bs with
      | nil => cases hl
      | cons e bs =>
          rw [List.zip_cons_cons, List.all_cons, Bool.and_eq_true] at h
          have hw : Wide.width t = Wide.width e + if t.spills e then 1 else 0 :=
            VType.width_of_assignable h.1
          rw [List.zip_cons_cons, List.countP_cons, Slots.widths, Slots.widths,
            ih (Nat.succ.inj hl) h.2, hw]
          dsimp only
          omega

/-- A frame goes to another one exactly as deep, but for the values that lose a slot. -/
theorem Frame.stop_of_assignable {locals locals' : Slots VType} {stack stack' : List VType}
    (h : (ofOperands locals stack).assignable (ofOperands locals' stack') = true) :
    (ofOperands locals stack).stack.stop = (ofOperands locals' stack').stack.stop +
      (ofOperands locals stack).spill (ofOperands locals' stack') := by
  simp only [assignable, Bool.and_eq_true, decide_eq_true_eq, elements_stack] at h
  obtain ⟨⟨hl, ha⟩, -⟩ := h
  rw [spill, elements_stack, elements_stack, stop_stack, stop_stack, ← Slots.widths_reverse stack,
    ← Slots.widths_reverse stack']
  rw [← Slots.length_elements, ← Slots.length_elements, elements_stack, elements_stack] at hl
  exact widths_of_assignable hl ha

/-! ## One instruction -/

theorem Bank.width_of_ofType? {t : VType} {bank : Bank} (h : ofType? t = some bank) :
    t ≠ .top ∧ bank.width = t.width := by
  cases t <;> cases h <;> exact ⟨by simp, rfl⟩

theorem NumericKind.width_type (kind : NumericKind) : kind.type ≠ .top ∧ kind.type.width = kind.width := by
  cases kind <;> exact ⟨by simp [type], rfl⟩

namespace Constants

variable {cs : Constants}

theorem width_of_vtype? {t : FieldType} {v : VType} (h : cs.vtype? t = some v) :
    v ≠ .top ∧ v.width = t.width := by
  cases t with
  | base b => cases b <;> cases h <;> exact ⟨by simp [BaseType.vtype], rfl⟩
  | object name | value name | array t =>
      obtain ⟨i, -, rfl⟩ := Option.map_eq_some_iff.1 h
      exact ⟨by simp, rfl⟩

theorem widths_of_vtypes? {ts : List FieldType} {vs : List VType} (h : cs.vtypes? ts = some vs) :
    .top ∉ vs ∧ Slots.widths vs = ts.foldr (fun t n => t.width + n) 0 := by
  induction ts generalizing vs with
  | nil =>
      cases h
      exact ⟨by simp, rfl⟩
  | cons t ts ih =>
      simp only [vtypes?, Option.bind_eq_bind, Option.bind_eq_some_iff] at h
      obtain ⟨v, hv, vs', hvs, ⟨⟩⟩ := h
      obtain ⟨htop, hw⟩ := width_of_vtype? hv
      obtain ⟨htops, hws⟩ := ih hvs
      refine ⟨by simp [Ne.symm htop, htops], ?_⟩
      rw [Slots.widths, hws, List.foldr_cons, ← hw]
      rfl

end Constants

theorem VType.slots?_of_width (t : VType) (cs : Constants) :
    (if t.width = 1 then Instruction.pop else .pop2).slots? cs = some (t.width, 0) ∧
      (if t.width = 1 then Instruction.dup else .dup2).slots? cs = some (t.width, t.width + t.width) := by
  cases t <;> exact ⟨rfl, rfl⟩

namespace Command

variable {locals : Slots VType} {pool : Pool} {stack : List VType} {command : Command}
  {i : Instruction} {pops pushes : List VType}

/-- The slots of an instruction are those of the types that its call gave. -/
theorem Emits.slots? (h : Emits locals pool stack command i pops pushes) (hs : pool.Sound)
    (hn : command.WellNamed) :
    i.slots? pool.constants = some (Slots.widths pops, Slots.widths pushes) := by
  cases h with
  | load _ hb =>
      rw [Instruction.slots?, (Bank.width_of_ofType? hb).2]
      rfl
  | store _ hb =>
      rw [Instruction.slots?, (Bank.width_of_ofType? hb).2]
      rfl
  | pushInt h => cases h <;> rfl
  | @accessField access field owner _ i type hf hi ht =>
      have hp : FieldType.parse field.symbol.descriptor = .ok field.type := FieldType.parse_render hn
      have hw : Wide.width type = field.type.width := (Constants.width_of_vtype? ht).2
      have ho : Wide.width (VType.object owner) = 1 := rfl
      cases access <;>
        simp [Instruction.slots?, Constants.field?, hi.lookup? hs, hf.member? hs, hp,
          Except.toOption, FieldAccess.effect, Slots.widths, hw, ho]
  | defaultValue _ => rfl
  | @invokeStatic method _ _ i parameters _ hf hi hp hr =>
      have hd : MethodType.parse method.symbol.descriptor = .ok method.type :=
        MethodType.parse_render hn
      have hr' : Slots.widths pushes = (method.type.returns.map FieldType.width).getD 0 := by
        rw [(Constants.widths_of_vtypes? hr).2]
        cases method.type.returns <;> rfl
      simp [Instruction.slots?, Constants.method?, hi.lookup? hs, hf.member? hs, hd,
        Except.toOption, Slots.widths_reverse, (Constants.widths_of_vtypes? hp).2, hr',
        MethodType.parameterWidth]
  | @arithmetic op kind _ =>
      have hw : Wide.width kind.type = kind.width := kind.width_type.2
      by_cases hop : op.isShift <;>
        simp [Instruction.slots?, Arithmetic.topOperand, hop, Slots.widths, hw]
      rfl
  | @negate kind =>
      have hw : Wide.width kind.type = kind.width := kind.width_type.2
      simp [Instruction.slots?, Slots.widths, hw]
  | @pop t below _ => exact (t.slots?_of_width _).1
  | @dup t below _ => exact (t.slots?_of_width _).2

/-- No instruction asks for an unusable value but those that move whatever is there. -/
theorem Emits.widths_eq (h : Emits locals pool stack command i pops pushes) (hm : Meets stack pops) :
    Slots.widths stack = Slots.widths pops + Slots.widths (stack.drop pops.length) := by
  cases h with
  | load _ _ => exact hm.widths_eq (by simp)
  | store _ hb => exact hm.widths_eq (by simpa using (Bank.width_of_ofType? hb).1.symm)
  | pushInt _ => exact hm.widths_eq (by simp)
  | @accessField access _ _ _ _ _ _ _ ht =>
      have htop := (Constants.width_of_vtype? ht).1.symm
      exact hm.widths_eq (by cases access <;> simp [FieldAccess.effect, htop])
  | defaultValue _ => exact hm.widths_eq (by simp)
  | invokeStatic _ _ hp _ =>
      have htop := (Constants.widths_of_vtypes? hp).1
      exact hm.widths_eq (by simpa using htop)
  | @arithmetic op kind _ =>
      have htop := kind.width_type.1.symm
      refine hm.widths_eq ?_
      by_cases hop : op.isShift <;> simp [Arithmetic.topOperand, hop, htop]
  | @negate kind => exact hm.widths_eq (by simpa using kind.width_type.1.symm)
  | pop ht | dup ht =>
      subst ht
      rfl

theorem Emits.depth? (h : Emits locals pool stack command i pops pushes) (hm : Meets stack pops)
    (hs : pool.Sound) (hn : command.WellNamed) :
    i.depth? pool.constants (Slots.widths stack) =
      some (Slots.widths (pushes.reverse ++ stack.drop pops.length)) := by
  rw [Instruction.depth?, h.slots? hs hn, Slots.widths_append, Slots.widths_reverse,
    h.widths_eq hm]
  simp [Nat.add_comm]

end Command

/-! ## One block -/

theorem depthAfter?_concat (cs : Constants) (is : List Instruction) (i : Instruction) (depth : Nat) :
    depthAfter? cs (is ++ [i]) depth = (depthAfter? cs is depth).bind fun d => i.depth? cs d := by
  simp [depthAfter?, List.foldlM_append]

/-- A deeper stack stays deeper by as much. -/
theorem depthAfter?_add {cs : Constants} {is : List Instruction} {depth after : Nat}
    (h : depthAfter? cs is depth = some after) (n : Nat) :
    depthAfter? cs is (depth + n) = some (after + n) := by
  induction is generalizing depth with
  | nil =>
      cases h
      rfl
  | cons i is ih =>
      obtain ⟨d, hd, h⟩ := Option.bind_eq_some_iff.1 h
      refine Option.bind_eq_some_iff.2 ⟨d + n, ?_, ih h⟩
      obtain ⟨taken, added, hi, ht, hd⟩ := Instruction.depth?_eq_some.1 hd
      exact Instruction.depth?_eq_some.2 ⟨taken, added, hi, by omega, by omega⟩

namespace Block

variable {pool : Pool} {locals : Slots VType} {entry stack : List VType} {bound : Nat}
  {commands : List Command} {is : List Instruction}

theorem Wrote.depthAfter? (h : Wrote locals pool bound entry commands is stack) (hs : pool.Sound)
    (hn : ∀ command ∈ commands, command.WellNamed) :
    depthAfter? pool.constants is (Slots.widths entry) = some (Slots.widths stack) := by
  induction h with
  | start _ => rfl
  | emit _ hi hm _ ih =>
      obtain ⟨hn, hc⟩ := List.forall_mem_append.1 hn
      rw [depthAfter?_concat, ih hn]
      exact hi.depth? hm hs (hc _ List.mem_cons_self)

theorem Wrote.widths_le (h : Wrote locals pool bound entry commands is stack) :
    Slots.widths stack ≤ bound := by
  cases h with
  | start hw => exact hw
  | emit _ _ _ hw => exact hw

/-- What the first calls wrote. -/
theorem Wrote.of_prefix (h : Wrote locals pool bound entry commands is stack)
    {done : List Instruction} (hd : done <+: is) :
    ∃ commands' stack', commands' <+: commands ∧
      Wrote locals pool bound entry commands' done stack' := by
  induction h with
  | start hw =>
      obtain rfl := List.prefix_nil.1 hd
      exact ⟨[], entry, List.nil_prefix, .start hw⟩
  | emit hw hi hm hb ih =>
      rcases List.prefix_concat_iff.1 hd with rfl | hd
      · exact ⟨_, _, List.prefix_refl _, .emit hw hi hm hb⟩
      · obtain ⟨commands', stack', hc, h⟩ := ih hd
        exact ⟨commands', stack', hc.trans (List.prefix_append _ _), h⟩

theorem Takes.widths_eq {returns : Option VType} {ending : Ending} {left : List VType}
    (h : Takes returns (some ending) stack left) :
    Slots.widths stack = Slots.widths left + ending.slots := by
  cases h with
  | returnVoid _ => rfl
  | @returnValue t expected opcode _ _ ha hop =>
      have hw : t.width = (Ending.ret opcode).slots := by
        cases expected <;> cases hop <;> cases t <;> first | rfl | cases ha
      rw [← hw, Nat.add_comm]
      rfl
  | jump => rfl
  | branch hm =>
      rw [hm.widths_eq (by simp), Nat.add_comm]
      rfl

/-- Run from the depth of its entry frame, the block never exceeds its maximum and ends with the depth
of its frame. -/
structure Deep (cs : Constants) (b : Block) : Prop where
  below : ∀ done, done <+: b.instructions → ∃ depth,
    depthAfter? cs done b.entry.stack.stop = some depth ∧ depth ≤ b.maxima.stack
  leaves : ∀ ending, b.ending = some ending →
    depthAfter? cs b.instructions b.entry.stack.stop = some (b.frame.stack.stop + ending.slots)

variable {b : Block} {calls : List Command}

theorem Log.deep (h : b.Log pool calls entry stack) (hs : pool.Sound)
    (hn : ∀ command ∈ calls, command.WellNamed) : b.Deep pool.constants := by
  have hentry : b.entry.stack.stop = Slots.widths entry := by rw [h.entered, Frame.stop_stack]
  have hn : ∀ command ∈ calls.filter Command.emits, command.WellNamed := fun c hc =>
    hn c (List.mem_of_mem_filter hc)
  refine ⟨fun done hd => ?_, fun ending he => ?_⟩
  · obtain ⟨commands', stack', hc, hw⟩ := h.wrote.of_prefix hd
    rw [hentry]
    exact ⟨_, hw.depthAfter? hs fun c hm => hn c (hc.subset hm), hw.widths_le⟩
  · obtain ⟨left, hf, ht⟩ := h.frame
    rw [he] at ht
    rw [hentry, h.wrote.depthAfter? hs hn, ht.widths_eq, hf, Frame.stop_stack]

end Block

end ClassForge
