import ClassForge.ClassDraft

/-!
A small class with two branching methods: the greater of two numbers, and the sum of the numbers up
to a bound.
-/

namespace ClassForge.Demo

/-- Carries out commands on one block, in order. -/
def applyAll (m : MethodDraft) (id : BlockId) (commands : List Command) : Interning MethodDraft :=
  commands.foldlM (fun m c => Prod.snd <$> m.apply id c) m

/-- Returns the second argument if the first is at most as great, and the first otherwise. -/
def greater (m : MethodDraft) : Interning MethodDraft := do
  let entry := BlockId.entry
  let (second, m) ← Interning.ofExcept (m.continueBlock entry [])
  let (first, m) ← Interning.ofExcept (m.continueBlock entry [])
  let m ← applyAll m entry [.load 0, .load 1, .branch .le second first]
  let m ← applyAll m second [.load 1, .returnValue]
  applyAll m first [.load 0, .returnValue]

/-- Adds the numbers from 1 to the argument: local 1 holds the sum and local 2 the counter. -/
def triangle (m : MethodDraft) : Interning MethodDraft := do
  let entry := BlockId.entry
  let m ← applyAll m entry
    [.reserve .integer, .reserve .integer, .pushInt 0, .store 1, .pushInt 1, .store 2]
  let (header, m) ← Interning.ofExcept (m.continueBlock entry [])
  let (body, m) ← Interning.ofExcept (m.continueBlock entry [])
  let (exit, m) ← Interning.ofExcept (m.continueBlock entry [])
  let m ← applyAll m entry [.jump header]
  let m ← applyAll m header [.load 2, .load 0, .branch .le body exit]
  let m ← applyAll m body
    [.load 1, .load 2, .arithmetic .add .int, .store 1,
     .load 2, .pushInt 1, .arithmetic .add .int, .store 2, .jump header]
  applyAll m exit [.load 1, .returnValue]

/-- Adds a public static method to a class. -/
def addStatic (d : ClassDraft) (name : String) (type : MethodType)
    (build : MethodDraft → Interning MethodDraft) : Interning ClassDraft := do
  let m ← build (← d.method true type)
  let (attributes, _) ← m.finish
  d.addMethod ⟨0x0009⟩ name type.render attributes

def draft (name : String) : Interning ClassDraft := do
  let d ← ClassDraft.start ⟨0x0021⟩ name "java/lang/Object" []
  let d ← addStatic d "max" ⟨[.int, .int], some .int⟩ greater
  addStatic d "triangle" ⟨[.int], some .int⟩ triangle

/-- The class of the given name. -/
def classFile (name : String) : Except Error ClassFile :=
  match (draft name).run.run Pool.empty with
  | (.ok d, pool) => .ok (d.result pool)
  | (.error e, _) => .error e

end ClassForge.Demo
