import ClassForge.Descriptor.Basic

/-!
Reading descriptors from text. Class names run up to a semicolon and hold no `.` and no `[`.
-/

namespace ClassForge

inductive DescriptorError where
  | leftover (c : Char)
  | invalidBase (c : Char)
  | missingBase
  | missingTerminator (name : String)
  | emptyClassName
  | invalidInClassName (c : Char)
  | invalidReference (c : Char)
  | missingFieldType
  | invalidFieldType (c : Char)
  | missingParenthesis
  deriving DecidableEq, Repr

namespace DescriptorError

/-- Whether the text ends too early. -/
def isTruncation : DescriptorError → Bool
  | missingBase | missingTerminator _ | missingFieldType => true
  | _ => false

def message : DescriptorError → String
  | leftover c => s!"Unexpected leftover input '{c}'"
  | invalidBase c => s!"Invalid base type character '{c}'"
  | missingBase => "Missing base type character"
  | missingTerminator name => s!"Missing terminator for '{name}'"
  | emptyClassName => "Empty class name"
  | invalidInClassName c => s!"Invalid character '{c}' in class name"
  | invalidReference c => s!"Invalid reference type character '{c}'"
  | missingFieldType => "Missing field type"
  | invalidFieldType c => s!"Invalid field type character '{c}'"
  | missingParenthesis => "Expected '(' for method"

end DescriptorError

/-- Reads a value at the front of a text and gives back the rest. -/
abbrev DescriptorParser (α : Type) := List Char → Except DescriptorError (α × List Char)

/-- Reads a whole text. -/
def DescriptorParser.run (parse : DescriptorParser α) (s : String) : Except DescriptorError α :=
  match parse s.toList with
  | .error e => .error e
  | .ok (a, []) => .ok a
  | .ok (_, c :: _) => .error (.leftover c)

namespace BaseType

def parseFrom : DescriptorParser BaseType
  | [] => .error .missingBase
  | c :: rest =>
    match ofLetter? c with
    | some b => .ok (b, rest)
    | none => .error (.invalidBase c)

def parse (s : String) : Except DescriptorError BaseType := DescriptorParser.run parseFrom s

end BaseType

namespace FieldType

def isNameChar (c : Char) : Bool := c ≠ ';' && c ≠ '.' && c ≠ '['

def parseClassName : DescriptorParser String := fun cs =>
  let name := cs.takeWhile isNameChar
  match cs.dropWhile isNameChar with
  | [] => .error (.missingTerminator (String.ofList name))
  | c :: rest =>
    if c ≠ ';' then .error (.invalidInClassName c)
    else if name.isEmpty then .error .emptyClassName
    else .ok (String.ofList name, rest)

def parseFrom : DescriptorParser FieldType
  | [] => .error .missingFieldType
  | c :: rest =>
    if c = 'L' then (parseClassName rest).map fun (name, rest) => (object name, rest)
    else if c = 'Q' then (parseClassName rest).map fun (name, rest) => (value name, rest)
    else if c = '[' then (parseFrom rest).map fun (t, rest) => (array t, rest)
    else
      match BaseType.ofLetter? c with
      | some b => .ok (base b, rest)
      | none => .error (.invalidFieldType c)

/-- Only reference types; their elements may be of any type. -/
def parseReferenceFrom : DescriptorParser FieldType
  | [] => .error .missingFieldType
  | c :: rest =>
    if c = 'L' ∨ c = 'Q' ∨ c = '[' then parseFrom (c :: rest)
    else .error (.invalidReference c)

def parse (s : String) : Except DescriptorError FieldType := DescriptorParser.run parseFrom s

def parseReference (s : String) : Except DescriptorError FieldType :=
  DescriptorParser.run parseReferenceFrom s

theorem length_of_parseClassName {cs rest : List Char} {name : String}
    (h : parseClassName cs = .ok (name, rest)) : rest.length < cs.length := by
  simp only [parseClassName] at h
  split at h
  · cases h
  · rename_i c tail htail
    have hle := (List.dropWhile_suffix isNameChar (l := cs)).length_le
    rw [htail] at hle
    split at h
    · cases h
    · split at h
      · cases h
      · simp only [Except.ok.injEq, Prod.mk.injEq] at h
        obtain ⟨_, rfl⟩ := h
        exact hle

theorem exists_of_map_eq_ok {α β : Type} {f : α → β} {b : β} {rest : List Char}
    {x : Except DescriptorError (α × List Char)}
    (h : (x.map fun (a, rest) => (f a, rest)) = .ok (b, rest)) :
    ∃ a, x = .ok (a, rest) ∧ f a = b := by
  match x, h with
  | .ok (a, _), h =>
    simp only [Except.map, Except.ok.injEq, Prod.mk.injEq] at h
    obtain ⟨rfl, rfl⟩ := h
    exact ⟨a, rfl, rfl⟩

/-- Every type takes at least one character. -/
theorem length_of_parseFrom {cs rest : List Char} {t : FieldType}
    (h : parseFrom cs = .ok (t, rest)) : rest.length < cs.length := by
  induction cs generalizing t rest with
  | nil => cases h
  | cons c cs ih =>
    simp only [parseFrom] at h
    rw [List.length_cons]
    split at h
    · obtain ⟨_, hn, _⟩ := exists_of_map_eq_ok h
      exact Nat.lt_succ_of_lt (length_of_parseClassName hn)
    · split at h
      · obtain ⟨_, hn, _⟩ := exists_of_map_eq_ok h
        exact Nat.lt_succ_of_lt (length_of_parseClassName hn)
      · split at h
        · obtain ⟨_, hn, _⟩ := exists_of_map_eq_ok h
          exact Nat.lt_succ_of_lt (ih hn)
        · split at h
          · simp only [Except.ok.injEq, Prod.mk.injEq] at h
            simp [← h.2]
          · cases h

end FieldType

namespace MethodType

/-- Parameters up to the closing parenthesis, onto those read before, newest first. -/
def parseParameters (acc : List FieldType) (cs : List Char) :
    Except DescriptorError (List FieldType × List Char) :=
  match cs with
  | ')' :: rest => .ok (acc.reverse, rest)
  | cs =>
    match h : FieldType.parseFrom cs with
    | .error e => .error e
    | .ok (t, rest) =>
      have := FieldType.length_of_parseFrom h
      parseParameters (t :: acc) rest
termination_by cs.length

def parseReturns : DescriptorParser (Option FieldType)
  | 'V' :: rest => .ok (none, rest)
  | cs => (FieldType.parseFrom cs).map fun (t, rest) => (some t, rest)

def parseFrom : DescriptorParser MethodType
  | '(' :: rest => do
    let (parameters, rest) ← parseParameters [] rest
    let (returns, rest) ← parseReturns rest
    return (⟨parameters, returns⟩, rest)
  | _ => .error .missingParenthesis

def parse (s : String) : Except DescriptorError MethodType := DescriptorParser.run parseFrom s

end MethodType

end ClassForge
