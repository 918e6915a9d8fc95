import ClassForge.Text.Quoted

/-!
Outlines: the structure of a value as text, written on one line or over many indented lines.
-/

namespace ClassForge

inductive Outline where
  | atom (text : String)
  | tuple (name : String) (parts : List Outline)
  | record (name : String) (fields : List Outline)
  | field (name : String) (value : Outline)
  | list (items : List Outline)

namespace Outline

instance : Inhabited Outline := ⟨atom ""⟩

/-- The name that an outline starts with. -/
def head : Outline → String
  | atom s => s
  | tuple name _ | record name _ | field name _ => name
  | list _ => ""

def num (n : Nat) : Outline := atom (toString n)

def int (n : Int) : Outline := atom (toString n)

def bool (b : Bool) : Outline := atom (if b then "true" else "false")

def text (s : String) : Outline := atom (Text.quoted s)

def option (f : α → Outline) : Option α → Outline
  | none => atom "None"
  | some a => tuple "Some" [f a]

mutual

/-- Everything on one line. -/
def line : Outline → String
  | atom s => s
  | tuple name parts => name ++ "(" ++ ", ".intercalate (linesOf parts) ++ ")"
  | record name fields => name ++ " \x7b " ++ ", ".intercalate (linesOf fields) ++ " \x7d"
  | field name value => name ++ ": " ++ value.line
  | list items => "[" ++ ", ".intercalate (linesOf items) ++ "]"

def linesOf : List Outline → List String
  | [] => []
  | o :: rest => o.line :: linesOf rest

end

/-- The lines of an entry inside a larger value. -/
def nested (lines : List String) : List String :=
  match lines.reverse with
  | [] => []
  | last :: before => (((last ++ ",") :: before).reverse).map ("    " ++ ·)

def withLabel (label : String) : List String → List String
  | [] => [label]
  | first :: rest => (label ++ first) :: rest

mutual

/-- One entry to a line, indented by four more columns than what holds it. -/
def lines : Outline → List String
  | atom s => [s]
  | tuple name parts => (name ++ "(") :: entriesOf parts ++ [")"]
  | record name fields => (name ++ " \x7b") :: entriesOf fields ++ ["\x7d"]
  | field name value => withLabel (name ++ ": ") value.lines
  | list [] => ["[]"]
  | list items => "[" :: entriesOf items ++ ["]"]

def entriesOf : List Outline → List String
  | [] => []
  | o :: rest => nested o.lines ++ entriesOf rest

end

end Outline

end ClassForge
