import Cross6502.Text.Number

/-!
# Symbols

A symbol is a named address: a *label* marks a place in the program, a *variable*
a cell of storage.  The table keeps the line of the definition, so that a second
one can be reported against the first.
-/

namespace Cross6502

/-- What a symbol names: a place in the program or a cell of storage. -/
inductive SymbolKind where
  | label
  | cell
  deriving DecidableEq, Inhabited

namespace SymbolKind

/-- The word for a kind in listings and sidecar files. -/
def name : SymbolKind → Text
  | label => "label".toList
  | cell => "variable".toList

/-- The kind a word stands for. -/
def ofName? (t : Text) : Option SymbolKind :=
  if t = "label".toList then some .label
  else if t = "variable".toList then some .cell
  else none

/-- The word for a kind at the head of a table entry. -/
def title : SymbolKind → Text
  | label => "Label".toList
  | cell => "Variable".toList

@[simp] theorem ofName?_name (k : SymbolKind) : ofName? k.name = some k := by
  cases k <;> decide

end SymbolKind

/-- A named address. -/
structure Symbol where
  name : Text
  kind : SymbolKind := .label
  address : Int
  /-- The line of the definition, zero when there is none. -/
  line : Int := 0
  /-- The initial value of a variable as it was written. -/
  value : Option Text := none
  deriving DecidableEq, Inhabited

namespace Symbol

def isLabel (s : Symbol) : Bool := s.kind == .label

def isVariable (s : Symbol) : Bool := s.kind == .cell

/-- A symbol as an entry of the dumped table. -/
def text (s : Symbol) : Text :=
  s.kind.title ++ " \x7b name = \"".toList ++ s.name ++ "\", addr = ".toList
    ++ Text.markedHex 6 s.address ++ ", line = ".toList ++ Text.decimal s.line ++ " \x7d".toList

/-- Addresses of labels and variables are sixteen bits wide. -/
def wrapAddress (a : Int) : Int := a % 65536

/-- A label at an address. -/
def ofLabel (name : Text) (address line : Int) : Symbol :=
  { name := name, kind := .label, address := wrapAddress address, line := line }

/-- A variable stored at an address. -/
def ofVariable (name : Text) (address line : Int) (value : Option Text) : Symbol :=
  { name := name, kind := .cell, address := wrapAddress address, line := line, value := value }

end Symbol

end Cross6502
