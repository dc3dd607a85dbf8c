import Cross6502.Diagnostic.Failure
import Cross6502.Symbol.Basic

/-!
# Symbol tables

A table lists its symbols with the longest names first and, among names of one
length, in the order of their definition.  Substitution tries the symbols in this
order.  A name is defined once: putting it in again is refused, the first definition
stays, and the refusal cites it.

The table is the list alone; a name is looked up in it.  There is no second index
that could disagree with the list.
-/

namespace Cross6502

/-- Symbols by descending length of name, each name once. -/
structure SymbolTable where
  /-- The file that definitions are cited in. -/
  file : String := "<input>"
  symbols : List Symbol := []
  deriving DecidableEq, Inhabited

namespace SymbolTable

/-! ## Looking up -/

/-- The symbol of a name. -/
def find? (t : SymbolTable) (name : Text) : Option Symbol :=
  t.symbols.find? fun s => s.name == name

def contains (t : SymbolTable) (name : Text) : Bool := (t.find? name).isSome

def size (t : SymbolTable) : Nat := t.symbols.length

def labels (t : SymbolTable) : List Symbol := t.symbols.filter Symbol.isLabel

def cells (t : SymbolTable) : List Symbol := t.symbols.filter Symbol.isVariable

/-- The first label at an address, or the first variable there. -/
def atAddress? (t : SymbolTable) (address : Int) : Option Symbol :=
  (t.symbols.find? fun s => s.address == address && s.isLabel).or
    (t.symbols.find? fun s => s.address == address)

/-- The name of the first label at an address. -/
def labelAt? (t : SymbolTable) (address : Int) : Option Text :=
  (t.symbols.find? fun s => s.address == address && s.isLabel).map Symbol.name

/-- By address and then by line; ties keep the order of the table. -/
def byAddress (t : SymbolTable) : List Symbol :=
  t.symbols.mergeSort fun a b =>
    a.address < b.address || (a.address == b.address && a.line ≤ b.line)

/-! ## Inserting -/

/-- Put a symbol in front of the first one with a shorter name. -/
def insertByLength (s : Symbol) : List Symbol → List Symbol
  | [] => [s]
  | u :: us =>
      if u.name.length < s.name.length then s :: u :: us else u :: insertByLength s us

/-- Why a name cannot be defined again. -/
def duplicate (t : SymbolTable) (first : Symbol) : SourceError :=
  { cause := .duplicateSymbol first.name (some { file := t.file, line := first.line }) }

/-- Put a symbol into the table, unless its name is defined already. -/
def insert (t : SymbolTable) (s : Symbol) : Except SourceError SymbolTable :=
  match t.find? s.name with
  | some first => .error (t.duplicate first)
  | none => .ok { t with symbols := insertByLength s t.symbols }

/-! ## Showing -/

/-- One entry to a line, in the order of the table. -/
def dump (t : SymbolTable) : Text := Text.joinWith ['\n'] (t.symbols.map Symbol.text)

/-- A one-line account of the table. -/
def summary (t : SymbolTable) : String :=
  "SymbolTable(" ++ Text.decimalString t.size ++ " symbols)"

/-! ## First facts -/

theorem insert_eq_error_iff {t : SymbolTable} {s : Symbol} :
    (∃ e, t.insert s = .error e) ↔ t.contains s.name = true := by
  simp only [insert, contains]
  split <;> rename_i h <;> simp [h]

theorem mem_insertByLength {s u : Symbol} {us : List Symbol} :
    u ∈ insertByLength s us ↔ u = s ∨ u ∈ us := by
  induction us with
  | nil => simp [insertByLength]
  | cons v vs ih =>
    simp only [insertByLength]
    split
    · simp
    · simp only [List.mem_cons, ih]
      constructor
      · rintro (h | h | h)
        · exact Or.inr (Or.inl h)
        · exact Or.inl h
        · exact Or.inr (Or.inr h)
      · rintro (h | h | h)
        · exact Or.inr (Or.inl h)
        · exact Or.inl h
        · exact Or.inr (Or.inr h)

end SymbolTable

end Cross6502
