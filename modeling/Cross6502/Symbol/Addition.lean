import Cross6502.Log

/-!
# Adding to a symbol table

Adding a symbol puts it into the table and then tells so.  The sentence cites the line of the
definition, and a number with too many digits is not written.  Then the addition fails, and
the symbol is in the table all the same.  So an addition gives the table back however it ends.

A name that is defined already is refused before the table is changed.  The refusal cites the
first definition, and whether that can be written depends on the line there.
-/

namespace Cross6502

/-- A table after symbols were added to it, what was told, and why it ended early if it did. -/
structure Addition where
  table : SymbolTable
  log : List Event := []
  failure : Option Failure := none
  deriving DecidableEq, Inhabited

/-- The table of an addition that went through. -/
def Addition.logged (a : Addition) : Logged SymbolTable :=
  ⟨a.log, match a.failure with
    | some e => .error e
    | none => .ok a.table⟩

namespace SymbolTable

/-- Add a symbol, unless its name is defined already. -/
def add (t : SymbolTable) (s : Symbol) : Addition :=
  match t.insert s with
  | .error e => { table := t, failure := some (Failure.source e).worded }
  | .ok t' =>
      if (Event.added s).canBeTold then { table := t', log := [.added s] }
      else { table := t', failure := some (.value .tooLongToWrite) }

/-- Add symbols in order up to the first that fails. -/
def merge (t : SymbolTable) : List Symbol → Addition
  | [] => { table := t }
  | s :: rest =>
      let a := t.add s
      match a.failure with
      | some _ => a
      | none =>
          let more := merge a.table rest
          { more with log := a.log ++ more.log }

end SymbolTable

end Cross6502
