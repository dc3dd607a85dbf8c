import Cross6502.Disassembly.Line
import Cross6502.Symbol.Addition

/-!
# Derived labels

Before an object is shown, every branch, jump and call whose target begins an
instruction of the object gets a label to go to, unless there is one.  The labels
are named `Label1`, `Label2`, and so on, in the order in which they are needed, and
the count goes on over all segments and all objects shown with one table.
-/

namespace Cross6502

/-- A symbol table and the number of the next derived label. -/
structure Disassembler where
  symbols : SymbolTable := { file := "<disassembly>" }
  nextLabel : Nat := 1
  deriving DecidableEq, Inhabited

namespace Disassembler

/-- All instructions of an object. -/
def sites (o : Object) : List Site := o.segments.flatMap fun s => walk s.start s.data

/-- The name of the label with a number. -/
def labelName (n : Nat) : Text := "Label".toList ++ Text.decimal n

/-- The address a site passes control to, if it does and is complete. -/
def target? (s : Site) : Option Int :=
  if s.opcode ∈ Opcode.transfers && s.isComplete then
    (transferTarget s.opcode.toNat s.operand s.address).toOption
  else none

/-- The target of a site that needs a label: it begins an instruction and has no
label yet. -/
def missingLabel? (d : Disassembler) (starts : List Int) (s : Site) : Option Int :=
  match target? s with
  | some target =>
      if starts.contains target && (d.symbols.labelAt? target).isNone then some target else none
  | none => none

/-- The outcome of deriving labels: the new state, the labels added, the log, and
why it stopped early if it did. -/
structure Derivation where
  disassembler : Disassembler
  added : List Symbol
  log : List Event
  failure : Option Failure
  deriving Inhabited

/-- Derive labels for sites in order. -/
def deriveFrom (starts : List Int) (d : Disassembler) : List Site → Derivation
  | [] => ⟨d, [], [], none⟩
  | s :: rest =>
      match d.missingLabel? starts s with
      | none => deriveFrom starts d rest
      | some target =>
          let label := Symbol.ofLabel (labelName d.nextLabel) target 0
          let d := { d with nextLabel := d.nextLabel + 1 }
          let a := d.symbols.add label
          match a.failure with
          | some e => ⟨{ d with symbols := a.table }, [], a.log, some e⟩
          | none =>
              let r := deriveFrom starts { d with symbols := a.table } rest
              { r with
                added := label :: r.added
                log := a.log ++ .synthesized label.name target :: r.log }

/-- Derive the labels an object needs. -/
def derive (d : Disassembler) (o : Object) : Derivation :=
  deriveFrom ((sites o).map Site.address) d (sites o)

/-! ## Showing an object -/

/-- The lines of one instruction: its label, if it has one, and itself. -/
def instructionLines (annotate : Bool) (i : Disassembled) : List Text :=
  let code := if annotate then i.annotated else '\t' :: i.text
  match i.label.filter fun name => !name.isEmpty with
  | some name =>
      let label := name ++ [':']
      [if annotate then Disassembled.annotate i.address [] label else label, code]
  | none => [code]

/-- The lines of an object whose labels have been derived. -/
def objectLines (t : SymbolTable) (o : Object) (annotate : Bool) : List Text :=
  o.segments.flatMap fun s =>
    (disassemble t s.start s.data none).flatMap (instructionLines annotate)

/-- Derive the labels of an object and show it. -/
def lines (d : Disassembler) (o : Object) (annotate : Bool) :
    Derivation × Except Failure (List Text) :=
  let r := d.derive o
  (r, match r.failure with
    | some e => .error e
    | none => .ok (objectLines r.disassembler.symbols o annotate))

/-- Lines as one text. -/
def joinLines (lines : List Text) : Text := Text.joinWith ['\n'] lines ++ ['\n']

/-- Derive the labels of an object and show it as one text. -/
def text (d : Disassembler) (o : Object) (annotate : Bool) : Derivation × Except Failure Text :=
  let (r, result) := d.lines o annotate
  (r, result.map joinLines)

/-- Give an address a name.  An address that has one keeps its place in the list. -/
def nameAddress (labels : List (Int × Text)) (label : Int × Text) : List (Int × Text) :=
  if labels.any fun l => l.1 == label.1 then
    labels.map fun l => if l.1 == label.1 then label else l
  else labels ++ [label]

/-- Add labels by address, of several for one address the last.  The first that is
refused ends it. -/
def addLabels (d : Disassembler) (labels : List (Int × Text)) :
    Disassembler × Option Failure :=
  let a := d.symbols.merge
    ((labels.foldl nameAddress []).map fun (address, name) => .ofLabel name address 0)
  ({ d with symbols := a.table }, a.failure)

end Disassembler

end Cross6502
