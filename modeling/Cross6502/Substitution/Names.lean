import Cross6502.Substitution.Buffer
import Cross6502.Substitution.Replacement
import Cross6502.Substitution.Token
import Cross6502.Symbol.Table
import Cross6502.Text.Blank

/-!
# Names into literals

Every token of an instruction that is the name of a symbol is replaced by its
literal.  The symbols are tried in the order of the table, and for each the line is
searched from the operand on; after a replacement the search goes on behind it.  If
a replacement fails, the ones made before it stay in the buffer.

The number of replacements of one symbol is bounded by the length of the line,
since each consumes a character behind the last: that bound is the fuel of the
loop.

What is left after all symbols were tried may still hold names.  `unresolved` lists
them, and `holdPlace` puts a zero where the linker will write.
-/

namespace Cross6502

namespace Names

/-! ## Replacing the symbols of a table -/

/-- A buffer after replacements, the names that were replaced, and why it stopped
early if it did. -/
structure Progress where
  buffer : LineBuffer
  replaced : List Text
  failure : Option Failure
  deriving Inhabited

/-- Replace the token at a position by the literal of a symbol. -/
def replaceAt (mnemonic : Text) (address : Int) (s : Symbol) (i : Nat) (b : LineBuffer) :
    Except Failure (LineBuffer × Nat) := do
  let literal ← Replacement.text mnemonic (Token.before? b.text i) s.address address s.name
  let b ← b.splice i s.name.length literal
  .ok (b, i + literal.length)

/-- Replace every token of one symbol from a position on. -/
def replaceSymbol (mnemonic : Text) (address : Int) (s : Symbol) :
    Nat → Nat → LineBuffer → Progress
  | 0, _, b => ⟨b, [], none⟩
  | fuel + 1, position, b =>
      match Token.find? b.text s.name position with
      | none => ⟨b, [], none⟩
      | some i =>
          match replaceAt mnemonic address s i b with
          | .error e => ⟨b, [], some e⟩
          | .ok (b, next) =>
              let p := replaceSymbol mnemonic address s fuel next b
              { p with replaced := s.name :: p.replaced }

/-- Replace the tokens of each symbol in turn. -/
def replaceSymbols (mnemonic : Text) (address : Int) : List Symbol → LineBuffer → Progress
  | [], b => ⟨b, [], none⟩
  | s :: rest, b =>
      let p := replaceSymbol mnemonic address s (b.text.length + 1) Token.operandStart b
      match p.failure with
      | some _ => p
      | none =>
          let q := replaceSymbols mnemonic address rest p.buffer
          { q with replaced := p.replaced ++ q.replaced }

/-- Replace every token that a table defines, in an instruction at `address`. -/
def resolve (b : LineBuffer) (table : SymbolTable) (address : Int) : Progress :=
  replaceSymbols (b.text.take 3) address table.symbols b

/-! ## Names that are left -/

/-- The first character of a name. -/
def isFirst (c : Char) : Bool := ('a' ≤ c && c ≤ 'z') || c = '_'

/-- A further character of a name. -/
def isFurther (c : Char) : Bool := isFirst c || c.isDigit

/-- A name may begin here, given the character before. -/
def mayBegin : Option Char → Bool
  | none => true
  | some c => Text.isBlank c || c = '(' || c = '#' || c = '*'

/-- A name may end here, given the text that follows. -/
def mayEnd : Text → Bool
  | [] => true
  | c :: _ => Text.isBlank c || c = ',' || c = ')' || c = '+' || c = '-'

/-- The names in a text, given the character before it. -/
def scan : Option Char → Text → List Text
  | _, [] => []
  | before, c :: cs =>
      if mayBegin before && isFirst c && mayEnd (cs.dropWhile isFurther) then
        (c :: cs.takeWhile isFurther) :: scan (some c) cs
      else scan (some c) cs

/-- The names in the operand of a line; the accumulator is none. -/
def unresolved (line : Text) : List Text :=
  let operand := line.drop Token.operandStart
  if Text.trim operand = ['a'] then [] else scan none operand

/-- Put a zero in place of the first token of a name.  The position is given when
there is one. -/
def holdPlace (b : LineBuffer) (name : Text) : Except Failure (LineBuffer × Option Nat) :=
  match Token.find? b.text name Token.operandStart with
  | none => .ok (b, none)
  | some i => do
      let zero := Replacement.placeholder (b.text.take 3) (Token.before? b.text i)
      let b ← b.splice i name.length zero
      .ok (b, some i)

end Names

end Cross6502
