import Monomorph.Text.Spelling

/-!
Metadata tokens. The high byte selects a table, the low 24 bits a row of it. An instance of a
method reports the token of its definition, so a token never identifies an instance by itself.
-/

namespace Monomorph

structure Token where
  value : UInt32 := 0
  deriving DecidableEq, Inhabited

namespace Token

/-- Table of type definitions. -/
def typeDefTable : UInt8 := 0x02

/-- Table of method definitions. -/
def methodDefTable : UInt8 := 0x06

/-- The bits of a token that hold its row. -/
def rowMask : UInt32 := 0x00ffffff

/-- The token of a row; bits of the row above the 24th are dropped. -/
def ofParts (table : UInt8) (row : UInt32) : Token :=
  ⟨(table.toUInt32 <<< 24) ||| (row &&& rowMask)⟩

def typeDef (row : UInt32) : Token := ofParts typeDefTable row

def methodDef (row : UInt32) : Token := ofParts methodDefTable row

/-- The null token: the token of a method that stands for no definition. -/
def null : Token := ⟨0⟩

def table (t : Token) : UInt8 := (t.value >>> 24).toUInt8

def row (t : Token) : UInt32 := t.value &&& rowMask

def isNull (t : Token) : Bool := t.value == 0

def isMethodDef (t : Token) : Bool := t.table == methodDefTable

/-- Tokens are ordered by table, then by row, which is the order of their values. -/
def le (a b : Token) : Bool := a.value ≤ b.value

/-- Eight hexadecimal digits after `0x`. -/
def text (t : Token) : String := "0x" ++ Text.hexPadded 8 t.value.toNat

/-- The token together with its two parts. -/
def record (t : Token) : String :=
  "Token(" ++ t.text ++ ", table: 0x" ++ Text.hexPadded 2 t.table.toNat ++
    ", row: " ++ toString t.row.toNat ++ ")"

end Token

end Monomorph
