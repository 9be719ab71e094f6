import Backend.Halt
import Backend.Ir.Type
import Backend.Source.Type

/-!
Sizes and alignments in bytes. Fields follow each other, each at the next multiple of its own
alignment; an aggregate is aligned as its strictest field and its size is rounded up to that.
-/

namespace Backend

structure Extent where
  size : Nat
  align : Nat
  deriving DecidableEq

def alignTo (offset align : Nat) : Nat :=
  if align ≤ 1 then offset else (offset + align - 1) / align * align

def pointerSize : Nat := 8

namespace Extent

def ofSize (size : Nat) : Extent := ⟨size, size⟩

def intBytes (bits : Nat) : Nat := max ((bits + 7) / 8) 1

section

variable {m : Type → Type} [Monad m] [MonadExceptOf Halt m]

def place (offset : Nat) (e : Extent) : m Nat := do
  let start ← word (alignTo offset e.align)
  word (start + e.size)

/-- The aggregate whose fields end at `offset` and whose strictest alignment is `align`. -/
def closing (offset align : Nat) : m Extent := do
  return ⟨← word (alignTo offset align), align⟩

mutual

/-- The extent of a type; `leaf` knows those of structs and enums. -/
def ofType (leaf : DeclKind → String → m Extent) : IrType → m Extent
  | .void => pure ⟨0, 1⟩
  | .int bits => pure (ofSize (intBytes bits))
  | .float => pure (ofSize 4)
  | .double => pure (ofSize 8)
  | .ptr _ => pure (ofSize pointerSize)
  | .array length elem => do
    let e ← ofType leaf elem
    return ⟨← word (length * e.size), e.align⟩
  | .record fields => do
    let (offset, align) ← pack leaf fields 0 1
    closing offset align
  | .struct name => leaf .struct name
  | .enum name => leaf .enum name
  | .forward name => fail (.unresolvedType name "size of an opaque type")
  | .function .. => fail (.unsupported "size of a bare function type")

/-- Puts fields behind `offset`; the end and the strictest alignment. -/
def pack (leaf : DeclKind → String → m Extent) :
    List IrType → Nat → Nat → m (Nat × Nat)
  | [], offset, align => pure (offset, align)
  | ty :: rest, offset, align => do
    let e ← ofType leaf ty
    pack leaf rest (← place offset e) (max align e.align)

end

/-- The end of fields that are packed without rounding at the end. -/
def packed (leaf : DeclKind → String → m Extent) (fields : List IrType) : m Nat := do
  return (← pack leaf fields 0 1).1

def aggregate (leaf : DeclKind → String → m Extent) (fields : List IrType) : m Extent :=
  ofType leaf (.record fields)

end

end Extent

end Backend
