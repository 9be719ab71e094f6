/-! Target types and their text. Equality of target types is decidable. -/

namespace Backend

inductive IrType where
  | void
  | int (bits : Nat)
  | float
  | double
  | ptr (inner : IrType)
  | array (length : Nat) (elem : IrType)
  | struct (name : String)
  | enum (name : String)
  /-- A type parameter inside the body of its own template, declared without a definition. -/
  | forward (name : String)
  /-- An aggregate without a name. -/
  | record (fields : List IrType)
  /-- Code, not a pointer to it. -/
  | function (ret : IrType) (params : List IrType) (variadic : Bool)

namespace IrType

def i1 : IrType := .int 1
def i8 : IrType := .int 8
def i32 : IrType := .int 32
def i64 : IrType := .int 64

def bytePtr : IrType := .ptr i8

/-- Pointer to code that takes the environment of a closure before its parameters. -/
def codePointer (ret : IrType) (params : List IrType) (variadic : Bool) : IrType :=
  .ptr (.function ret (bytePtr :: params) variadic)

def closure (ret : IrType) (params : List IrType) (variadic : Bool) : IrType :=
  .record [codePointer ret params variadic, bytePtr]

def isVoid : IrType → Bool
  | .void => true
  | _ => false

def isPointer : IrType → Bool
  | .ptr _ => true
  | _ => false

def isInt : IrType → Bool
  | .int _ => true
  | _ => false

def isFloat : IrType → Bool
  | .float | .double => true
  | _ => false

def isNumber (t : IrType) : Bool := t.isInt || t.isFloat

def isAggregate : IrType → Bool
  | .struct _ | .enum _ | .forward _ | .record _ | .array _ _ => true
  | _ => false

def pointee? : IrType → Option IrType
  | .ptr inner => some inner
  | _ => none

def intBits? : IrType → Option Nat
  | .int bits => some bits
  | _ => none

def ptrs (t : IrType) : Nat → IrType
  | 0 => t
  | n + 1 => .ptr (t.ptrs n)

def arrays (t : IrType) : List Nat → IrType
  | [] => t
  | d :: ds => .array d (t.arrays ds)

/-! ### Text -/

mutual

def display : IrType → String
  | .void => "void"
  | .int bits => s!"i{bits}"
  | .float => "float"
  | .double => "double"
  | .ptr inner => inner.display ++ "*"
  | .array length elem => s!"[{length} x " ++ elem.display ++ "]"
  | .struct name | .forward name => "%struct." ++ name
  | .enum name => "%enum." ++ name
  | .record [] => "\x7b\x7d"
  | .record (f :: fs) => "\x7b " ++ ", ".intercalate (f.display :: displayAll fs) ++ " \x7d"
  | .function ret params variadic =>
    let dots := if variadic then (if params.isEmpty then "..." else ", ...") else ""
    ret.display ++ " (" ++ ", ".intercalate (displayAll params) ++ dots ++ ")"

def displayAll : List IrType → List String
  | [] => []
  | t :: ts => t.display :: displayAll ts

end

/-! ### Equality -/

mutual

def same : IrType → IrType → Bool
  | .void, .void | .float, .float | .double, .double => true
  | .int a, .int b => a = b
  | .ptr a, .ptr b => same a b
  | .array m a, .array n b => m = n && same a b
  | .struct a, .struct b | .enum a, .enum b | .forward a, .forward b => a = b
  | .record as, .record bs => sameAll as bs
  | .function a as v, .function b bs w => same a b && sameAll as bs && v == w
  | _, _ => false

def sameAll : List IrType → List IrType → Bool
  | [], [] => true
  | a :: as, b :: bs => same a b && sameAll as bs
  | _, _ => false

end

mutual

theorem eq_of_same : (a b : IrType) → same a b = true → a = b
  | .void, b, h | .float, b, h | .double, b, h => by cases b <;> simp_all [same]
  | .int _, b, h | .struct _, b, h | .enum _, b, h | .forward _, b, h => by
    cases b <;> simp_all [same]
  | .ptr a, b, h => by
    cases b <;> simp only [same, Bool.false_eq_true] at h
    exact congrArg _ (eq_of_same a _ h)
  | .array m a, b, h => by
    cases b <;> simp only [same, Bool.false_eq_true, Bool.and_eq_true, decide_eq_true_eq] at h
    rw [h.1, eq_of_same a _ h.2]
  | .record as, b, h => by
    cases b <;> simp only [same, Bool.false_eq_true] at h
    exact congrArg _ (eq_of_sameAll as _ h)
  | .function a as v, b, h => by
    cases b <;> simp only [same, Bool.false_eq_true, Bool.and_eq_true, beq_iff_eq] at h
    rw [eq_of_same a _ h.1.1, eq_of_sameAll as _ h.1.2, h.2]

theorem eq_of_sameAll : (as bs : List IrType) → sameAll as bs = true → as = bs
  | [], bs, h => by cases bs <;> simp_all [sameAll]
  | a :: as, bs, h => by
    cases bs <;> simp only [sameAll, Bool.false_eq_true, Bool.and_eq_true] at h
    rw [eq_of_same a _ h.1, eq_of_sameAll as _ h.2]

end

mutual

theorem same_self : (a : IrType) → same a a = true
  | .void | .float | .double => rfl
  | .int _ | .struct _ | .enum _ | .forward _ => by simp [same]
  | .ptr a => by simp [same, same_self a]
  | .array _ a => by simp [same, same_self a]
  | .record as => by simp [same, sameAll_self as]
  | .function a as _ => by simp [same, same_self a, sameAll_self as]

theorem sameAll_self : (as : List IrType) → sameAll as as = true
  | [] => rfl
  | a :: as => by simp [sameAll, same_self a, sameAll_self as]

end

instance : DecidableEq IrType := fun a b =>
  if h : same a b = true then isTrue (eq_of_same a b h)
  else isFalse fun e => h (e ▸ same_self a)

end IrType

end Backend
