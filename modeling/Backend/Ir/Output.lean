import Backend.Ir.Module
import Backend.Table

/-! An IR module as it grows, and its text. Every part keeps order of arrival. -/

namespace Backend

structure Output where
  /-- Types declared without a definition. -/
  forwards : List String := []
  typeDefs : List TypeDef := []
  /-- String constants; the place in the list is the number in the name. -/
  strings : List String := []
  dispatchTables : List DispatchTable := []
  declarations : Table Declaration := {}
  functions : List FunctionDef := []

namespace Output

def addForward (o : Output) (name : String) : Output :=
  if name ∈ o.forwards then o else { o with forwards := o.forwards ++ [name] }

def addTypeDef (o : Output) (d : TypeDef) : Output := { o with typeDefs := o.typeDefs ++ [d] }

def addDispatchTable (o : Output) (t : DispatchTable) : Output :=
  { o with dispatchTables := o.dispatchTables ++ [t] }

def addFunction (o : Output) (f : FunctionDef) : Output :=
  { o with functions := o.functions ++ [f] }

def declare (o : Output) (d : Declaration) : Output :=
  { o with declarations := o.declarations.insertNew d.name d }

def intern (o : Output) (s : String) : Nat × Output :=
  match o.strings.idxOf? s with
  | some i => (i, o)
  | none => (o.strings.length, { o with strings := o.strings ++ [s] })

end Output

def sectionText (lines : List String) : String :=
  if lines.isEmpty then "" else "\n" ++ String.join (lines.map (· ++ "\n"))

/-- The text of a module. A forward declaration is dropped once the struct is laid out. -/
def Output.text (o : Output) (moduleName : String) (targetTriple : Option String)
    (laidOut : String → Bool) (metadata : List String) : String :=
  let triple := match targetTriple with
    | some t => "target triple = \"" ++ t ++ "\"\n"
    | none => ""
  let forwards := o.forwards.filter (fun name => !laidOut name)
  "; ModuleID = '" ++ moduleName ++ "'\nsource_filename = \"" ++ moduleName ++ "\"\n" ++ triple ++
    sectionText (forwards.map fun name => "%struct." ++ name ++ " = type opaque") ++
    sectionText (o.typeDefs.map TypeDef.text) ++
    sectionText (o.strings.zipIdx.map fun (s, i) => stringConstantText i s) ++
    sectionText (o.dispatchTables.map DispatchTable.text) ++
    sectionText (o.declarations.values.map Declaration.text) ++
    String.join (o.functions.map fun f => "\n" ++ f.text) ++
    sectionText metadata

end Backend
