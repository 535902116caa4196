import Nodecraft.Sandbox.Scope

/-!
Reading, writing and listing the properties of values. Component state is read and written
through the cells it holds; frozen objects are never written.
-/

set_option autoImplicit false

namespace Nodecraft.Sandbox

/-- How functions are called: the function, what it is called on, and the arguments. -/
abbrev Caller := Value → Value → List Value → Action Value

/-- Greatest length an array reaches by writing to it. -/
def maxArrayLength : Nat := Nat.pow 2 24

/-- The index a key stands for: digits without leading zeros. -/
def arrayIndex? (key : String) : Option Nat :=
  let cs := key.toList
  if cs.isEmpty || (1 < cs.length && cs.head? == some '0') || !cs.all Char.isDigit then none
  else
    let n := Number.digitsValue 10 cs
    if n < UInt64.size then some n else none

def textMethod? (name : String) : Option Native :=
  (TextMethod.all.find? fun m => m.name == name).map .text

def numberMethod? (name : String) : Option Native :=
  (NumberMethod.all.find? fun m => m.name == name).map .number

def arrayMethod? (name : String) : Option Native :=
  (ArrayMethod.all.find? fun m => m.name == name).map .array

def functionMethod? (name : String) : Option Native :=
  (FunctionMethod.all.find? fun m => m.name == name).map .function

def objectMethod? (name : String) : Option Native :=
  if name == "hasOwnProperty" then some .hasOwnProperty else none

/-- The keys of an object, or the indices of an array or a text. -/
def Heap.enumerableKeys (h : Heap) : Value → List String
  | .object o => (h.object o).fields.keys
  | .array a => (List.range (h.array a).size).map toString
  | .string s => (List.range s.length).map toString
  | _ => []

namespace Action

/-- A method as a value; each reading makes a new one. -/
def methodValue : Option Native → Action Value
  | some n => newNative n
  | none => return .undefined

/-- A field of an object that is no cell and no state. -/
def readField (o : ObjectId) (key : String) : Action Value := do
  match (← heap).own? o key with
  | some v => return v
  | none => methodValue (objectMethod? key)

/-- A key of an object that is not component state. -/
def readPlain (call : Caller) (o : ObjectId) (key : String) : Action Value := do
  match ((← heap).object o).kind with
  | .computed getter _ => if key == "value" then call getter .undefined [] else readField o key
  | _ => readField o key

def readObject (call : Caller) (o : ObjectId) (key : String) : Action Value := do
  let h ← heap
  match (h.object o).kind with
  | .state =>
    match h.own? o key with
    | some (.object inner) =>
      if (h.object inner).kind.isCell then readPlain call inner "value" else return .object inner
    | some v => return v
    | none => methodValue (objectMethod? key)
  | _ => readPlain call o key

def getProperty (call : Caller) (target : Value) (key : String) : Action Value := do
  match target with
  | .undefined => missing "undefined"
  | .null => missing "null"
  | .bool _ => return .undefined
  | .number _ => methodValue (numberMethod? key)
  | .string s =>
    if key == "length" then return .number (Float.ofNat s.length)
    else match arrayIndex? key with
      | some i => return (s.toList[i]?.map fun c => Value.string c.toString).getD .undefined
      | none => methodValue (textMethod? key)
  | .array a =>
    if key == "length" then return .number (Float.ofNat ((← heap).array a).size)
    else match arrayIndex? key with
      | some i => return ((← heap).array a).getD i .undefined
      | none => methodValue (arrayMethod? key)
  | .function f =>
    if key == "name" then return .string ((← heap).functionName f)
    else methodValue (functionMethod? key)
  | .object o => readObject call o key
where
  missing (what : String) : Action Value :=
    typeError ("Cannot read properties of " ++ what ++ " (reading '" ++ key ++ "')")

/-- An array cut or filled up to a length. -/
def resized (items : Array Value) (length : Nat) : Array Value :=
  if length ≤ items.size then items.extract 0 length
  else items ++ Array.replicate (length - items.size) .undefined

def setArrayLength (a : ArrayId) (value : Value) : Action Unit := do
  let x ← number value
  if x < 0.0 || !Number.isIntegral x || Number.truncate x > maxArrayLength then
    typeError "Invalid array length"
  else modifyHeap fun h => h.modifyArray a fun items => resized items (Number.truncate x).toNat

def setArrayItem (a : ArrayId) (key : String) (value : Value) : Action Unit := do
  match arrayIndex? key with
  | some i =>
    if i < maxArrayLength then
      modifyHeap fun h => h.modifyArray a fun items =>
        (if i < items.size then items else resized items (i + 1)).setIfInBounds i value
    else refuse
  | none => refuse
where
  refuse : Action Unit := typeError ("Cannot set property '" ++ key ++ "' on an array")

/-- Writes a key of an object that is not component state. -/
def writePlain (call : Caller) (o : ObjectId) (key : String) (value : Value) : Action Unit := do
  let object := (← heap).object o
  if object.frozen then frozenError
  else match object.kind with
    | .computed _ setter =>
      if key == "value" then
        match setter with
        | some f => discard (call f .undefined [value])
        | none => return
      else modifyHeap fun h => h.insertField o key value
    | _ => modifyHeap fun h => h.insertField o key value
where
  frozenError : Action Unit :=
    typeError ("Cannot assign to read only property '" ++ key ++ "' of object")

def writeObject (call : Caller) (o : ObjectId) (key : String) (value : Value) : Action Unit := do
  let h ← heap
  let object := h.object o
  match object.kind with
  | .state =>
    if object.frozen then writePlain.frozenError key
    else match object.fields.get? key with
      | some (.object inner) =>
        if (h.object inner).kind.isCell then writePlain call inner "value" value
        else modifyHeap fun h => h.insertField o key value
      | _ => modifyHeap fun h => h.insertField o key value
  | _ => writePlain call o key value

def setProperty (call : Caller) (target : Value) (key : String) (value : Value) :
    Action Unit := do
  match target with
  | .array a => if key == "length" then setArrayLength a value else setArrayItem a key value
  | .object o => writeObject call o key value
  | other =>
    typeError ("Cannot set properties of " ++ (← text other) ++ " (setting '" ++ key ++ "')")

/-- Removes a field; an array's element is only emptied. -/
def deleteProperty (target : Value) (key : String) : Action Unit := do
  match target with
  | .object o =>
    if ((← heap).object o).frozen then
      typeError ("Cannot delete property '" ++ key ++ "' of a frozen object")
    else modifyHeap fun h => h.eraseField o key
  | .array a =>
    match arrayIndex? key with
    | some i => modifyHeap fun h => h.modifyArray a fun items => items.setIfInBounds i .undefined
    | none => return
  | _ => return

/-- The items a loop or a spread goes through. -/
def iterate (v : Value) : Action (List Value) := do
  match v with
  | .array a => return ((← heap).array a).toList
  | .string s => return s.toList.map fun c => .string c.toString
  | other => typeError (other.typeName ++ " is not iterable")

/-- The value of a name, if it has one. -/
def lookup (call : Caller) (name : String) (s : ScopeId) : Action (Option Value) := do
  match (← heap).resolve name s with
  | some (.binding _ b) => return some b.value
  | some (.field target) => return some (← getProperty call target name)
  | none => return none

def read (call : Caller) (name : String) (s : ScopeId) : Action Value := do
  match ← lookup call name s with
  | some v => return v
  | none => raise (.unbound name)

def assign (call : Caller) (name : String) (value : Value) (s : ScopeId) : Action Unit := do
  match (← heap).resolve name s with
  | some (.binding scope b) =>
    if b.mutable then declare scope name value true
    else typeError "Assignment to constant variable."
  | some (.field target) => setProperty call target name value
  | none => raise (.unbound name)

end Action

end Nodecraft.Sandbox
