import Nodecraft.Json.Writer
import Nodecraft.Number.Reading
import Nodecraft.Sandbox.Value

/-!
Values as text, numbers and JSON documents. The descent into arrays and objects stops at a cell
that is already open on the way from the root, and below `maxValueDepth` open cells.
-/

set_option autoImplicit false

namespace Nodecraft.Sandbox

/-- Nesting at which a value is treated as if it were cyclic. -/
def maxValueDepth : Nat := 512

/-- An array or object that is being written out. -/
inductive OpenCell
  | array (a : ArrayId)
  | object (o : ObjectId)
  deriving DecidableEq, Repr

/-! ### Names of functions -/

def TextMethod.name : TextMethod → String
  | .toUpperCase => "toUpperCase"
  | .toLowerCase => "toLowerCase"
  | .trim => "trim"
  | .trimStart => "trimStart"
  | .trimEnd => "trimEnd"
  | .toString => "toString"
  | .valueOf => "valueOf"
  | .includes => "includes"
  | .startsWith => "startsWith"
  | .endsWith => "endsWith"
  | .indexOf => "indexOf"
  | .charAt => "charAt"
  | .slice => "slice"
  | .split => "split"
  | .replace => "replace"
  | .replaceAll => "replaceAll"
  | .padStart => "padStart"
  | .padEnd => "padEnd"
  | .repeat => "repeat"

def TextMethod.all : List TextMethod :=
  [.toUpperCase, .toLowerCase, .trim, .trimStart, .trimEnd, .toString, .valueOf, .includes,
    .startsWith, .endsWith, .indexOf, .charAt, .slice, .split, .replace, .replaceAll, .padStart,
    .padEnd, .repeat]

def NumberMethod.name : NumberMethod → String
  | .toFixed => "toFixed"
  | .toString => "toString"
  | .valueOf => "valueOf"

def NumberMethod.all : List NumberMethod := [.toFixed, .toString, .valueOf]

def ArrayMethod.name : ArrayMethod → String
  | .push => "push"
  | .pop => "pop"
  | .shift => "shift"
  | .unshift => "unshift"
  | .splice => "splice"
  | .slice => "slice"
  | .concat => "concat"
  | .reverse => "reverse"
  | .join => "join"
  | .includes => "includes"
  | .indexOf => "indexOf"
  | .forEach => "forEach"
  | .map => "map"
  | .filter => "filter"
  | .find => "find"
  | .findIndex => "findIndex"
  | .some => "some"
  | .every => "every"
  | .reduce => "reduce"
  | .sort => "sort"

def ArrayMethod.all : List ArrayMethod :=
  [.push, .pop, .shift, .unshift, .splice, .slice, .concat, .reverse, .join, .includes, .indexOf,
    .forEach, .map, .filter, .find, .findIndex, .some, .every, .reduce, .sort]

def FunctionMethod.name : FunctionMethod → String
  | .call => "call"
  | .apply => "apply"
  | .bind => "bind"

def FunctionMethod.all : List FunctionMethod := [.call, .apply, .bind]

/-- The key of the hook in component options. -/
def LifecycleHook.optionKey : LifecycleHook → String
  | .beforeCreate => "beforeCreate"
  | .created => "created"
  | .beforeMount => "beforeMount"
  | .mounted => "mounted"
  | .beforeUnmount => "beforeUnmount"
  | .unmounted => "unmounted"

def LifecycleHook.all : List LifecycleHook :=
  [.beforeCreate, .created, .beforeMount, .mounted, .beforeUnmount, .unmounted]

/-- The capability that registers the hook during setup. -/
def LifecycleHook.registrar : LifecycleHook → Option String
  | .beforeMount => some "onBeforeMount"
  | .mounted => some "onMounted"
  | .beforeUnmount => some "onBeforeUnmount"
  | .unmounted => some "onUnmounted"
  | .beforeCreate => none
  | .created => none

def Capability.name : Capability → String
  | .ref => "ref"
  | .reactive => "reactive"
  | .computed => "computed"
  | .watch => "watch"
  | .watchEffect => "watchEffect"
  | .defineComponent => "defineComponent"
  | .nextTick => "nextTick"
  | .defineProps => "defineProps"
  | .unref => "unref"
  | .isRef => "isRef"
  | .register hook => hook.registrar.getD hook.optionKey

def Native.name : Native → String
  | .text m => m.name
  | .number m => m.name
  | .array m => m.name
  | .hasOwnProperty => "hasOwnProperty"
  | .function m => m.name
  | .capability c => c.name
  | .stop _ => "stop"
  | .nodeData _ => "getNodeData"
  | .emit => "emit"
  | .path _ _ => "watchPath"

/-- The name of a function, following bound ones to their target. -/
def Heap.functionNameWithin (h : Heap) : Nat → FunctionId → String
  | 0, _ => ""
  | fuel + 1, f =>
    match h.function f with
    | .closure code _ => code.name.getD ""
    | .native n => n.name
    | .bound target _ => h.functionNameWithin fuel target

/-- A target is older than the function bound to it, so the chain is shorter than the heap. -/
def Heap.functionName (h : Heap) (f : FunctionId) : String := h.functionNameWithin (f.index + 1) f

/-! ### Text -/

/-- A value as text, with `room` more cells to open below the open ones. Refs show their payload,
and so do arrays their elements between commas. -/
def Heap.textWithin (h : Heap) : Nat → List OpenCell → Value → String
  | _, _, .undefined => "undefined"
  | _, _, .null => "null"
  | _, _, .bool b => if b then "true" else "false"
  | _, _, .number x => Number.scriptText x
  | _, _, .string s => s
  | _, _, .function f => "function " ++ h.functionName f ++ "() \x7b [native code] \x7d"
  | 0, _, .array _ => ""
  | room + 1, opened, .array a =>
    if opened.contains (.array a) then ""
    else ",".intercalate ((h.array a).toList.map fun v =>
      if v.isNullish then "" else h.textWithin room (.array a :: opened) v)
  | room, opened, .object o =>
    match (h.object o).kind with
    | .ref =>
      match room with
      | 0 => ""
      | room + 1 =>
        if opened.contains (.object o) then ""
        else h.textWithin room (.object o :: opened) ((h.own? o "value").getD .undefined)
    | _ => "[object Object]"

def Heap.text (h : Heap) (v : Value) : String := h.textWithin maxValueDepth [] v

/-- The elements of an array between separators; missing ones are empty. -/
def Heap.join (h : Heap) (a : ArrayId) (separator : String) : String :=
  separator.intercalate ((h.array a).toList.map fun v =>
    if v.isNullish then "" else h.textWithin (maxValueDepth - 1) [.array a] v)

/-- Whether writing a value as text reads an array. -/
def Heap.textReads (h : Heap) (target : ArrayId) : Nat → List OpenCell → Value → Bool
  | 0, _, _ => false
  | room + 1, opened, .array a =>
    if opened.contains (.array a) then false
    else a == target || (h.array a).toList.any fun v =>
      h.textReads target room (.array a :: opened) v
  | room + 1, opened, .object o =>
    match (h.object o).kind with
    | .ref =>
      if opened.contains (.object o) then false
      else h.textReads target room (.object o :: opened) ((h.own? o "value").getD .undefined)
    | _ => false
  | _ + 1, _, _ => false

/-! ### Numbers -/

def Heap.number (h : Heap) : Value → Float
  | .undefined => Number.nan
  | .null => 0.0
  | .bool b => if b then 1.0 else 0.0
  | .number x => x
  | .string s => Number.ofText s
  | .array a => Number.ofText (h.text (.array a))
  | .object _ => Number.nan
  | .function _ => Number.nan

/-- Whether reading a value as a number reads an array. -/
def Heap.numberReads (h : Heap) (target : ArrayId) : Value → Bool
  | .array a => h.textReads target maxValueDepth [] (.array a)
  | _ => false

/-! ### Documents -/

/-- A number of a document: whole if it is so exactly, and null if it is not finite. -/
def numberDocument (x : Float) : Json :=
  match Number.decode? x with
  | none => .null
  | some v =>
    if v.isIntegral ∧ v.wholePart < Nat.pow 2 53 then .number (.whole v.truncate)
    else .number (.real x)

/-- Whether an object's document leaves out a field with this value. -/
def Heap.leftOut (h : Heap) : Value → Bool
  | .undefined => true
  | .function _ => true
  | .object o => (h.object o).kind.isComputed
  | _ => false

/-- A value as a document. Refs show their payload; functions and missing values are null. -/
def Heap.documentWithin (h : Heap) : Nat → List OpenCell → Value → Json
  | _, _, .undefined => .null
  | _, _, .null => .null
  | _, _, .function _ => .null
  | _, _, .bool b => .bool b
  | _, _, .number x => numberDocument x
  | _, _, .string s => .string s
  | 0, _, .array _ => .null
  | room + 1, opened, .array a =>
    if opened.contains (.array a) then .null
    else .array ((h.array a).toList.map (h.documentWithin room (.array a :: opened)))
  | 0, _, .object _ => .null
  | room + 1, opened, .object o =>
    if opened.contains (.object o) then .null
    else
      let object := h.object o
      match object.kind with
      | .ref => h.documentWithin room (.object o :: opened) ((h.own? o "value").getD .undefined)
      | _ =>
        .object (Json.sortFields ((object.fields.filter fun f => !h.leftOut f.2).map fun (k, v) =>
          (k, h.documentWithin room (.object o :: opened) v)))

def Heap.document (h : Heap) (v : Value) : Json := h.documentWithin maxValueDepth [] v

/-- A value as reports show it: arrays and objects as their document, refs marked, computed cells without
their payload and functions by name. Texts are quoted there, which is left out here. -/
def Heap.debugText? (h : Heap) (v : Value) : Option String :=
  match v with
  | .string _ => none
  | .array _ => some (h.document v).compress
  | .object o =>
    match (h.object o).kind with
    | .ref => some ("Ref(" ++ (h.document v).compress ++ ")")
    | .computed _ _ => some "Computed"
    | _ => some (h.document v).compress
  | .function f => some ("[Function " ++ h.functionName f ++ "]")
  | v => some (h.text v)

/-! ### What an interpolation shows -/

/-- Follows cells to their payload; none if the chain is too long. -/
def Heap.payload? (h : Heap) : Nat → Value → Option Value
  | 0, _ => none
  | fuel + 1, v =>
    match v with
    | .object o => if (h.object o).kind.isCell
        then h.payload? fuel ((h.own? o "value").getD .undefined)
        else some v
    | _ => some v

/-- Missing values show nothing, arrays and objects an indented document. -/
def Heap.display (h : Heap) (v : Value) : String :=
  match h.payload? maxValueDepth v with
  | none => ""
  | some v =>
    if v.isNullish then ""
    else match v with
      | .array _ => (h.document v).pretty
      | .object _ => (h.document v).pretty
      | v => h.text v

/-! ### Loose equality and order -/

/-- Arrays, objects and functions become text; the rest stays. -/
def Heap.primitive (h : Heap) (v : Value) : Value :=
  match v with
  | .array _ => .string (h.text v)
  | .object _ => .string (h.text v)
  | .function _ => .string (h.text v)
  | v => v

def Heap.looseEquals (h : Heap) (a b : Value) : Bool :=
  if a.isNullish || b.isNullish then a.isNullish && b.isNullish
  else match a, b with
    | .bool _, .array _ => false
    | .bool _, .object _ => false
    | .bool _, .function _ => false
    | .array _, .bool _ => false
    | .object _, .bool _ => false
    | .function _, .bool _ => false
    | .bool _, _ => h.number a == h.number b
    | _, .bool _ => h.number a == h.number b
    | .number _, .string _ => h.number a == h.number b
    | .string _, .number _ => h.number a == h.number b
    | .array _, .string s => h.text a == s
    | .object _, .string s => h.text a == s
    | .string s, .array _ => h.text b == s
    | .string s, .object _ => h.text b == s
    | a, b => a.strictEquals b

/-- The order of two values; none if one of them is no number. -/
def Heap.compare (h : Heap) (a b : Value) : Option Ordering :=
  match h.primitive a, h.primitive b with
  | .string s, .string t => some (if s < t then .lt else if s = t then .eq else .gt)
  | a, b =>
    let x := h.number a
    let y := h.number b
    if x < y then some .lt else if x == y then some .eq else if y < x then some .gt else none

/-- The key a value stands for between brackets. -/
def Heap.key (h : Heap) : Value → String
  | .string s => s
  | .number x => Number.scriptText x
  | v => h.text v

/-! ### Values from documents -/

mutual

/-- A fresh value with a document's content. -/
def Heap.ofDocument (h : Heap) : Json → Value × Heap
  | .null => (.null, h)
  | .bool b => (.bool b, h)
  | .number n => (.number n.toFloat, h)
  | .string s => (.string s, h)
  | .array items =>
    let (values, h) := h.ofItems items
    let (a, h) := h.newArray values.toArray
    (.array a, h)
  | .object fields =>
    let (fields, h) := h.ofFields fields
    let (o, h) := h.newObject ⟨.plain, fields, false⟩
    (.object o, h)

def Heap.ofItems (h : Heap) : List Json → List Value × Heap
  | [] => ([], h)
  | j :: rest =>
    let (v, h) := h.ofDocument j
    let (vs, h) := h.ofItems rest
    (v :: vs, h)

def Heap.ofFields (h : Heap) : List (String × Json) → Fields Value × Heap
  | [] => ([], h)
  | (k, j) :: rest =>
    let (v, h) := h.ofDocument j
    let (fs, h) := h.ofFields rest
    ((k, v) :: fs, h)

end

/-- A fresh plain object with the fields of a node's data. -/
def Heap.ofData (h : Heap) (data : NodeData) : Value × Heap := h.ofDocument (.object data)

end Nodecraft.Sandbox
