import Nodecraft.Sandbox.Method.Argument

/-!
Methods of arrays. Those that call back go through the items the array had when they started.
-/

set_option autoImplicit false

namespace Nodecraft.Sandbox.Action

def items (a : ArrayId) : Action (List Value) := return ((← heap).array a).toList

def setItems (a : ArrayId) (values : List Value) : Action Unit :=
  modifyHeap fun h => h.modifyArray a fun _ => values.toArray

def sizeOf (a : ArrayId) : Action Value := return .number (Float.ofNat ((← heap).array a).size)

/-! ### Removing and inserting -/

def pop (a : ArrayId) : Action Value := do
  let last := ((← heap).array a).back?
  modifyHeap fun h => h.modifyArray a Array.pop
  return last.getD .undefined

def shift (a : ArrayId) : Action Value := do
  match ← items a with
  | [] => return .undefined
  | first :: rest =>
    setItems a rest
    return first

/-- A count within the items behind `start`. -/
def deleteCount (h : Heap) (count : Option Value) (available : Nat) : Nat :=
  match count with
  | none => available
  | some v => min (Number.clampTo 0 (Nat.pow 2 62) (h.number v)).toNat available

/-- The array is held while the counts are converted, so they must not read it. -/
def splice (a : ArrayId) (args : List Value) : Action Value := do
  let h ← heap
  if (args.take 2).any (h.numberReads a) then throw .overlap
  else
    let values ← items a
    let start := relativeIndex h (argument args 0) values.length 0
    let count := deleteCount h args[1]? (values.length - start)
    setItems a (values.take start ++ args.drop 2 ++ values.drop (start + count))
    newArray ((values.drop start).take count).toArray

def slice (a : ArrayId) (args : List Value) : Action Value := do
  let h ← heap
  let values ← items a
  let start := relativeIndex h (argument args 0) values.length 0
  let stop := relativeIndex h (argument args 1) values.length values.length
  newArray ((values.take stop).drop start).toArray

/-- Arrays among the arguments contribute their items. -/
def concat (a : ArrayId) (args : List Value) : Action Value := do
  let h ← heap
  newArray ((h.array a) ++ (args.flatMap fun
    | .array b => (h.array b).toList
    | other => [other]).toArray)

/-! ### Calling back -/

/-- The results of a callback on each item, with the item's index and the array. -/
def mapCalls (call : Caller) (f self : Value) : Nat → List Value → Action (List Value)
  | _, [] => return []
  | i, v :: rest => do
    let r ← call f .undefined [v, .number (Float.ofNat i), self]
    return r :: (← mapCalls call f self (i + 1) rest)

/-- The first item whose callback gives a value of the wanted truth. -/
def firstCall (call : Caller) (f self : Value) (wanted : Bool) :
    Nat → List Value → Action (Option (Nat × Value))
  | _, [] => return none
  | i, v :: rest => do
    let r ← call f .undefined [v, .number (Float.ofNat i), self]
    if r.isTruthy == wanted then return some (i, v)
    else firstCall call f self wanted (i + 1) rest

def foldCalls (call : Caller) (f self : Value) : Nat → Value → List Value → Action Value
  | _, acc, [] => return acc
  | i, acc, v :: rest => do
    let acc ← call f .undefined [acc, v, .number (Float.ofNat i), self]
    foldCalls call f self (i + 1) acc rest

def reduce (call : Caller) (f self : Value) (start : Option Value) (values : List Value) :
    Action Value :=
  match start, values with
  | some acc, values => foldCalls call f self 0 acc values
  | none, first :: rest => foldCalls call f self 1 first rest
  | none, [] => typeError "Reduce of empty array with no initial value"

/-! ### Sorting -/

/-- Inserts an item behind all that do not come after it; the greatest stand first. -/
def insertItem (order : Value → Value → Action Ordering) (v : Value) :
    List Value → Action (List Value)
  | [] => return [v]
  | w :: rest => do
    match ← order w v with
    | .gt => return w :: (← insertItem order v rest)
    | _ => return v :: w :: rest

def insertAll (order : Value → Value → Action Ordering) :
    List Value → List Value → Action (List Value)
  | sorted, [] => return sorted.reverse
  | sorted, v :: rest => do insertAll order (← insertItem order v sorted) rest

/-- The order of two items by a callback's sign, or by their texts. -/
def itemOrder (call : Caller) (comparator : Option Value) (a b : Value) : Action Ordering := do
  match comparator with
  | some f =>
    let x ← number (← call f .undefined [a, b])
    return if x < 0.0 then .lt else if x > 0.0 then .gt else .eq
  | none =>
    let s ← text a
    let t ← text b
    return if s < t then .lt else if s = t then .eq else .gt

def sort (call : Caller) (a : ArrayId) (args : List Value) : Action Unit := do
  let comparator := args.head?.filter Value.isFunction
  let sorted ← insertAll (itemOrder call comparator) [] (← items a)
  setItems a sorted

def arrayMethod (call : Caller) (m : ArrayMethod) (self : Value) (args : List Value) :
    Action Value := do
  match m with
  | .push =>
    let a ← arrayReceiver self "push"
    modifyHeap fun h => h.modifyArray a fun values => values ++ args.toArray
    sizeOf a
  | .pop => pop (← arrayReceiver self "pop")
  | .shift => shift (← arrayReceiver self "shift")
  | .unshift =>
    let a ← arrayReceiver self "unshift"
    setItems a (args ++ (← items a))
    sizeOf a
  | .splice => splice (← arrayReceiver self "splice") args
  | .slice => slice (← arrayReceiver self "slice") args
  | .concat => concat (← arrayReceiver self "concat") args
  | .reverse =>
    let a ← arrayReceiver self "reverse"
    modifyHeap fun h => h.modifyArray a Array.reverse
    return self
  | .join =>
    let a ← arrayReceiver self "join"
    match argument args 0 with
    | .undefined => return .string ((← heap).join a ",")
    | separator => return .string ((← heap).join a (← text separator))
  | .includes =>
    let a ← arrayReceiver self "includes"
    return .bool ((← items a).any fun v => sameValue v (argument args 0))
  | .indexOf =>
    let a ← arrayReceiver self "indexOf"
    match (← items a).findIdx? fun v => v.strictEquals (argument args 0) with
    | some i => return .number (Float.ofNat i)
    | none => return .number (-1.0)
  | .forEach =>
    let f ← callback args "forEach"
    discard (mapCalls call f self 0 (← items (← arrayReceiver self "forEach")))
    return .undefined
  | .map =>
    let f ← callback args "map"
    newArray (← mapCalls call f self 0 (← items (← arrayReceiver self "map"))).toArray
  | .filter =>
    let f ← callback args "filter"
    let values ← items (← arrayReceiver self "filter")
    let kept ← mapCalls call f self 0 values
    newArray (((values.zip kept).filter fun v => v.2.isTruthy).map Prod.fst).toArray
  | .find =>
    let f ← callback args "find"
    let hit ← firstCall call f self true 0 (← items (← arrayReceiver self "find"))
    return (hit.map Prod.snd).getD .undefined
  | .findIndex =>
    let f ← callback args "findIndex"
    match ← firstCall call f self true 0 (← items (← arrayReceiver self "findIndex")) with
    | some (i, _) => return .number (Float.ofNat i)
    | none => return .number (-1.0)
  | .some =>
    let f ← callback args "some"
    let hit ← firstCall call f self true 0 (← items (← arrayReceiver self "some"))
    return .bool hit.isSome
  | .every =>
    let f ← callback args "every"
    let miss ← firstCall call f self false 0 (← items (← arrayReceiver self "every"))
    return .bool miss.isNone
  | .reduce =>
    let f ← callback args "reduce"
    reduce call f self args[1]? (← items (← arrayReceiver self "reduce"))
  | .sort =>
    sort call (← arrayReceiver self "sort") args
    return self

end Nodecraft.Sandbox.Action
