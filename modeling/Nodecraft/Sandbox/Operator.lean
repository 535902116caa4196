import Nodecraft.Sandbox.Property

/-!
Unary and binary operators. Bit operations work on 32 bits.
-/

set_option autoImplicit false

namespace Nodecraft.Sandbox

/-- The low 32 bits of a number's whole part. -/
def low32 (x : Float) : Nat := (Number.truncate x % UInt32.size).toNat

/-- Thirty-two bits as a signed number. -/
def signed32 (n : Nat) : Int :=
  if n % UInt32.size < Nat.pow 2 31 then n % UInt32.size else (n % UInt32.size : Nat) - UInt32.size

namespace Action

def unary (op : Script.UnaryOp) (v : Value) : Action Value := do
  match op with
  | .neg => return .number (-(← number v))
  | .plus => return .number (← number v)
  | .not => return .bool !v.isTruthy
  | .bitNot => return .number (Float.ofInt (-(signed32 (low32 (← number v))) - 1))
  | .typeof => return .string v.typeName
  | .void => return .undefined

/-- Texts are joined, everything else is added as numbers. -/
def add (a b : Value) : Action Value := do
  let h ← heap
  let l := h.primitive a
  let r := h.primitive b
  match l, r with
  | .string _, _ => return .string (h.text l ++ h.text r)
  | _, .string _ => return .string (h.text l ++ h.text r)
  | _, _ => return .number (h.number l + h.number r)

def isMember (a b : Value) : Action Value := do
  let h ← heap
  let key := h.key a
  match b with
  | .object o => return .bool ((h.object o).fields.has key)
  | .array items =>
    return .bool (key == "length" || (arrayIndex? key).any fun i => i < (h.array items).size)
  | other =>
    typeError ("Cannot use 'in' operator to search for '" ++ key ++ "' in " ++ h.text other)

def numeric (f : Float → Float → Float) (a b : Value) : Action Value :=
  return .number (f (← number a) (← number b))

def bitwise (f : Nat → Nat → Int) (a b : Value) : Action Value :=
  return .number (Float.ofInt (f (low32 (← number a)) (low32 (← number b))))

def ordered (accept : Ordering → Bool) (a b : Value) : Action Value :=
  return .bool (((← heap).compare a b).any accept)

def binary (op : Script.BinaryOp) (a b : Value) : Action Value := do
  match op with
  | .add => add a b
  | .sub => numeric (· - ·) a b
  | .mul => numeric (· * ·) a b
  | .div => numeric (· / ·) a b
  | .rem => numeric Number.remainder a b
  | .exp => numeric Float.pow a b
  | .eq => return .bool ((← heap).looseEquals a b)
  | .ne => return .bool !((← heap).looseEquals a b)
  | .strictEq => return .bool (a.strictEquals b)
  | .strictNe => return .bool !(a.strictEquals b)
  | .lt => ordered (· == .lt) a b
  | .le => ordered (· != .gt) a b
  | .gt => ordered (· == .gt) a b
  | .ge => ordered (· != .lt) a b
  | .shl => bitwise (fun m n => signed32 (m * Nat.pow 2 (n % 32))) a b
  | .shr => bitwise (fun m n => signed32 m / Nat.pow 2 (n % 32)) a b
  | .ushr => bitwise (fun m n => m / Nat.pow 2 (n % 32)) a b
  | .bitOr => bitwise (fun m n => signed32 (m ||| n)) a b
  | .bitXor => bitwise (fun m n => signed32 (m ^^^ n)) a b
  | .bitAnd => bitwise (fun m n => signed32 (m &&& n)) a b
  | .isIn => isMember a b

end Action

end Nodecraft.Sandbox
