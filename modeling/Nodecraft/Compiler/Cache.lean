import Nodecraft.Digest.Sha256
import Nodecraft.Template.Compile

/-!
Templates kept for markup that comes again. The one that has not been asked for the longest makes
room for a new one, and markup that does not compile leaves everything as it is.
-/

set_option autoImplicit false

namespace Nodecraft.Compiler

structure Cache where
  /-- By the digest of their markup, the latest last. -/
  entries : List (String × Template)
  capacity : Nat
  deriving Inhabited

namespace Cache

def empty (capacity : Nat) : Cache := ⟨[], capacity⟩

def key (markup : String) : String := Digest.sha256 markup

/-- Looks a template up without any effect on how long it is kept. -/
def get? (c : Cache) (markup : String) : Option Template := c.entries.lookup (key markup)

/-- Moves an entry behind all others. -/
def refresh (c : Cache) (key : String) (t : Template) : Cache :=
  { c with entries := c.entries.filter (fun e => e.1 != key) ++ [(key, t)] }

/-- Adds an entry, if there is room for any; the first ones make room. -/
def add (c : Cache) (key : String) (t : Template) : Cache :=
  if c.capacity = 0 then c
  else { c with entries := c.entries.drop (c.entries.length + 1 - c.capacity) ++ [(key, t)] }

/-- What some way of compiling makes of markup, kept or new, and the cache from then on. -/
def compileBy (c : Cache) (compile : String → Except Template.Fault Template) (markup : String) :
    Except Template.Fault Template × Cache :=
  match c.get? markup with
  | some t => (.ok t, c.refresh (key markup) t)
  | none =>
    match compile markup with
    | .ok t => (.ok t, c.add (key markup) t)
    | .error fault => (.error fault, c)

/-- The template of some markup, kept or new, and the cache from then on. -/
def compile (c : Cache) (markup : String) : Except Template.Fault Template × Cache :=
  c.compileBy Template.ofMarkup markup

def size (c : Cache) : Nat := c.entries.length

def clear (c : Cache) : Cache := { c with entries := [] }

end Cache

end Nodecraft.Compiler
