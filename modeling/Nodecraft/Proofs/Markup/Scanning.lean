import Nodecraft.Proofs.Markup.Lexing

/-!
# Scanning for tags

Outside of elements that hold nothing but text, tags begin with brackets, wherever these stand. What
a bracket begins is read as a whole, be it a tag, a comment or a declaration, and scanning goes on
behind it (`Scans`).
-/

set_option autoImplicit false

namespace Nodecraft.Markup

namespace Token

def isTag : Token → Bool
  | .opening _ => true
  | .closing _ => true
  | _ => false

/-- The name of a tag. -/
def tagName : Token → String
  | .opening tag => tag.name
  | .closing name => name
  | _ => ""

end Token

namespace Lexer

/-- The tags that HTML finds in a text. The fuel bounds its characters. -/
def scanWithin : Nat → List Char → List Token
  | 0, _ => []
  | _, [] => []
  | fuel + 1, c :: cs =>
    if c == '<' then
      let s := bracketStep false cs
      s.tokens.filter Token.isTag ++ scanWithin fuel s.rest
    else scanWithin fuel cs

def scan (cs : List Char) : List Token := scanWithin cs.length cs

/-- The tags of a text, from bracket to bracket. -/
inductive Scans : List Char → List Token → Prop
  | nil : Scans [] []
  | char {c : Char} {cs : List Char} {tags : List Token} : c ≠ '<' → Scans cs tags →
    Scans (c :: cs) tags
  | bracket {cs rest : List Char} {tokens tags : List Token} {mode : TextMode} :
    bracketStep false cs = ⟨tokens, mode, rest⟩ → rest.length ≤ cs.length → Scans rest tags →
    Scans ('<' :: cs) (tokens.filter Token.isTag ++ tags)

/-- What scans a text is what the scanner finds, with as much fuel as there are characters. -/
theorem Scans.scanWithin_eq {cs : List Char} {tags : List Token} (h : Scans cs tags) :
    ∀ {fuel : Nat}, cs.length ≤ fuel → scanWithin fuel cs = tags := by
  induction h with
  | nil =>
    intro fuel _
    cases fuel <;> rfl
  | char hc _ ih =>
    intro fuel hfuel
    rw [List.length_cons] at hfuel
    obtain ⟨fuel, rfl⟩ := Nat.exists_eq_add_one_of_ne_zero (by omega : fuel ≠ 0)
    rw [scanWithin, if_neg (by simpa using hc)]
    exact ih (Nat.le_of_succ_le_succ hfuel)
  | bracket hstep hle _ ih =>
    intro fuel hfuel
    rw [List.length_cons] at hfuel
    obtain ⟨fuel, rfl⟩ := Nat.exists_eq_add_one_of_ne_zero (by omega : fuel ≠ 0)
    rw [scanWithin, if_pos (beq_self_eq_true _), hstep]
    dsimp only
    rw [ih (by omega)]

theorem Scans.scan_eq {cs : List Char} {tags : List Token} (h : Scans cs tags) : scan cs = tags :=
  h.scanWithin_eq (Nat.le_refl _)

/-- A bracket that begins no markup. -/
theorem Scans.text {cs : List Char} {tags : List Token} (h : Scans cs tags)
    (hhead : ∀ c ∈ cs.head?, beginsMarkup c = false) : Scans ('<' :: cs) tags := by
  cases cs with
  | nil =>
    have hstep : bracketStep false [] = ⟨[.char '<'], .markup, []⟩ := rfl
    exact .bracket hstep (Nat.le_refl _) h
  | cons c cs => exact .bracket (bracketStep_of_text false (hhead c rfl) cs) (Nat.le_refl _) h

/-- A tag as it is written with attributes that are read as they are meant. -/
structure IsTag (name attributes gap : List Char) (selfClosing : Bool)
    (read : List (String × String)) : Prop where
  name : IsTagName name
  attributes : ∃ bare, Attributes bare attributes read ∧
    (bare = true → selfClosing = true → gap ≠ [])
  gap : IsGap gap

/-- What stands behind a tag is shorter. -/
theorem length_tagEnd (name attributes gap rest : List Char) (selfClosing : Bool) : rest.length ≤
    (name ++ (attributes ++ tagEnd gap selfClosing rest)).length := by
  unfold tagEnd
  simp only [List.length_append, List.length_cons]
  omega

section

variable {name attributes gap rest : List Char} {selfClosing : Bool} {read : List (String × String)}
  (h : IsTag name attributes gap selfClosing read)

include h

/-- What is written as a tag is read as one. -/
theorem IsTag.tag?_eq : tag? (name ++ (attributes ++ tagEnd gap selfClosing rest)) =
    some (⟨lowered name, read.foldl addAttribute [], selfClosing⟩, rest) := by
  obtain ⟨bare, hattributes, hslash⟩ := h.attributes
  exact tag?_of_written h.name rest hattributes h.gap hslash

/-- An opening tag in front. -/
theorem Scans.opening {tags : List Token} (hrest : Scans rest tags) :
    Scans ('<' :: (name ++ (attributes ++ tagEnd gap selfClosing rest)))
      (.opening ⟨lowered name, read.foldl addAttribute [], selfClosing⟩ :: tags) :=
  .bracket (step_opening h.name h.tag?_eq false) (length_tagEnd ..) hrest

/-- A closing tag in front. -/
theorem Scans.closing {tags : List Token} (hrest : Scans rest tags) :
    Scans ('<' :: '/' :: (name ++ (attributes ++ tagEnd gap selfClosing rest)))
      (.closing (lowered name) :: tags) :=
  .bracket (step_closing h.name h.tag?_eq false) (Nat.le_succ_of_le (length_tagEnd ..)) hrest

end

end Lexer

end Nodecraft.Markup
