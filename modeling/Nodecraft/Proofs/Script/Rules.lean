import Mathlib.Data.List.TakeWhile
import Nodecraft.Proofs.Markup.Lexing
import Nodecraft.Proofs.Sequence
import Nodecraft.Script.Surface.Grammar

/-!
# Running the grammar

What the rules of the grammar do at tokens that are known, one lemma for each rule. Of a text that is
known but for a stretch in the middle, which one rule reads, every rule that runs that one comes to
what that one comes to (`Grammar.Follows`). The relation is carried from a rule to those that run it,
up to a whole expression or statement, and neither the failures nor the results of the rule in the
middle have to be looked at on the way.
-/

set_option autoImplicit false

namespace Nodecraft.Script.Lexer

open Markup (takeWhile_append_stop dropWhile_append_stop)

theorem next?_space (cs : List Char) : next? (' ' :: cs) = next? cs := rfl

theorem next?_nil : next? [] = some ⟨.endOfText, false, [], []⟩ := rfl

/-- The marks that are no part of a longer one. -/
def loneMarks : List Char := ['\x7b', '\x7d', '(', ')', ';']

/-- A mark that stands for itself. -/
theorem next?_mark {c : Char} (hc : c ∈ loneMarks) (cs : List Char) :
    next? (c :: cs) = some ⟨.punct (String.ofList [c]), false, c :: cs, cs⟩ := by
  have hmarks : loneMarks.all fun c ↦ !(Text.isIdentifierStart c || c == '\\') := by
    decide +kernel
  have hname : (Text.isIdentifierStart c || c == '\\') = false :=
    (Bool.not_eq_true' _).mp (List.all_eq_true.1 hmarks c hc)
  have hnext : next? (c :: cs) = (if (Text.isIdentifierStart c || c == '\\') = true then
      (name? (c :: cs)).map fun p ↦ (.name p.1 p.2.1, p.2.2) else punctuator? (c :: cs)).bind
        fun p ↦ some ⟨p.1, false, c :: cs, p.2⟩ := by
    simp only [loneMarks, List.mem_cons, List.not_mem_nil, or_false] at hc
    rcases hc with rfl | rfl | rfl | rfl | rfl <;> rfl
  rw [hnext, hname, if_neg Bool.false_ne_true]
  simp only [loneMarks, List.mem_cons, List.not_mem_nil, or_false] at hc
  rcases hc with rfl | rfl | rfl | rfl | rfl <;> rfl

/-- A character that only a name can begin with. -/
structure StartsWord (c : Char) : Prop where
  start : Text.isIdentifierStart c = true
  digit : c.isDigit = false
  gap : isLineEnd c = false ∧ isSpace c = false
  mark : c ∉ ['/', '"', '\'', '\x60', '#', '.']

/-- A word has no gap before it. -/
theorem skipGap?_word {c : Char} (hc : StartsWord c) (cs : List Char) :
    skipGap? false .blank (c :: cs) = some (false, c :: cs) := by
  have hslash : c ≠ '/' := fun h ↦ hc.mark (by simp [h])
  simp [skipGap?, hslash, hc.gap.1, hc.gap.2]

/-- A word, up to a character that no name has. -/
theorem next?_word {c stop : Char} {word : List Char} (hc : StartsWord c)
    (hword : word.all Text.isIdentifierPart = true)
    (hstop : Text.isIdentifierPart stop = false) (hslash : stop ≠ '\\') (cs : List Char) :
    next? (c :: (word ++ stop :: cs)) = some ⟨.name (String.ofList (c :: word)) false, false,
      c :: (word ++ stop :: cs), stop :: cs⟩ := by
  have hname : name? (c :: (word ++ stop :: cs)) =
      some (String.ofList (c :: word), false, stop :: cs) := by
    have hdrop : word.dropWhile Text.isIdentifierPart = [] :=
      List.dropWhile_eq_nil_iff.2 (List.all_eq_true.1 hword)
    have htake : word.takeWhile Text.isIdentifierPart = word :=
      List.takeWhile_eq_self_iff.2 (List.all_eq_true.1 hword)
    simp only [name?, hc.start, if_true, dropWhile_append_stop hstop, hdrop, List.nil_append,
      takeWhile_append_stop hstop, htake]
    split
    · rename_i heq
      exact absurd (List.cons.inj heq).1 hslash
    · rfl
  have htoken : token? (c :: (word ++ stop :: cs)) =
      some (.name (String.ofList (c :: word)) false, stop :: cs) := by
    have hmark := hc.mark
    simp only [List.mem_cons, List.not_mem_nil, or_false, not_or] at hmark
    simp [token?, hmark, hc.digit, hc.start, hname]
  simp only [next?, skipGap?_word hc, Option.bind_eq_bind, Option.bind_some, htoken]
  rfl

end Nodecraft.Script.Lexer

namespace Nodecraft.Script.Surface.Grammar

/-! ### Running rules -/

section

variable {α β γ : Type}

/-- What the rule `x` comes to at `s` is told by what the rule `r`, which is run within it, comes
to at `s'`: from a result of `r` on nothing more can fail. -/
structure Follows (x : Rule α) (s : State) (r : Rule β) (s' : State) (value : β → α)
    (behind : State → State) : Prop where
  ok {b : β} {s₁ : State} : r s' = .ok b s₁ → x s = .ok (value b) (behind s₁)
  error {s₁ : State} : r s' = .error () s₁ → ∃ s₂, x s = .error () s₂

namespace Follows

variable {x y : Rule α} {r : Rule β} {s s₁ s' : State} {value : β → α} {behind : State → State}

theorem refl : Follows r s r s id id where
  ok hr := hr
  error hr := ⟨_, hr⟩

/-- What is read alike from another place. -/
theorem of_eq (heq : x s = y s₁) (h : Follows y s₁ r s' value behind) :
    Follows x s r s' value behind where
  ok hr := heq.trans (h.ok hr)
  error hr := (h.error hr).imp fun _ hy ↦ heq.trans hy

/-- What follows is read behind. -/
theorem bind {f : α → Rule γ} {value' : β → γ} {behind' : State → State}
    (h : Follows x s r s' value behind)
    (hf : ∀ b s₁, r s' = .ok b s₁ → f (value b) (behind s₁) = .ok (value' b) (behind' s₁)) :
    Follows (x >>= f) s r s' value' behind' where
  ok hr := (bind_of_ok (h.ok hr)).trans (hf _ _ hr)
  error hr := (h.error hr).imp fun _ hx ↦ bind_of_error hx

/-- What is made of it afterwards. -/
theorem map {f : α → γ} (h : Follows x s r s' value behind) :
    Follows (x >>= fun a ↦ pure (f a)) s r s' (fun b ↦ f (value b)) behind :=
  h.bind fun _ _ _ ↦ rfl

end Follows

end

/-! ### Single tokens -/

section

variable {α : Type} {p w : String} {s s₁ : State} {l : Lexeme}

theorem isPunct_iff {t : Token} : t.isPunct p = true ↔ t = .punct p := by
  cases t <;> simp [Token.isPunct]

theorem token_eq (s : State) : token s = .ok s.lexeme.token s := rfl

/-- On to the next token. -/
theorem advance_ok (h : Lexer.next? s.lexeme.rest = some l) :
    advance s = .ok () { s with lexeme := l } := by
  unfold advance
  rw [h]

theorem atPunct_eq (h : s.lexeme.token = .punct w) : atPunct p s = .ok (w == p) s := by
  change EStateM.Result.ok (s.lexeme.token.isPunct p) s = _
  rw [h]
  rfl

theorem atPunct_no (h : s.lexeme.token.isPunct p = false) : atPunct p s = .ok false s := by
  change EStateM.Result.ok (s.lexeme.token.isPunct p) s = _
  rw [h]

theorem atEnd_ok (h : s.lexeme.token = .endOfText) : atEnd s = .ok true s := by
  unfold atEnd
  refine (bind_of_ok (token_eq s)).trans ?_
  rw [h]
  rfl

theorem atEnd_no (h : s.lexeme.token ≠ .endOfText) : atEnd s = .ok false s := by
  unfold atEnd
  refine (bind_of_ok (token_eq s)).trans ?_
  cases ht : s.lexeme.token with
  | endOfText => exact absurd ht h
  | _ => rfl

theorem atWord_no (h : s.lexeme.token.isWord w = false) : atWord w s = .ok false s := by
  change EStateM.Result.ok (s.lexeme.token.isWord w) s = _
  rw [h]

/-- A punctuator that is there is taken. -/
theorem eatPunct_ok (hp : s.lexeme.token = .punct p) (h : Lexer.next? s.lexeme.rest = some l) :
    eatPunct p s = .ok true { s with lexeme := l } := by
  unfold eatPunct
  refine (bind_of_ok (atPunct_eq hp)).trans ?_
  rw [beq_self_eq_true]
  exact bind_of_ok (advance_ok h)

/-- One that is not there is not. -/
theorem eatPunct_no (h : s.lexeme.token.isPunct p = false) : eatPunct p s = .ok false s :=
  bind_of_ok (atPunct_no h)

/-- A punctuator that has to be there. -/
theorem expectPunct_ok (hp : s.lexeme.token = .punct p) (h : Lexer.next? s.lexeme.rest = some l) :
    expectPunct p s = .ok () { s with lexeme := l } :=
  bind_of_ok (eatPunct_ok hp h)

theorem eatWord_no (h : s.lexeme.token.isWord w = false) : eatWord w s = .ok false s :=
  bind_of_ok (atWord_no h)

theorem atModifier_no (h : s.lexeme.token.isWord w = false) : atModifier w s = .ok false s :=
  bind_of_ok (atWord_no h)

end

/-! ### Repetitions -/

section

variable {α : Type} {s s₁ : State}

/-- A repetition that is over. -/
theorem collect_none {step : Rule (Option α)} (n : Nat) (h : step s = .ok none s₁) :
    collect step (n + 1) s = .ok [] s₁ :=
  bind_of_ok h

theorem extend_none {step : α → Rule (Option α)} {a : α} (n : Nat) (h : step a s = .ok none s₁) :
    extend step (n + 1) a s = .ok a s₁ :=
  bind_of_ok h

/-- A repetition that comes to its end behind one result. -/
theorem Follows.collect_one {β : Type} {step : Rule (Option α)} {r : Rule β} {s' : State}
    {value : β → α} {behind : State → State} (n : Nat)
    (h : Follows step s r s' (fun b ↦ some (value b)) behind)
    (hend : ∀ b s₁, r s' = .ok b s₁ → step (behind s₁) = .ok none (behind s₁)) :
    Follows (collect step (n + 2)) s r s' (fun b ↦ [value b]) behind :=
  h.bind fun b s₁ hr ↦ bind_of_ok (collect_none n (hend b s₁ hr))

end

/-! ### Changed flags -/

section

variable {α β : Type} {f : Flags → Flags} {rule : Rule α} {s : State}

theorem withFlags_ok {a : α} {s₁ : State} (h : rule { s with flags := f s.flags } = .ok a s₁) :
    withFlags f rule s = .ok a { s₁ with flags := s.flags } :=
  bind_of_ok h

/-- The flags are the old ones behind the rule. -/
theorem Follows.withFlags {r : Rule β} {s' : State} {value : β → α} {behind : State → State}
    (h : Follows rule { s with flags := f s.flags } r s' value behind) :
    Follows (Grammar.withFlags f rule) s r s' value
      (fun s₁ ↦ { behind s₁ with flags := s.flags }) :=
  .of_eq (bind_of_ok rfl) (.of_eq (bind_of_ok rfl) (h.bind fun _ _ _ ↦ bind_of_ok rfl))

/-- Allowing the operator `in` where it is allowed. -/
theorem Follows.withIn {r : Rule β} {s' : State} {value : β → α} {behind : State → State}
    (hin : s.flags.inOperator = true) (h : Follows rule s r s' value behind) :
    Follows (Grammar.withIn rule) s r s' value (fun s₁ ↦ { behind s₁ with flags := s.flags }) := by
  have hstate : { s with flags := { s.flags with inOperator := true } } = s := by rw [← hin]
  refine .withFlags ?_
  rw [hstate]
  exact h

end

/-! ### Functions without parameters -/

section

variable {g : Entries} {s : State} {l l₁ : Lexeme} {n : Nat}

/-- Without parameters there is nothing between the brackets. -/
theorem parameters_none (hbound : g.bound = n + 1) (hclose : s.lexeme.token = .punct ")")
    (hnext : Lexer.next? s.lexeme.rest = some l) :
    parameters g s = .ok ([], none) { s with lexeme := l } := by
  unfold parameters
  rw [hbound]
  refine (bind_of_ok (collect_none n (?_ : _ = EStateM.Result.ok none s))).trans ?_
  · exact (bind_of_ok (atPunct_eq hclose)).trans (bind_of_ok (atPunct_eq hclose))
  · refine (bind_of_ok (eatPunct_no (by rw [hclose]; rfl))).trans ?_
    exact bind_of_ok (expectPunct_ok hclose hnext)

/-- A function without parameters is its body. -/
theorem functionRest_eq (hbound : g.bound = n + 1) (hopen : s.lexeme.token = .punct "(")
    (hfirst : Lexer.next? s.lexeme.rest = some l) (hclose : l.token = .punct ")")
    (hnext : Lexer.next? l.rest = some l₁) :
    functionRest g none false false s = (functionBody g false false >>= fun body ↦
      pure (.make none false [] none body)) { s with lexeme := l₁ } := by
  unfold functionRest
  refine (bind_of_ok (expectPunct_ok hopen hfirst)).trans ?_
  exact bind_of_ok (withFlags_ok (parameters_none hbound hclose hnext))

end

/-! ### A method as the only property of an object -/

section

variable {g : Entries} {s : State} {l : Lexeme} {name : String}

theorem isWord_name {word : String} (h : name ≠ word) :
    (Token.name name false).isWord word = false := by
  simp [Token.isWord, h]

/-- A name that is no word that modifies the property behind it. -/
theorem property_method (hname : s.lexeme.token = .name name false)
    (hplain : name ≠ "get" ∧ name ≠ "set" ∧ name ≠ "async")
    (hnext : Lexer.next? s.lexeme.rest = some l) (hopen : l.token = .punct "(") :
    property g s = method g (.fixed name) false false { s with lexeme := l } := by
  have hmodifier {word : String} (hword : name ≠ word) : atModifier word s = .ok false s :=
    atModifier_no (by rw [hname, isWord_name hword])
  have hmark {p : String} : s.lexeme.token.isPunct p = false := by
    rw [hname]
    rfl
  have hkey : propertyKey g s = .ok (.fixed name) { s with lexeme := l } := by
    unfold propertyKey
    refine (bind_of_ok (token_eq s)).trans ?_
    rw [hname]
    exact bind_of_ok (advance_ok hnext)
  unfold property
  refine (bind_of_ok (eatPunct_no hmark)).trans ((bind_of_ok (hmodifier hplain.1)).trans ?_)
  refine (bind_of_ok (hmodifier hplain.2.1)).trans ((bind_of_ok (hmodifier hplain.2.2)).trans ?_)
  refine (bind_of_ok (eatPunct_no hmark)).trans ?_
  refine (bind_of_ok (rfl : flags s = .ok s.flags s)).trans ((bind_of_ok (token_eq s)).trans ?_)
  refine (bind_of_ok hkey).trans ((bind_of_ok (atPunct_eq hopen)).trans ?_)
  rfl

/-- An object with one property. -/
theorem Follows.objectRest {β : Type} {r : Rule β} {s' : State} {value : β → Property}
    {behind : State → State} {n : Nat} (h : Follows (property g) s r s' value behind)
    (hbound : g.bound = n + 2) (hfirst : s.lexeme.token.isPunct "\x7d" = false)
    (hclose : ∀ b s₁, r s' = .ok b s₁ → (behind s₁).lexeme.token = .punct "\x7d" ∧
      Lexer.next? (behind s₁).lexeme.rest = some l) :
    Follows (Grammar.objectRest g) s r s' (fun b ↦ .object [value b])
      (fun s₁ ↦ { behind s₁ with lexeme := l }) := by
  have hproperties : Follows (delimited g.bound "\x7d" (property g)) s r s'
      (fun b ↦ [value b]) behind := by
    unfold delimited
    rw [hbound]
    refine Follows.collect_one n (.of_eq (bind_of_ok (atPunct_no hfirst)) (.bind h ?_)) ?_
    · exact fun b s₁ hr ↦ bind_of_ok (atPunct_eq (hclose b s₁ hr).1)
    · exact fun b s₁ hr ↦ bind_of_ok (atPunct_eq (hclose b s₁ hr).1)
  exact hproperties.bind fun b s₁ hr ↦ bind_of_ok (expectPunct_ok (hclose b s₁ hr).1 (hclose b s₁ hr).2)

end

/-! ### An expression that is one operand -/

section

variable {β : Type} {g : Entries} {s s' : State} {r : Rule β} {value : β → Expr}
  {behind : State → State} {n : Nat}

/-- A token that goes on with no expression. -/
structure EndsExpression (t : Token) : Prop where
  link (g : Entries) (a : Linked) {s : State} : s.lexeme.token = t → link g a s = .ok none s
  sign : updateSign? t = none
  operator : infix? t = none
  assignment : assignOp? t = none
  arrow : t.isPunct "=>" = false
  question : t.isPunct "?" = false
  comma : t.isPunct "," = false

theorem endsExpression_semicolon : EndsExpression (.punct ";") where
  link g a s h := by
    unfold Grammar.link memberLink
    refine (bind_of_ok (token_eq s)).trans ?_
    rw [h]
    refine (bind_of_ok (token_eq s)).trans ?_
    rw [h]
    rfl
  sign := rfl
  operator := rfl
  assignment := rfl
  arrow := rfl
  question := rfl
  comma := rfl

/-- A brace begins an object. -/
theorem primary_brace {l : Lexeme} (hbrace : s.lexeme.token = .punct "\x7b")
    (hnext : Lexer.next? s.lexeme.rest = some l) :
    primary g s = objectRest g { s with lexeme := l } := by
  unfold primary
  refine (bind_of_ok (token_eq s)).trans ?_
  rw [hbrace]
  exact bind_of_ok (advance_ok hnext)

variable (hends : ∀ b s₁, r s' = .ok b s₁ → EndsExpression (behind s₁).lexeme.token)

include hends

/-- No call or access follows. -/
theorem Follows.leftHand (h : Follows (primary g) s r s' value behind) (hbound : g.bound = n + 1) :
    Follows (Grammar.leftHand g) s r s' value behind := by
  unfold Grammar.leftHand
  rw [hbound]
  exact h.bind fun b s₁ hr ↦ bind_of_ok (extend_none n ((hends b s₁ hr).link g _ rfl))

/-- No step up or down follows. -/
theorem Follows.update (h : Follows (Grammar.leftHand g) s r s' value behind)
    (hbrace : s.lexeme.token = .punct "\x7b") :
    Follows (Grammar.update g) s r s' value behind := by
  unfold Grammar.update
  refine .of_eq (bind_of_ok (token_eq s)) ?_
  rw [hbrace]
  refine h.bind fun b s₁ hr ↦ (bind_of_ok (token_eq _)).trans ?_
  rw [(hends b s₁ hr).sign]
  rfl

omit hends in
theorem unary_brace (hbrace : s.lexeme.token = .punct "\x7b") : unary g s = update g s := by
  have hword {w : String} : s.lexeme.token.isWord w = false := by
    rw [hbrace]
    rfl
  unfold unary
  refine (bind_of_ok (token_eq s)).trans ?_
  rw [hbrace]
  refine (bind_of_ok (eatWord_no hword)).trans ?_
  exact bind_of_ok (bind_of_ok (atWord_no hword) : atAwait s = .ok false s)

/-- No operator follows. -/
theorem Follows.binary {least : Nat} (h : Follows (Grammar.unary g) s r s' value behind)
    (hbrace : s.lexeme.token = .punct "\x7b") (hbound : g.bound = n + 1) :
    Follows (Grammar.binary g least) s r s' value behind := by
  unfold Grammar.binary
  refine .of_eq (bind_of_ok (token_eq s)) ?_
  rw [hbrace, hbound]
  refine h.bind fun b s₁ hr ↦ extend_none n ((bind_of_ok (token_eq _)).trans ?_)
  rw [(hends b s₁ hr).operator]
  rfl

/-- No assignment follows. -/
theorem Follows.assignment (h : Follows (g.binary 0) s r s' value behind)
    (hbrace : s.lexeme.token = .punct "\x7b") :
    Follows (Grammar.assignment g) s r s' value behind := by
  have hword {w : String} : s.lexeme.token.isWord w = false := by
    rw [hbrace]
    rfl
  unfold Grammar.assignment
  refine .of_eq (bind_of_ok (bind_of_ok (atWord_no hword) : atYield s = .ok false s)) ?_
  refine .of_eq (bind_of_ok (bind_of_ok (atPunct_eq hbrace) : parenArrow? g s = .ok none s)) ?_
  refine .of_eq (bind_of_ok (bind_of_ok (atWord_no hword) : asyncArrow? g s = .ok none s)) ?_
  refine h.bind fun b s₁ hr ↦ ?_
  unfold assignmentRest
  refine (bind_of_ok (atPunct_no (hends b s₁ hr).arrow)).trans ((bind_of_ok (token_eq _)).trans ?_)
  rw [(hends b s₁ hr).assignment]
  exact bind_of_ok (eatPunct_no (hends b s₁ hr).question)

/-- No comma follows. -/
theorem Follows.expression (h : Follows g.assignment s r s' value behind)
    (hbound : g.bound = n + 1) : Follows (Grammar.expression g) s r s' value behind := by
  unfold Grammar.expression
  rw [hbound]
  refine h.bind fun b s₁ hr ↦ bind_of_ok (collect_none n ?_)
  exact bind_of_ok (eatPunct_no (hends b s₁ hr).comma)

end

/-! ### A statement that returns an operand -/

section

variable {g : Entries} {s : State} {l : Lexeme}

/-- A statement that returns an operand on the same line. -/
theorem statement_return {single : Bool} (hword : s.lexeme.token = .name "return" false)
    (hnext : Lexer.next? s.lexeme.rest = some l) (hbrace : l.token = .punct "\x7b")
    (hline : l.newLine = false) (hreturning : s.flags.returning = true) :
    statement g single s = (withIn (expression g) >>= fun e ↦ semicolon >>= fun _ ↦
      pure (.return (some e))) { s with lexeme := l } := by
  let s₁ : State := { s with lexeme := l }
  have hrest : returnRest g s₁ = (withIn (expression g) >>= fun e ↦ semicolon >>= fun _ ↦
      pure (.return (some e))) s₁ := by
    have hend : atEnd s₁ = .ok false s₁ := by
      refine atEnd_no ?_
      rw [show s₁.lexeme.token = _ from hbrace]
      simp
    unfold returnRest
    refine (bind_of_ok (rfl : flags s₁ = .ok s.flags s₁)).trans ?_
    rw [hreturning]
    refine (bind_of_ok (rfl : ensure true s₁ = .ok () s₁)).trans ?_
    refine (bind_of_ok (atPunct_eq hbrace)).trans ((bind_of_ok (atPunct_eq hbrace)).trans ?_)
    refine (bind_of_ok hend).trans ((bind_of_ok (rfl : afterNewLine s₁ = .ok l.newLine s₁)).trans ?_)
    rw [hline]
    rfl
  unfold statement
  refine (bind_of_ok (token_eq s)).trans ?_
  rw [hword]
  exact (bind_of_ok (advance_ok hnext)).trans hrest

theorem semicolon_ok (h : s.lexeme.token = .punct ";")
    (hnext : Lexer.next? s.lexeme.rest = some l) : semicolon s = .ok () { s with lexeme := l } :=
  bind_of_ok (eatPunct_ok h hnext)

end

end Nodecraft.Script.Surface.Grammar
