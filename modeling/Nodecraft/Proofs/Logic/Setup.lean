import Nodecraft.Logic.Body
import Nodecraft.Proofs.Script.Rules

/-!
# Setup functions

Imperative logic is put into a setup function, as text: the braces around it are written before
anything is read. So where the function ends is for the logic to say. If its statements are read up
to the brace that was written for them, the logic stays in the function, and the program is the one
that is meant (`setup_holds_body`). Logic that closes the function itself is read on behind it, and
may give the component other properties as well (`setup_left`).

The text in front of the statements is read by rules at tokens that are known
(`Surface.script?_setup`), three calls of the grammar deep, and so is the text behind them.
-/

set_option autoImplicit false

namespace Nodecraft.Script.Surface

open Grammar

/-! ### Reading a script that returns a setup function -/

/-- The entry points of the grammar with some fuel. -/
def entriesWithin (fuel : Nat) : Entries :=
  ⟨fuel, assignmentWithin fuel, binaryWithin fuel, unaryWithin fuel, constructWithin fuel,
    patternWithin fuel, statementWithin fuel⟩

/-- What a rule has read, and the state behind it. -/
def result? {α : Type} : EStateM.Result Unit State α → Option (α × State)
  | .ok a s => some (a, s)
  | .error _ _ => none

/-- The state at a brace that opens the body of a function. -/
def Grammar.State.atBody (s : State) (cs : List Char) : State :=
  { s with lexeme := ⟨.punct "\x7b", false, '\x7b' :: cs, cs⟩ }

/-- The statements of a plain function and the state behind its body, read from the text behind the
brace that opens the body. -/
def bodyBehindBrace? (fuel : Nat) (cs : List Char) : Option (List Stmt × State) :=
  result? (functionBody (entriesWithin fuel) false false
    ⟨⟨.punct "\x7b", false, '\x7b' :: cs, cs⟩, ⟨true, true, false, true⟩, 0, [], []⟩)

/-- At a brace behind which nothing but a semicolon is left. -/
structure AtLastBrace (s : State) : Prop where
  brace : s.lexeme.token = .punct "\x7d"
  rest : s.lexeme.rest = [';']

instance (s : State) : Decidable (AtLastBrace s) :=
  decidable_of_iff (s.lexeme.token.isPunct "\x7d" = true ∧ s.lexeme.rest = [';'])
    ⟨fun h ↦ ⟨isPunct_iff.1 h.1, h.2⟩, fun h ↦ ⟨isPunct_iff.2 h.brace, h.rest⟩⟩

/-- A script that returns an object with nothing but a setup function. -/
def setupOnly (body : List Stmt) : List Stmt :=
  [.return (some (.object [.entry (.fixed "setup") (.function (.make none false [] none body))]))]

/-- The rule for scripts. -/
def wholeScript (g : Entries) : Rule (List Stmt) := do
  let body ← bodyStatements g
  ensure (← atEnd)
  return body

/-- The letters of the wrapper stand in names, and what follows its names does not. -/
theorem wrapper_identifiers :
    ("return".toList.all Text.isIdentifierPart = true ∧ "setup".toList.all Text.isIdentifierPart = true) ∧
    (Text.isIdentifierStart 'r' = true ∧ Text.isIdentifierStart 's' = true) ∧
    Text.isIdentifierPart ' ' = false ∧ Text.isIdentifierPart '(' = false := by
  decide +kernel

theorem next?_return (cs : List Char) : Lexer.next? ("return \x7b setup() \x7b".toList ++ cs) =
    some ⟨.name "return" false, false, "return \x7b setup() \x7b".toList ++ cs,
      " \x7b setup() \x7b".toList ++ cs⟩ := by
  obtain ⟨⟨hreturn, -⟩, ⟨hstart, -⟩, hstop, -⟩ := wrapper_identifiers
  have hword : "eturn".toList.all Text.isIdentifierPart = true := (Bool.and_eq_true_iff.1 hreturn).2
  exact Lexer.next?_word ⟨hstart, by decide, by decide, by decide⟩ hword hstop (by decide)
    ("\x7b setup() \x7b".toList ++ cs)

theorem next?_setup (cs : List Char) : Lexer.next? (" setup() \x7b".toList ++ cs) =
    some ⟨.name "setup" false, false, "setup() \x7b".toList ++ cs, "() \x7b".toList ++ cs⟩ := by
  obtain ⟨⟨-, hsetup⟩, ⟨-, hstart⟩, -, hstop⟩ := wrapper_identifiers
  have hword : "etup".toList.all Text.isIdentifierPart = true := (Bool.and_eq_true_iff.1 hsetup).2
  exact (Lexer.next?_space _).trans (Lexer.next?_word ⟨hstart, by decide, by decide, by decide⟩
    hword hstop (by decide) (") \x7b".toList ++ cs))

section

variable {n : Nat} {s : State} {cs : List Char}
  (hlast : ∀ body s₁, functionBody (entriesWithin (n + 2)) false false (s.atBody cs) =
    .ok body s₁ → AtLastBrace s₁)

include hlast

/-- The property is a method, and its body is read in the end. -/
theorem follows_setup (hbrace : s.lexeme.token = .punct "\x7b")
    (hrest : s.lexeme.rest = " setup() \x7b".toList ++ cs) :
    Follows (primary (entriesWithin (n + 2))) s (functionBody (entriesWithin (n + 2)) false false)
      (s.atBody cs)
      (fun body ↦ .object [.entry (.fixed "setup") (.function (.make none false [] none body))])
      (fun s₁ ↦ { s₁ with lexeme := ⟨.punct ";", false, [';'], []⟩ }) := by
  have hsetup := next?_setup cs
  rw [← hrest] at hsetup
  have hopen := Lexer.next?_mark (c := '(') (by decide) (") \x7b".toList ++ cs)
  have hclose := Lexer.next?_mark (c := ')') (by decide) (" \x7b".toList ++ cs)
  have hbody := (Lexer.next?_space _).trans (Lexer.next?_mark (c := '\x7b') (by decide) cs)
  have hproperty : Follows (property (entriesWithin (n + 2)))
      { s with lexeme := ⟨.name "setup" false, false, "setup() \x7b".toList ++ cs,
        "() \x7b".toList ++ cs⟩ }
      (functionBody (entriesWithin (n + 2)) false false) (s.atBody cs)
      (fun body ↦ .entry (.fixed "setup") (.function (.make none false [] none body))) id :=
    .of_eq (property_method rfl (by decide) hopen rfl)
      (.map (.of_eq (functionRest_eq rfl rfl hclose rfl hbody) (.map .refl)))
  refine .of_eq (primary_brace hbrace hsetup) ?_
  refine hproperty.objectRest rfl rfl fun body s₁ hr ↦ ⟨(hlast body s₁ hr).brace, ?_⟩
  rw [id, (hlast body s₁ hr).rest]
  exact Lexer.next?_mark (c := ';') (by decide) []

/-- The script is one statement, which returns the object. -/
theorem follows_return (hword : s.lexeme.token = .name "return" false)
    (hrest : s.lexeme.rest = " \x7b setup() \x7b".toList ++ cs)
    (hin : s.flags.inOperator = true) (hreturning : s.flags.returning = true) :
    Follows ((entriesWithin (n + 5)).statement false) s
      (functionBody (entriesWithin (n + 2)) false false) (s.atBody cs)
      (fun body ↦ .return (some (.object [.entry (.fixed "setup")
        (.function (.make none false [] none body))])))
      (fun s₁ ↦ { s₁ with lexeme := ⟨.endOfText, false, [], []⟩, flags := s.flags }) := by
  let s₁ : State := { s with lexeme :=
    ⟨.punct "\x7b", false, "\x7b setup() \x7b".toList ++ cs, " setup() \x7b".toList ++ cs⟩ }
  have hobject : Follows (primary (entriesWithin (n + 2))) s₁ _ _ _ _ := follows_setup hlast rfl rfl
  have hends (body : List Stmt) (s₂ : State)
      (_ : functionBody (entriesWithin (n + 2)) false false (s.atBody cs) = .ok body s₂) :
      EndsExpression (.punct ";") := endsExpression_semicolon
  have hunary : Follows (unary (entriesWithin (n + 2))) s₁ _ _ _ _ :=
    .of_eq (unary_brace rfl) (.update hends (.leftHand hends hobject rfl) rfl)
  have hassignment : Follows (assignment (entriesWithin (n + 3))) s₁ _ _ _ _ :=
    .assignment hends (.of_eq rfl (.binary hends hunary rfl rfl)) rfl
  have hexpression : Follows (expression (entriesWithin (n + 4))) s₁ _ _ _ _ :=
    .expression hends (.of_eq rfl hassignment) rfl
  have hbrace : Lexer.next? s.lexeme.rest = some s₁.lexeme := by
    rw [hrest]
    exact (Lexer.next?_space _).trans
      (Lexer.next?_mark (c := '\x7b') (by decide) (" setup() \x7b".toList ++ cs))
  refine .of_eq (statement_return hword hbrace rfl rfl hreturning) ?_
  refine .bind (.withIn hin hexpression) fun body s₂ _ ↦ ?_
  exact bind_of_ok (semicolon_ok rfl Lexer.next?_nil)

/-- There is nothing around it. -/
theorem follows_wholeScript (hword : s.lexeme.token = .name "return" false)
    (hrest : s.lexeme.rest = " \x7b setup() \x7b".toList ++ cs)
    (hin : s.flags.inOperator = true) (hreturning : s.flags.returning = true) :
    Follows (wholeScript (entriesWithin (n + 5))) s
      (functionBody (entriesWithin (n + 2)) false false) (s.atBody cs) setupOnly
      (fun s₁ ↦ { s₁ with lexeme := ⟨.endOfText, false, [], []⟩, flags := s.flags }) := by
  have hmark : atPunct "\x7d" s = .ok false s := atPunct_no (by rw [hword]; rfl)
  have hend : atEnd s = .ok false s := atEnd_no (by rw [hword]; simp)
  have hstatements : Follows (statements (entriesWithin (n + 5))) s
      (functionBody (entriesWithin (n + 2)) false false) (s.atBody cs) setupOnly
      (fun s₁ ↦ { s₁ with lexeme := ⟨.endOfText, false, [], []⟩, flags := s.flags }) := by
    refine Follows.collect_one (n + 3) (.of_eq (bind_of_ok hmark) (.of_eq (bind_of_ok hend) ?_)) ?_
    · exact .map (follows_return hlast hword hrest hin hreturning)
    · exact fun body s₁ _ ↦ (bind_of_ok (atPunct_no rfl)).trans (bind_of_ok (atEnd_ok rfl))
  exact .bind (.map hstatements) fun body s₁ _ ↦ bind_of_ok (atEnd_ok rfl)

end

section

variable {α : Type} {source : String} {returning : Bool} {rule : Entries → Rule α} {l : Lexeme}
  {s : State}

/-- What is read counts unless some of it is only covered by a wider grammar. -/
theorem run?_ok {a : α} (hfirst : Lexer.next? source.toList = some l)
    (h : rule (entriesWithin (16 * source.length + 64))
      ⟨l, ⟨true, true, false, returning⟩, 0, [], []⟩ = .ok a s) :
    run? source returning rule = if s.covers = 0 then some a else none := by
  rw [← String.length_toList] at h
  change rule (entriesFor source.toList.length) _ = _ at h
  unfold run?
  dsimp only
  rw [hfirst]
  dsimp only
  rw [h]

/-- What cannot be read is none. -/
theorem run?_error (hfirst : Lexer.next? source.toList = some l)
    (h : rule (entriesWithin (16 * source.length + 64))
      ⟨l, ⟨true, true, false, returning⟩, 0, [], []⟩ = .error () s) :
    run? source returning rule = none := by
  rw [← String.length_toList] at h
  change rule (entriesFor source.toList.length) _ = _ at h
  unfold run?
  dsimp only
  rw [hfirst]
  dsimp only
  rw [h]

end

/-- A script that returns a setup function is read as its body is. -/
theorem script?_setup {source : String} {cs : List Char}
    (hsource : source.toList = "return \x7b setup() \x7b".toList ++ cs)
    (hlast : ∀ p ∈ bodyBehindBrace? (16 * source.length + 61) cs, AtLastBrace p.2) :
    script? source = (bodyBehindBrace? (16 * source.length + 61) cs).bind fun p ↦
      if p.2.covers = 0 then some (setupOnly p.1) else none := by
  have hfirst := next?_return cs
  rw [← hsource] at hfirst
  have hwhole : String.ofList (Lexer.afterHashbang source.toList) = source := by
    rw [hsource]
    change String.ofList ("return \x7b setup() \x7b".toList ++ cs) = source
    rw [← hsource, String.ofList_toList]
  unfold script?
  rw [hwhole]
  let s : State := ⟨⟨.name "return" false, false, source.toList, " \x7b setup() \x7b".toList ++ cs⟩,
    ⟨true, true, false, true⟩, 0, [], []⟩
  have hscript : Follows (wholeScript (entriesWithin (16 * source.length + 64))) s
      (functionBody (entriesWithin (16 * source.length + 61)) false false) (s.atBody cs)
      setupOnly _ :=
    follows_wholeScript (fun body s₁ hr ↦ hlast (body, s₁) (congrArg result? hr)) rfl rfl rfl rfl
  cases hr : functionBody (entriesWithin (16 * source.length + 61)) false false (s.atBody cs) with
  | ok body s₁ =>
    have hbody : bodyBehindBrace? (16 * source.length + 61) cs = some (body, s₁) :=
      congrArg result? hr
    rw [hbody]
    exact (run?_ok hfirst (hscript.ok hr)).trans rfl
  | error e s₁ =>
    have hbody : bodyBehindBrace? (16 * source.length + 61) cs = none := congrArg result? hr
    obtain ⟨s₂, hs₂⟩ := hscript.error hr
    rw [hbody]
    exact run?_error hfirst hs₂

end Nodecraft.Script.Surface

namespace Nodecraft.Script

/-- The program of a component with nothing but a setup function. -/
def setupProgram (body : Block) : Block :=
  [.return (some (.object
    [.entry (.fixed "setup") (.function (.make (some "setup") [] none body false))]))]

namespace Subset

/-- The method is lowered as its body is. -/
theorem function_setup (body : List Surface.Stmt) :
    function 2 (some "setup") (.make none false [] none body) =
      (block 2 body).map fun b ↦ .make (some "setup") [] none b false := by
  simp only [function, parameters, optionPattern]
  cases block 2 body <;> rfl

/-- So is the property. -/
theorem property_setup (body : List Surface.Stmt) :
    property 2 (.entry (.fixed "setup") (.function (.make none false [] none body))) =
      (block 2 body).map fun b ↦
        .entry (.fixed "setup") (.function (.make (some "setup") [] none b false)) := by
  rw [property, key]
  change (function 2 (some "setup") _ >>= fun f ↦ pure _) = _
  rw [function_setup]
  cases block 2 body <;> rfl

/-- So is the object. -/
theorem expr_setup (body : List Surface.Stmt) :
    expr 1 (.object [.entry (.fixed "setup") (.function (.make none false [] none body))]) =
      (block 2 body).map fun b ↦
        .object [.entry (.fixed "setup") (.function (.make (some "setup") [] none b false))] := by
  rw [expr, properties, properties, enter, if_neg (by decide), property_setup]
  cases block 2 body <;> rfl

/-- So is the whole script. -/
theorem block_setupOnly (body : List Surface.Stmt) :
    block 0 (Surface.setupOnly body) = (block 2 body).map setupProgram := by
  rw [Surface.setupOnly, block, block, stmt, optionExpr, expr_setup, enter, if_neg (by decide)]
  cases block 2 body <;> rfl

end Subset

end Nodecraft.Script

namespace Nodecraft.Logic

open Script (Block ReadError readScript nestsShallowly setupProgram)
open Script.Surface (script? bodyBehindBrace? AtLastBrace)

/-- The text of some logic without its imports. -/
def bareText (logic : String) : String := Text.trim (stripImports logic)

/-- The text of a component whose setup function has the given text. -/
def inSetup (text : String) : String := "return \x7b setup() \x7b\n" ++ text ++ "\n\x7d \x7d;"

/-- The body of the setup function that begins in front of a text, and the state behind it. -/
def setupBody? (text : String) : Option (List Script.Surface.Stmt × Script.Surface.Grammar.State) :=
  bodyBehindBrace? (16 * (inSetup text).length + 61) ("\n" ++ text ++ "\n\x7d \x7d;").toList

/-- Imperative logic is put into a setup function. -/
theorem asFunctionBody_imperative {logic : String} (h : (asFunctionBody logic).1 = .imperative) :
    asFunctionBody logic = (.imperative, inSetup (bareText logic)) := by
  unfold asFunctionBody at h ⊢
  dsimp only at h ⊢
  split at h
  · cases h
  · rename_i hempty
    split at h
    · cases h
    · split at h
      · cases h
      · rename_i hbraced
        rw [if_neg hempty, if_neg hbraced]
        rfl

/-- Imperative logic is read inside of the setup function. -/
theorem ofText_imperative {logic : String} (h : (asFunctionBody logic).1 = .imperative) :
    Body.ofText logic = ((readScript (inSetup (bareText logic))).mapError
      fun e ↦ ⟨.imperative, .unread e⟩).map
        fun program ↦ ⟨.imperative, inSetup (bareText logic), program⟩ := by
  unfold Body.ofText
  rw [asFunctionBody_imperative h]
  dsimp only
  cases readScript (inSetup (bareText logic)) <;> rfl

/-- A text that nests too deeply is refused before it is read. -/
theorem readScript_deep {source : String} (h : nestsShallowly source = false) :
    readScript source = .error (.refused .tooDeep) := by
  unfold readScript Script.readWith
  rw [h]
  rfl

/-- Any other text is read and lowered. -/
theorem readScript_shallow {source : String} (h : nestsShallowly source = true) :
    readScript source = (script? source).elim (.error .malformed)
      fun program ↦ (Script.Subset.block 0 program).mapError .refused := by
  unfold readScript Script.readWith
  rw [h]
  cases script? source <;> rfl

/-- What is around the logic, character by character. -/
theorem toList_inSetup (text : String) : (inSetup text).toList =
    "return \x7b setup() \x7b".toList ++ ("\n" ++ text ++ "\n\x7d \x7d;").toList := by
  have hopening : "return \x7b setup() \x7b\n" = "return \x7b setup() \x7b" ++ "\n" := by
    decide
  have happend : inSetup text = "return \x7b setup() \x7b" ++ ("\n" ++ text ++ "\n\x7d \x7d;") := by
    unfold inSetup
    rw [hopening, String.append_assoc, String.append_assoc, String.append_assoc]
  exact (congrArg String.toList happend).trans String.toList_append

/-- What is read behind the braces of a setup function decides what its logic comes to, if the body
that is read ends in front of the last brace. -/
theorem readScript_setup {text : String} (h : nestsShallowly (inSetup text) = true)
    (hlast : ∀ p ∈ setupBody? text, AtLastBrace p.2) :
    readScript (inSetup text) = ((setupBody? text).filter fun p ↦ p.2.covers == 0).elim
      (.error .malformed) fun p ↦ ((Script.Subset.block 2 p.1).map setupProgram).mapError .refused := by
  rw [readScript_shallow h, Script.Surface.script?_setup (toList_inSetup text) hlast]
  change (Option.bind (setupBody? text) _).elim _ _ = _
  cases setupBody? text with
  | none => rfl
  | some p =>
    rw [Option.bind_some]
    cases hcovers : p.2.covers == 0 with
    | true =>
      rw [if_pos (eq_of_beq hcovers), Option.filter_some, if_pos hcovers]
      exact congrArg (Except.mapError ReadError.refused) (Script.Subset.block_setupOnly p.1)
    | false =>
      rw [if_neg (ne_of_beq_false hcovers), Option.filter_some, if_neg (ne_true_of_eq_false hcovers)]
      rfl

/-- Imperative logic without its imports is the body of a setup function: if it can be read as one
whose closing brace is the last but one of the text around it, the program returns an object with
nothing but that function, whose statements are those that were read. Logic that cannot be read as
the body of a function, nests too deep or is outside of the subset is not supported. -/
theorem setup_holds_body {logic : String} (h : (asFunctionBody logic).1 = .imperative) :
    (asFunctionBody logic).2 = inSetup (bareText logic) ∧
    (nestsShallowly (inSetup (bareText logic)) = false →
      Body.ofText logic = .error ⟨.imperative, .unread (.refused .tooDeep)⟩) ∧
    (nestsShallowly (inSetup (bareText logic)) = true →
      (setupBody? (bareText logic) = none →
        Body.ofText logic = .error ⟨.imperative, .unread .malformed⟩) ∧
      ∀ body s, setupBody? (bareText logic) = some (body, s) → AtLastBrace s →
        (s.covers ≠ 0 → Body.ofText logic = .error ⟨.imperative, .unread .malformed⟩) ∧
        (s.covers = 0 →
          (∀ why, Script.Subset.block 2 body = .error why →
            Body.ofText logic = .error ⟨.imperative, .unread (.refused why)⟩) ∧
          ∀ program, Script.Subset.block 2 body = .ok program → Body.ofText logic =
            .ok ⟨.imperative, inSetup (bareText logic), setupProgram program⟩)) := by
  rw [ofText_imperative h]
  refine ⟨congrArg Prod.snd (asFunctionBody_imperative h), fun hdeep ↦ ?_, fun hshallow ↦ ⟨?_, ?_⟩⟩
  · rw [readScript_deep hdeep]
    rfl
  · intro hnone
    rw [readScript_setup hshallow (by simp [hnone]), hnone]
    rfl
  · intro body s hbody hlast
    have hread := readScript_setup hshallow (by simpa [hbody] using hlast)
    rw [hbody, Option.filter_some] at hread
    refine ⟨fun hcovers ↦ ?_, fun hcovers ↦ ⟨fun why hwhy ↦ ?_, fun program hprogram ↦ ?_⟩⟩
    · rw [if_neg (by simpa using hcovers)] at hread
      rw [hread]
      rfl
    · rw [if_pos (by simpa using hcovers)] at hread
      rw [hread, Option.elim_some, hwhy]
      rfl
    · rw [if_pos (by simpa using hcovers)] at hread
      rw [hread, Option.elim_some, hprogram]
      rfl

/-- The imports of logic are no part of its setup function. -/
theorem setup_holds_body_imports :
    (asFunctionBody "import 'a'\nlet n = 1").1 = .imperative ∧
    bareText "import 'a'\nlet n = 1" = "let n = 1" ∧
    ∃ program, Body.ofText "import 'a'\nlet n = 1" =
      .ok ⟨.imperative, inSetup "let n = 1", setupProgram program⟩ ∧ program.length = 1 := by
  have hform : (asFunctionBody "import 'a'\nlet n = 1").1 = .imperative := by decide +kernel
  have hbare : bareText "import 'a'\nlet n = 1" = "let n = 1" := by decide +kernel
  have hshallow : nestsShallowly (inSetup "let n = 1") = true := by decide +kernel
  have hread : ((setupBody? "let n = 1").any fun p ↦ AtLastBrace p.2 && p.2.covers == 0 &&
      (Script.Subset.block 2 p.1).toOption.any (·.length == 1)) = true := by decide +kernel
  obtain ⟨⟨body, s⟩, hbody, hread⟩ := (Option.any_eq_true _ _).1 hread
  simp only [Bool.and_eq_true, decide_eq_true_eq, beq_iff_eq] at hread
  obtain ⟨⟨hlast, hcovers⟩, hlength⟩ := hread
  have hholds := (setup_holds_body hform).2.2
  rw [hbare] at hholds
  cases hprogram : Script.Subset.block 2 body with
  | error why =>
    rw [hprogram] at hlength
    cases hlength
  | ok program =>
    rw [hprogram] at hlength
    exact ⟨hform, hbare, program, (((hholds hshallow).2 body s hbody hlast).2 hcovers).2 program
      hprogram, eq_of_beq hlength⟩

/-- What the properties of the object that a program returns are called. -/
def optionNames : Block → List (Option String)
  | [.return (some (.object properties))] => properties.map fun
    | .entry k _ => Script.Subset.keyName k
    | .spread _ => none
  | _ => []

/-- Logic may close its setup function, and with it leave it: a text that is no function body by
itself is accepted, and gives the component a second property. -/
theorem setup_left :
    (asFunctionBody "\x7d, mounted() \x7b").1 = .imperative ∧ (script? "\x7d, mounted() \x7b").isNone ∧
    (∀ body, optionNames (setupProgram body) = [some "setup"]) ∧
    (Body.ofText "\x7d, mounted() \x7b").toOption.map (fun b ↦ optionNames b.program) =
      some [some "setup", some "mounted"] :=
  ⟨by decide +kernel, by decide +kernel, fun _ ↦ rfl, by decide +kernel⟩

end Nodecraft.Logic
