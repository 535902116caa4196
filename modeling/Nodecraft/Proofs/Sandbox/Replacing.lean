import Nodecraft.Proofs.Text.Search
import Nodecraft.Sandbox.Evaluation.Call

/-!
# Replacing in texts

`replaceAll` goes to the occurrences of its pattern from left to right and asks at each of them what to
put in its place, and `replace` does so at the first (`replace_eq`). What they make is the text with
other texts in the place of exactly these stretches. With one text in the place of all, that is what
splitting at the pattern and joining by the text makes.

Both walk along characters. A loop that keeps the bytes it has consumed, and cuts its texts at bytes
(`replaceRounds`), never cuts within a character, and puts out what the walks make
(`replaceRounds_eq`).
-/

set_option autoImplicit false

namespace Nodecraft.Sandbox

open Text

/-- What is asked for at positions, one after the other, with the positions. -/
def Action.replacements (replacement : Nat → Action String) (positions : List Nat) :
    Action (List (Nat × String)) :=
  positions.mapM fun i ↦ do return (i, ← replacement i)

/-- All positions, or the first of them. -/
def chosen (all : Bool) (positions : List Nat) : List Nat :=
  if all then positions else positions.take 1

section

variable {replacement : Nat → Action String}

@[simp] theorem Action.replacements_nil : Action.replacements replacement [] = pure [] := rfl

theorem Action.replacements_cons (i : Nat) (rest : List Nat) :
    Action.replacements replacement (i :: rest) = do
      let t ← replacement i
      let replaced ← Action.replacements replacement rest
      return (i, t) :: replaced := by
  simp [Action.replacements]

/-- Occurrences of a pattern are replaced where they are found. -/
theorem replaceOccurrences_eq {pattern : List Char} (hp : pattern ≠ []) (all : Bool)
    (text : List Char) (fuel : Nat) : ∀ i, i ≤ text.length → text.length - i < fuel →
    Action.replaceOccurrences pattern all replacement fuel i (text.drop i) =
      splicedFrom text pattern.length i <$>
        Action.replacements replacement (chosen all (occurrencesFrom pattern i 0 (text.drop i))) := by
  induction fuel with
  | zero => exact fun i _ h ↦ absurd h (Nat.not_lt_zero _)
  | succ fuel ih =>
    intro i hi hfuel
    cases hcut : cut? pattern (text.drop i) with
    | none =>
      rw [occurrencesFrom_of_cut?_eq_none _ hcut]
      simp only [Action.replaceOccurrences, hcut]
      cases all <;> rfl
    | some found =>
      obtain ⟨before, after⟩ := found
      obtain ⟨hbefore, hafter, hlength⟩ := drop_of_cut? hcut
      have hpos := List.length_pos_iff.2 hp
      rw [occurrencesFrom_of_cut? hp _ hcut]
      simp only [Action.replaceOccurrences, hcut]
      cases all with
      | true =>
        have hrest := ih (i + before.length + pattern.length) (by omega) (by omega)
        rw [← hafter] at hrest
        simp [chosen, Action.replacements_cons, hrest, splicedFrom, hbefore]
      | false =>
        simp [chosen, Action.replacements_cons, splicedFrom, hbefore, hafter]

/-- The empty pattern is replaced before each character and at the end. -/
theorem replaceBetween_eq (all : Bool) (text cs : List Char) : ∀ i, text.drop i = cs →
    Action.replaceBetween all replacement i cs =
      splicedFrom text 0 i <$>
        Action.replacements replacement (chosen all (occurrencesFrom [] i 0 cs)) := by
  induction cs with
  | nil =>
    intro i htext
    cases all <;>
      simp [Action.replaceBetween, occurrencesFrom, chosen, Action.replacements_cons, splicedFrom,
        htext]
  | cons c cs ih =>
    intro i htext
    rw [occurrencesFrom_nil_cons]
    cases all with
    | true =>
      obtain ⟨rest, hrest⟩ := exists_occurrencesFrom_nil (i + 1) cs
      have hlater := ih (i + 1) (drop_succ_of_drop htext)
      rw [hrest] at hlater ⊢
      simp only [chosen, if_true] at hlater ⊢
      simp [Action.replaceBetween, hlater, Action.replacements_cons, splicedFrom_cons_self htext]
    | false =>
      simp [Action.replaceBetween, chosen, Action.replacements_cons, splicedFrom, htext]

end

/-- Replacing asks at the occurrences of the pattern, one after the other. -/
theorem replace_eq (call : Caller) (all : Bool) (s p : String) (v : Value) :
    Action.replace call (.string s) [.string p, v] all = do
      let replaced ← Action.replacements (Action.replacementText call p · v)
        (chosen all (occurrences p s))
      return .string (spliced s p.length replaced) := by
  have hreceived : Action.replace call (.string s) [.string p, v] all =
      if p.isEmpty then
        Value.string <$> Action.replaceBetween all (Action.replacementText call p · v) 0 s.toList
      else
        Value.string <$> Action.replaceOccurrences p.toList all (Action.replacementText call p · v)
          (s.length + 1) 0 s.toList := rfl
  rw [hreceived]
  split
  · obtain rfl : p = "" := by simpa using ‹p.isEmpty = true›
    rw [replaceBetween_eq all s.toList s.toList 0 List.drop_zero]
    simp [occurrences, spliced]
  · rename_i hp
    have hne : p.toList ≠ [] := by simpa using hp
    have hfound := @replaceOccurrences_eq (Action.replacementText call p · v) _ hne all s.toList
      (s.length + 1) 0 (Nat.zero_le _) (Nat.lt_succ_of_le (Nat.le_of_eq String.length_toList))
    rw [List.drop_zero] at hfound
    rw [hfound]
    simp [occurrences, spliced, String.length_toList]

/-! ### On bytes -/

/-- The loop that replaces: what is put out, how many bytes of the text are consumed, and the rest of
the text. It gives nothing where a text is cut within a character, or where the rounds are used up. -/
def replaceRounds (pattern text : List Char) (all : Bool) (replacement : Nat → Action String) :
    Nat → String → Nat → List Char → Action (Option String)
  | 0, _, _, _ => return none
  | rounds + 1, out, consumed, rest =>
    match findBytes? pattern rest with
    | none => return some (out ++ String.ofList rest)
    | some found => do
      let some (before, _) := splitBytes? found rest | return none
      let some (passed, _) := splitBytes? (consumed + found) text | return none
      let inserted ← replacement passed.length
      let out := out ++ String.ofList before ++ inserted
      let advance := found + byteSize pattern
      let some (_, after) := splitBytes? advance rest | return none
      match pattern, after, all with
      | [], c :: _, true =>
        let some (_, after) := splitBytes? (advance + c.utf8Size) rest | return none
        replaceRounds [] text true replacement rounds (out.push c)
          (consumed + (advance + c.utf8Size)) after
      | p :: ps, _, true =>
        replaceRounds (p :: ps) text true replacement rounds out (consumed + advance) after
      | _, _, _ => return some (out ++ String.ofList after)

section

variable {text : List Char} {replacement : Nat → Action String}

/-- Nothing that is found lies within a character: the text can be cut before it and behind it. -/
theorem splitBytes?_of_cut? {pattern passed rest before after : List Char}
    (htext : text = passed ++ rest) (hcut : cut? pattern rest = some (before, after)) :
    splitBytes? (byteSize before) rest = some (before, pattern ++ after) ∧
    splitBytes? (byteSize passed + byteSize before) text =
      some (passed ++ before, pattern ++ after) ∧
    splitBytes? (byteSize before + byteSize pattern) rest = some (before ++ pattern, after) := by
  have hrest := eq_append_of_cut? hcut
  refine ⟨?_, ?_, ?_⟩
  · rw [hrest, List.append_assoc, splitBytes?_append]
  · rw [htext, hrest, ← byteSize_append, List.append_assoc before, ← List.append_assoc passed,
      splitBytes?_append]
  · rw [hrest, ← byteSize_append, splitBytes?_append]

/-- Where the pattern is not empty, the loop computes the walk. -/
theorem replaceRounds_occurrences {pattern : List Char} (hp : pattern ≠ []) (all : Bool)
    (rounds : Nat) : ∀ (out : String) (passed rest : List Char), text = passed ++ rest →
    rest.length < rounds →
    replaceRounds pattern text all replacement rounds out (byteSize passed) rest =
      (fun t ↦ some (out ++ t)) <$>
        Action.replaceOccurrences pattern all replacement rounds passed.length rest := by
  induction rounds with
  | zero => exact fun _ _ _ _ h ↦ absurd h (Nat.not_lt_zero _)
  | succ rounds ih =>
    intro out passed rest htext hrounds
    cases hcut : cut? pattern rest with
    | none =>
      simp [replaceRounds, findBytes?, Action.replaceOccurrences, hcut]
    | some found =>
      obtain ⟨before, after⟩ := found
      have hrest := eq_append_of_cut? hcut
      obtain ⟨hbefore, hpassed, hadvance⟩ := splitBytes?_of_cut? htext hcut
      obtain ⟨p, ps, rfl⟩ := List.exists_cons_of_ne_nil hp
      cases all with
      | false =>
        simp [replaceRounds, findBytes?, Action.replaceOccurrences, hcut, hbefore, hpassed, hadvance,
          String.append_assoc]
      | true =>
        have hlater (out : String) := ih out (passed ++ before ++ p :: ps) after
          (by rw [htext, hrest]; simp) (by simp [hrest] at hrounds; omega)
        simp only [byteSize_append, List.length_append, Nat.add_assoc] at hlater
        simp [replaceRounds, findBytes?, Action.replaceOccurrences, hcut, hbefore, hpassed, hadvance,
          hlater, String.append_assoc, Nat.add_assoc]

/-- The empty pattern is found at every byte the loop stands at, and each round goes on by the bytes of
a character. -/
theorem replaceRounds_between (all : Bool) (rest : List Char) :
    ∀ (rounds : Nat) (out : String) (passed : List Char), text = passed ++ rest →
    rest.length < rounds →
    replaceRounds [] text all replacement rounds out (byteSize passed) rest =
      (fun t ↦ some (out ++ t)) <$> Action.replaceBetween all replacement passed.length rest := by
  induction rest with
  | nil =>
    intro rounds out passed htext hrounds
    obtain ⟨rounds, rfl⟩ := Nat.exists_eq_add_of_lt hrounds
    have hpassed : splitBytes? (byteSize passed) text = some (passed, []) := by
      rw [htext, splitBytes?_append]
    simp [replaceRounds, findBytes?, Action.replaceBetween, cut?, splitBytes?, hpassed]
  | cons c cs ih =>
    intro rounds out passed htext hrounds
    obtain ⟨rounds, rfl⟩ := Nat.exists_eq_add_of_lt hrounds
    have hpassed : splitBytes? (byteSize passed) text = some (passed, c :: cs) := by
      rw [htext, splitBytes?_append]
    have hcut : cut? [] (c :: cs) = some ([], c :: cs) := rfl
    cases all with
    | false =>
      simp [replaceRounds, findBytes?, Action.replaceBetween, hcut, splitBytes?, hpassed,
        String.append_assoc]
    | true =>
      have hpast : splitBytes? c.utf8Size (c :: cs) = some ([c], cs) := by
        rw [← byteSize_singleton]
        exact splitBytes?_append [c] cs
      have hlater (out : String) := ih (cs.length + 1 + rounds) out (passed ++ [c])
        (by rw [htext, List.append_assoc, List.singleton_append]) (by omega)
      simp only [byteSize_append, List.length_append, byteSize_singleton] at hlater
      have hpush (inserted t : String) :
          (out ++ inserted).push c ++ t = out ++ (inserted.push c ++ t) := by
        simp only [String.push_eq_append, String.append_assoc]
      simp [replaceRounds, findBytes?, Action.replaceBetween, hcut, splitBytes?, hpassed,
        hpast, hlater, hpush]

end

/-- From the beginning on, with a round for each character and one more, the loop computes the walks. -/
theorem replaceRounds_of_start (pattern s : String) (all : Bool) (replacement : Nat → Action String) :
    replaceRounds pattern.toList s.toList all replacement (s.length + 1) "" 0 s.toList =
      some <$> if pattern.isEmpty then Action.replaceBetween all replacement 0 s.toList
        else Action.replaceOccurrences pattern.toList all replacement (s.length + 1) 0 s.toList := by
  have hlength : s.toList.length < s.length + 1 := by
    rw [String.length_toList]
    exact Nat.lt_succ_self _
  split
  · obtain rfl : pattern = "" := by simpa using ‹pattern.isEmpty = true›
    exact (replaceRounds_between all s.toList _ "" [] rfl hlength).trans (by simp)
  · have hne : pattern.toList ≠ [] := by simpa using ‹¬pattern.isEmpty›
    exact (replaceRounds_occurrences hne all _ "" [] s.toList rfl hlength).trans (by simp)

/-- Replacing is what the loop on bytes puts out: the loop is never off a character's boundary, and its
rounds are enough. -/
theorem replaceRounds_eq (call : Caller) (self : Value) (args : List Value) (all : Bool) :
    some <$> Action.replace call self args all = do
      let s ← Action.textReceiver self "replace"
      let pattern ← Action.text (argument args 0)
      let replacement (position : Nat) :=
        Action.replacementText call pattern position (argument args 1)
      let replaced ← replaceRounds pattern.toList s.toList all replacement (s.length + 1) "" 0 s.toList
      return replaced.map Value.string := by
  unfold Action.replace
  rw [map_bind]
  congr 1
  funext s
  rw [map_bind]
  congr 1
  funext pattern
  dsimp only
  rw [replaceRounds_of_start]
  split <;> simp

/-! ### One text for all -/

/-- A replacement that is not computed is the same at all positions. -/
theorem Action.replacements_const (r : String) (positions : List Nat) :
    Action.replacements (fun _ ↦ pure r) positions = pure (positions.map fun i ↦ (i, r)) := by
  induction positions with
  | nil => rfl
  | cons i rest ih =>
    rw [Action.replacements_cons, ih]
    rfl

/-- A text is put in the place of the chosen occurrences. -/
theorem replace_string (call : Caller) (all : Bool) (s p r : String) :
    Action.replace call (.string s) [.string p, .string r] all =
      pure (.string (spliced s p.length ((chosen all (occurrences p s)).map fun i ↦ (i, r)))) := by
  have hreplaced : Action.replacements (Action.replacementText call p · (.string r))
      (chosen all (occurrences p s)) = pure ((chosen all (occurrences p s)).map fun i ↦ (i, r)) :=
    Action.replacements_const r _
  rw [replace_eq, hreplaced, pure_bind]

/-- Texts in a new array are joined as they are. -/
theorem Heap.join_newArray (h : Heap) (texts : List String) (separator : String) :
    (h.newArray (texts.map Value.string).toArray).2.join
      (h.newArray (texts.map Value.string).toArray).1 separator = separator.intercalate texts := by
  have hmap : texts.map ((fun v ↦ if Value.isNullish v then "" else
      (h.newArray (texts.map Value.string).toArray).2.textWithin (maxValueDepth - 1)
        [.array (h.newArray (texts.map Value.string).toArray).1] v) ∘ Value.string) = texts :=
    List.map_id texts
  rw [← List.map_map] at hmap
  have harray : ((h.newArray (texts.map Value.string).toArray).2.array
      (h.newArray (texts.map Value.string).toArray).1).toList = texts.map Value.string := by
    simp [Heap.newArray, Heap.array]
  rw [Heap.join, harray, hmap]

/-- Splitting at a pattern and joining by a text, as scripts do it. -/
theorem split_join (call : Caller) (s p r : String) (w : World) : ∃ w',
    (do
      let parts ← Action.textMethod call .split (.string s) [.string p]
      Action.arrayMethod call .join parts [.string r]) w =
      .ok (.string (r.intercalate (Action.splitText s p))) w' := by
  refine ⟨{ w with heap := (w.heap.newArray ((Action.splitText s p).map Value.string).toArray).2 }, ?_⟩
  rw [← w.heap.join_newArray]
  rfl

/-- Joining what splitting gives puts the text in the place of all occurrences. -/
theorem intercalate_splitText {s p : String} (hp : p ≠ "") (r : String) :
    r.intercalate (Action.splitText s p) =
      spliced s p.length ((occurrences p s).map fun i ↦ (i, r)) := by
  have hne : p.toList ≠ [] := by simpa using hp
  have hempty : ¬p.isEmpty := by simpa using hp
  have hpieces := stretches_eq_pieces hne s.toList s.length 0 (Nat.zero_le _)
    (Nat.le_of_eq String.length_toList)
  rw [List.drop_zero] at hpieces
  rw [Action.splitText, if_neg hempty, splitOn, hpieces, intercalate_pieces, String.length_toList]
  rfl

/-- Replacing at the first occurrence only. -/
theorem replace_first (call : Caller) {s p before after : String} (r : String)
    (hs : s = before ++ p ++ after)
    (hfirst : ∀ j < before.length, ¬p.toList <+: s.toList.drop j) :
    Action.replace call (.string s) [.string p, .string r] false =
      pure (.string (before ++ r ++ after)) := by
  have hspliced : spliced s p.length [(before.length, r)] = before ++ r ++ after := by
    simp [spliced, splicedFrom, hs, ← String.length_toList]
  rw [replace_string, chosen, if_neg Bool.false_ne_true, take_one_occurrences hs hfirst,
    List.map_singleton, hspliced]

/-- A pattern that is not there is not replaced. -/
theorem replace_absent (call : Caller) (all : Bool) {s p : String} (r : String)
    (h : ¬p.toList <:+: s.toList) :
    Action.replace call (.string s) [.string p, .string r] all = pure (.string s) := by
  have hspliced : spliced s p.length [] = s := by simp [spliced, splicedFrom]
  rw [replace_string, occurrences_eq_nil h]
  cases all <;> exact congrArg (fun t ↦ pure (Value.string t)) hspliced

/-- The empty pattern is replaced before each character and at the end. -/
theorem replaceAll_empty (call : Caller) (s r : String) :
    Action.replace call (.string s) [.string "", .string r] true =
      pure (.string (String.ofList (s.toList.flatMap fun c ↦ r.toList ++ [c]) ++ r)) := by
  rw [replace_string, ← splicedFrom_nil r s.toList s.toList 0 List.drop_zero]
  rfl

/-- What `replaceAll` and `replace` make of a text. The occurrences of the pattern follow one another
without overlap, the pattern stands at each of them, and none is left out. A function is asked at each
of them, or at the first, and what it returns stands in their place as text. With one text for all,
`replaceAll` does what splitting and joining do, and `replace` puts it in the pattern's first place. -/
theorem replacing_at_occurrences (call : Caller) (s p : String) :
    ((occurrences p s).Pairwise (fun i j ↦ i < j ∧ i + p.length ≤ j) ∧
      (∀ i ∈ occurrences p s, i ≤ s.length ∧ p.toList <+: s.toList.drop i) ∧
      ∀ j ≤ s.length, p.toList <+: s.toList.drop j →
        ∃ i ∈ occurrences p s, i ≤ j ∧ (j = i ∨ j < i + p.length)) ∧
    (∀ f, Action.textMethod call .replaceAll (.string s) [.string p, .function f] = (do
      let replaced ← Action.replacements (fun i ↦ do
        Action.text (← call (.function f) .undefined [.string p, .number (Float.ofNat i)]))
        (occurrences p s)
      return .string (spliced s p.length replaced)) ∧
      Action.textMethod call .replace (.string s) [.string p, .function f] = do
      let replaced ← Action.replacements (fun i ↦ do
        Action.text (← call (.function f) .undefined [.string p, .number (Float.ofNat i)]))
        ((occurrences p s).take 1)
      return .string (spliced s p.length replaced)) ∧
    (p ≠ "" → ∀ r w, ∃ t w',
      Action.textMethod call .replaceAll (.string s) [.string p, .string r] = pure (.string t) ∧
      (do
        let parts ← Action.textMethod call .split (.string s) [.string p]
        Action.arrayMethod call .join parts [.string r]) w = .ok (.string t) w') ∧
    (p = "" → ∀ r, Action.textMethod call .replaceAll (.string s) [.string p, .string r] =
      pure (.string (String.ofList (s.toList.flatMap fun c ↦ r.toList ++ [c]) ++ r))) ∧
    (∀ before after, s = before ++ p ++ after →
      (∀ j < before.length, ¬p.toList <+: s.toList.drop j) →
      ∀ r, Action.textMethod call .replace (.string s) [.string p, .string r] =
        pure (.string (before ++ r ++ after))) ∧
    (¬p.toList <:+: s.toList → ∀ r,
      Action.textMethod call .replace (.string s) [.string p, .string r] = pure (.string s)) := by
  refine ⟨⟨occurrences_pairwise p s, fun i hi ↦ mem_occurrences hi,
    fun j hj h ↦ exists_occurrence_of_stands hj h⟩, fun f ↦ ⟨?_, ?_⟩, ?_, ?_, ?_, ?_⟩
  · exact replace_eq call true s p (.function f)
  · exact replace_eq call false s p (.function f)
  · intro hp r w
    obtain ⟨w', hjoined⟩ := split_join call s p r w
    refine ⟨r.intercalate (Action.splitText s p), w', ?_, hjoined⟩
    rw [intercalate_splitText hp]
    exact replace_string call true s p r
  · rintro rfl r
    exact replaceAll_empty call s r
  · exact fun before after hs hfirst r ↦ replace_first call r hs hfirst
  · exact fun h r ↦ replace_absent call false r h

theorem replacing_at_occurrences_of_dashes :
    Action.textMethod Action.call .replace (.string "é-ß-x") [.string "-", .string "+"] =
      pure (.string "é+ß-x") ∧
    ∃ t w', Action.textMethod Action.call .replaceAll (.string "é-ß-x")
        [.string "-", .string "+"] = pure (.string t) ∧
      (do
        let parts ← Action.textMethod Action.call .split (.string "é-ß-x") [.string "-"]
        Action.arrayMethod Action.call .join parts [.string "+"]) default =
        .ok (.string t) w' := by
  obtain ⟨-, -, hall, -, hfirst, -⟩ := replacing_at_occurrences Action.call "é-ß-x" "-"
  exact ⟨hfirst "é" "ß-x" (by decide) (by decide) "+", hall (by decide) "+" default⟩

end Nodecraft.Sandbox
