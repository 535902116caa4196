import Nodecraft.Proofs.Sandbox.Fuel

/-!
# Optional chains

A chain is a base with links to its right: members, computed members and calls, each of which may be
marked optional. The rules evaluate it from the right, every link asking for the one before it. Here
it is walked from the left (`Chain.walk`), and `Chain.follow` is the same walk except that it stops at
the first link marked optional that finds `undefined` or `null`. The rules do what `Chain.follow` does,
up to the bound on nesting (`refines_following`, `following_refines`), and without marks they do what
`Chain.walk` does (`follow_plain`).
-/

set_option autoImplicit false

namespace Nodecraft.Script

/-- A link of a chain. -/
inductive Link
  | member (key : MemberKey) (isOptional : Bool)
  | call (arguments : List Item) (isOptional : Bool)

def Link.isOptional : Link → Bool
  | .member _ isOptional => isOptional
  | .call _ isOptional => isOptional

/-- The link without its mark. -/
def Link.plain : Link → Link
  | .member key _ => .member key false
  | .call arguments _ => .call arguments false

@[simp] theorem Link.isOptional_plain (link : Link) : link.plain.isOptional = false := by
  cases link <;> rfl

/-- What stands left of all links. -/
def Expr.base : Expr → Expr
  | .member receiver _ _ => receiver.base
  | .call target _ _ => target.base
  | e => e

/-- The links of a chain, from left to right. -/
def Expr.links : Expr → List Link
  | .member receiver key isOptional => receiver.links ++ [.member key isOptional]
  | .call target arguments isOptional => target.links ++ [.call arguments isOptional]
  | _ => []

/-- The same chain with no link marked. -/
def Expr.plain : Expr → Expr
  | .member receiver key _ => .member receiver.plain key false
  | .call target arguments _ => .call target.plain arguments false
  | e => e

end Nodecraft.Script

namespace Nodecraft.Sandbox

open Script Evaluation

/-- What a walk has come to: a value, what it is called on if the next link calls it, and how an error
names it. -/
structure Reached where
  value : Value
  self : Value
  name : String

/-- Whether the link is marked and finds nothing to go on from. -/
def Reached.endsAt (r : Reached) (link : Link) : Bool := link.isOptional && r.value.isNullish

namespace Chain

/-- How an error names a member that is called. -/
def keyName : MemberKey → String
  | .fixed name => name
  | .computed _ => "expression"

/-- Goes over a link, marked or not. -/
def take (m : Machine) (s : ScopeId) (r : Reached) : Link → Action Reached
  | .member key _ => do
    let k ← memberKey m s key
    return ⟨← Action.getProperty m.call r.value k, r.value, keyName key⟩
  | .call arguments _ => do
    if !r.value.isFunction then Action.typeError (r.name ++ " is not a function")
    else
      let args ← values m s arguments
      return ⟨← m.call r.value r.self args, .undefined, "expression"⟩

/-- Goes over a link unless the chain has ended or ends at the link. -/
def advance (m : Machine) (s : ScopeId) : Option Reached → Link → Action (Option Reached)
  | none, _ => return none
  | some r, link => if r.endsAt link then return none else return some (← take m s r link)

/-- Where a chain begins. -/
def start (m : Machine) (s : ScopeId) (e : Expr) : Action Reached :=
  return ⟨← m.eval s e.base, .undefined, calleeName e.base⟩

/-- Goes over all links from left to right, marked or not. -/
def walk (m : Machine) (s : ScopeId) (e : Expr) (links : List Link) : Action Reached := do
  links.foldlM (take m s) (← start m s e)

/-- Goes over the links from left to right up to the first at which the chain ends. -/
def follow (m : Machine) (s : ScopeId) (e : Expr) (links : List Link) :
    Action (Option Reached) := do
  links.foldlM (advance m s) (some (← start m s e))

end Chain

open Chain

/-- The machine that follows chains from the left. -/
def Machine.following (m : Machine) : Machine :=
  { m with link := fun s e ↦ return (← follow m s e e.links).map Reached.value }

section

variable {m : Machine} {s : ScopeId} {w w' : World}

/-! ### The rules for links -/

/-- The walk along one link more. -/
theorem follow_concat (e : Expr) (before : List Link) (link : Link) :
    follow m s e (before ++ [link]) =
      follow m s e before >>= fun reached ↦ advance m s reached link := by
  simp [follow]

/-- A read of a member is the last link of its walk. -/
theorem follow_member (receiver : Expr) (key : MemberKey) (o : Bool) :
    follow m s (.member receiver key o) (Expr.member receiver key o).links =
      follow m s receiver receiver.links >>= fun reached ↦ advance m s reached (.member key o) :=
  follow_concat receiver receiver.links (.member key o)

/-- A call is the last link of its walk. -/
theorem follow_call (target : Expr) (arguments : List Item) (o : Bool) :
    follow m s (.call target arguments o) (Expr.call target arguments o).links =
      follow m s target target.links >>= fun reached ↦ advance m s reached (.call arguments o) :=
  follow_concat target target.links (.call arguments o)

/-- The machine that follows chains gives the value of what the walk has reached. -/
theorem link_following (e : Expr) :
    m.following.link s e = Option.map Reached.value <$> follow m s e e.links := by
  simp [Machine.following]

/-- Keys are no links, so they are computed as before. -/
theorem memberKey_following (key : MemberKey) :
    memberKey m.following s key = memberKey m s key := by
  cases key <;> rfl

/-- Arguments are no links, so they are computed as before. -/
theorem values_following (items : List Item) : values m.following s items = values m s items := by
  induction items with
  | nil => rfl
  | cons item rest ih => cases item <;> simp only [values, ih] <;> rfl

/-- At a marked link with nothing in front of it, the walk ends. -/
theorem advance_of_ends {r : Reached} {link : Link} (h : r.endsAt link = true) :
    advance m s (some r) link = pure none :=
  if_pos h

/-- Otherwise the link is taken. -/
theorem advance_of_not_ends {r : Reached} {link : Link} (h : ¬r.endsAt link = true) :
    advance m s (some r) link = some <$> take m s r link := by
  rw [map_eq_pure_bind]
  exact if_neg h

/-- Going on to a member, as the rules put it. -/
theorem advance_member (r : Reached) (key : MemberKey) (o : Bool) :
    advance m s (some r) (.member key o) =
      if o && r.value.isNullish then pure none
      else memberKey m s key >>= fun k ↦ Action.getProperty m.call r.value k >>= fun v ↦
        pure (some ⟨v, r.value, keyName key⟩) := by
  simp [advance, take, Reached.endsAt, Link.isOptional]

/-- Going on to a call, as the rules put it. -/
theorem advance_call (r : Reached) (arguments : List Item) (o : Bool) :
    advance m s (some r) (.call arguments o) =
      if o && r.value.isNullish then pure none
      else if !r.value.isFunction then Action.typeError (r.name ++ " is not a function")
      else values m s arguments >>= fun args ↦ m.call r.value r.self args >>= fun v ↦
        pure (some ⟨v, .undefined, "expression"⟩) := by
  cases hf : r.value.isFunction with
  | true => simp [advance, take, Reached.endsAt, Link.isOptional, hf]
  | false => simp [advance, take, Reached.endsAt, Link.isOptional, hf]; rfl

/-- What the rules take for the function to call is what has been reached. -/
theorem follow_eq_callee (e : Expr) : follow m s e e.links =
    Option.map (fun c ↦ ⟨c.1, c.2, calleeName e⟩) <$> callee m.following s e := by
  cases e with
  | member receiver key o =>
    simp only [callee, link_following, follow_member, map_eq_pure_bind, bind_assoc, pure_bind]
    refine bind_congr fun reached ↦ ?_
    cases reached with
    | none => rfl
    | some r =>
      rw [advance_member]
      dsimp only [Option.map_some]
      split
      · rfl
      · simp only [memberKey_following, bind_assoc, pure_bind]
        cases key <;> rfl
  | call target arguments o =>
    simp only [callee, link_following, follow_call, map_eq_pure_bind, bind_assoc, pure_bind]
    refine bind_congr fun reached ↦ ?_
    cases reached with
    | none => rfl
    | some r =>
      rw [advance_call]
      split
      · rfl
      · cases r.value.isFunction with
        | true => simp [calleeName]
        | false => rfl
  | _ => simp [follow, callee, link_following, start, Expr.links]; rfl

/-- Over the machine that follows chains from the left, the rules for links do so as well. -/
theorem chainLink_following (e : Expr) : chainLink m.following s e = m.following.link s e := by
  cases e with
  | member receiver key o =>
    simp only [chainLink, memberLink, link_following, follow_member, map_eq_pure_bind, bind_assoc,
      pure_bind]
    refine bind_congr fun reached ↦ ?_
    cases reached with
    | none => rfl
    | some r =>
      rw [advance_member]
      dsimp only [Option.map_some]
      split
      · rfl
      · simp only [memberKey_following, bind_assoc, pure_bind]
        rfl
  | call target arguments o =>
    rw [link_following, follow_call, follow_eq_callee]
    simp only [chainLink, callLink, map_eq_pure_bind, bind_assoc, pure_bind]
    refine bind_congr fun found ↦ ?_
    cases found with
    | none => rfl
    | some c =>
      dsimp only [Option.map_some]
      rw [advance_call]
      dsimp only
      split
      · rfl
      · simp only [values_following]
        cases c.1.isFunction with
        | true => simp; rfl
        | false => rfl
  | _ => simp [chainLink, follow, link_following, start, Expr.links]; rfl

end

/-! ### Relations between walks -/

section

variable {R : (α : Type) → Action α → Action α → Prop} {m m' : Machine}
  (h : ∀ size, Machine.Related R (fun _ ↦ True) size m m')

include h

theorem Machine.Related.foldlM {α β : Type} {f f' : α → β → Action α}
    (hf : ∀ a b, R α (f a b) (f' a b)) (l : List β) : ∀ a,
    R α (l.foldlM f a) (l.foldlM f' a) := by
  induction l with
  | nil => exact fun a ↦ (h 0).pure a
  | cons b rest ih =>
    intro a
    rw [List.foldlM_cons, List.foldlM_cons]
    exact (h 0).bind (hf a b) ih

theorem Machine.Related.start (s : ScopeId) (e : Expr) :
    R Reached (start m s e) (start m' s e) :=
  (h 0).map ((h _).eval s e.base (Nat.lt_succ_self _)) fun v ↦ Reached.mk v .undefined _

/-- Related machines take a link alike. -/
theorem Machine.Related.take (s : ScopeId) (r : Reached) (link : Link) :
    R Reached (take m s r link) (take m' s r link) := by
  cases link with
  | member key o =>
    exact (h 0).bind ((h _).memberKey s key (Nat.le_refl _)) fun k ↦
      (h 0).map ((h 0).getProperty (h 0).call r.value k) fun v ↦ Reached.mk v _ _
  | call arguments o =>
    unfold Chain.take
    dsimp only
    split
    · exact (h 0).typeError _ (.of_suffix (by decide))
    · exact (h 0).bind ((h _).values s arguments (Nat.le_refl _)) fun args ↦
        (h 0).map ((h 0).call r.value r.self args) fun v ↦ Reached.mk v _ _

/-- Related machines walk alike. -/
theorem Machine.Related.walk (s : ScopeId) (e : Expr) (links : List Link) :
    R Reached (walk m s e links) (walk m' s e links) :=
  (h 0).bind (start h s e) fun r ↦ foldlM h (take h s) links r

/-- Related machines follow a chain alike, also where it ends early. -/
theorem Machine.Related.follow (s : ScopeId) (e : Expr) (links : List Link) :
    R (Option Reached) (follow m s e links) (follow m' s e links) := by
  refine (h 0).bind (start h s e) fun r ↦ foldlM h (fun reached link ↦ ?_) links (some r)
  cases reached with
  | none => exact (h 0).pure none
  | some r =>
    unfold Chain.advance
    dsimp only
    split
    · exact (h 0).pure none
    · exact (h 0).map (take h s r link) some

end

/-! ### The machine follows chains -/

/-- Whatever the machine does, it does following chains from the left. -/
theorem refines_following (n : Nat) : ∀ size, Machine.Related (fun _ x y ↦ x.Refines y)
    (fun _ ↦ True) size (machineWithin n) (machineWithin n).following := by
  induction n with
  | zero =>
    exact fun size ↦ { machineWithin_refines (Nat.le_refl 0) size with
      link := fun _ _ _ ↦ .of_unfinished _ }
  | succ n ih =>
    intro size
    have hlink (s : ScopeId) (e : Expr) :
        ((machineWithin (n + 1)).link s e).Refines ((machineWithin (n + 1)).following.link s e) := by
      have hchain := (ih _).chainLink s e (Nat.le_refl _)
      rw [chainLink_following] at hchain
      have hfollow := Machine.Related.follow (machineWithin_refines (Nat.le_succ n)) s e e.links
      exact hchain.trans (hfollow.bind fun _ ↦ .refl _)
    exact { machineWithin_refines (Nat.le_refl (n + 1)) size with link := fun s e _ ↦ hlink s e }

/-- Following a chain from the left is what the machine does that nests deeper by the chain's size. -/
theorem following_refines (n k : Nat) : ∀ (s : ScopeId) (e : Expr), SizeOf.sizeOf e ≤ k →
    ((machineWithin n).following.link s e).Refines ((machineWithin (n + k + 1)).link s e) := by
  induction k with
  | zero =>
    intro s e he
    have hrelated : Machine.Related (fun _ x y ↦ x.Refines y) (fun _ ↦ True)
        (2 * SizeOf.sizeOf e + 1) (machineWithin n).following (machineWithin n) :=
      { machineWithin_refines (Nat.le_refl n) _ with link := fun _ _ h ↦ absurd h (by omega) }
    have hchain := hrelated.chainLink s e (Nat.le_refl _)
    rwa [chainLink_following] at hchain
  | succ k ih =>
    intro s e he
    have hrelated : Machine.Related (fun _ x y ↦ x.Refines y) (fun _ ↦ True)
        (2 * SizeOf.sizeOf e + 1) (machineWithin n).following (machineWithin (n + k + 1)) :=
      { machineWithin_refines (by omega : n ≤ n + k + 1) _ with
        link := fun s e h ↦ ih s e (by omega) }
    have hchain := hrelated.chainLink s e (Nat.le_refl _)
    rwa [chainLink_following] at hchain

/-! ### Where chains end early -/

section

variable {m : Machine} {s : ScopeId}

/-- The walk comes to a link that ends the chain. A link with nothing to go on from cannot be walked
over, so it is the first. -/
def Chain.EndsEarly (m : Machine) (s : ScopeId) (e : Expr) (w w₁ : World) : Prop :=
  ∃ before link after r, e.links = before ++ link :: after ∧ walk m s e before w = .ok r w₁ ∧
    r.endsAt link = true

/-- A link that ends a chain cannot be walked over. -/
theorem take_of_nullish {r : Reached} (h : r.value.isNullish = true) (link : Link) {w w' : World}
    (r' : Reached) : take m s r link w ≠ .ok r' w' := by
  intro htake
  cases link with
  | member key o =>
    obtain ⟨k, w₁, -, hrest⟩ := bind_eq_ok htake
    obtain ⟨v, w₂, hget, -⟩ := bind_eq_ok hrest
    cases hv : r.value with
    | undefined | null =>
      rw [hv] at hget
      cases hget
    | _ =>
      rw [hv] at h
      cases h
  | call arguments o =>
    have hf : r.value.isFunction = false := by
      cases hv : r.value with
      | function f =>
        rw [hv] at h
        cases h
      | _ => rfl
    simp only [take, hf] at htake
    cases htake

/-- Once a chain has ended, nothing of it is looked at. -/
theorem foldlM_advance_none (links : List Link) :
    links.foldlM (advance m s) none = pure none := by
  induction links with
  | nil => rfl
  | cons link rest ih =>
    rw [List.foldlM_cons]
    exact (pure_bind _ _).trans ih

/-- A chain that is followed ends early or is walked over. -/
theorem advance_links (links : List Link) : ∀ (r : Reached) (w : World),
    (∃ before link after r' w₁, links = before ++ link :: after ∧
      before.foldlM (take m s) r w = .ok r' w₁ ∧ r'.endsAt link = true ∧
      links.foldlM (advance m s) (some r) w = .ok none w₁) ∨
    links.foldlM (advance m s) (some r) w = (some <$> links.foldlM (take m s) r) w := by
  induction links with
  | nil => exact fun r w ↦ .inr rfl
  | cons link rest ih =>
    intro r w
    by_cases hends : r.endsAt link = true
    · refine .inl ⟨[], link, rest, r, w, rfl, rfl, hends, ?_⟩
      rw [List.foldlM_cons, advance_of_ends hends, pure_bind, foldlM_advance_none]
      rfl
    · have hadvance : (link :: rest).foldlM (advance m s) (some r) =
          take m s r link >>= fun r' ↦ rest.foldlM (advance m s) (some r') := by
        rw [List.foldlM_cons, advance_of_not_ends hends, map_eq_pure_bind, bind_assoc]
        simp only [pure_bind]
      rw [hadvance, List.foldlM_cons, map_bind, Action.bind_apply, Action.bind_apply]
      cases htake : take m s r link w with
      | error e w' => exact .inr rfl
      | ok r₁ w' =>
        obtain ⟨before, link', after, r', w₁, rfl, hwalk, hends', hnone⟩ | hsome := ih r₁ w'
        · refine .inl ⟨link :: before, link', after, r', w₁, rfl, ?_, hends', hnone⟩
          rw [List.foldlM_cons, Action.bind_apply, htake]
          exact hwalk
        · exact .inr hsome

/-- Links that can be walked over do not end the chain. -/
theorem advance_of_walk {links : List Link} {r r' : Reached} {w w' : World}
    (h : links.foldlM (take m s) r w = .ok r' w') :
    links.foldlM (advance m s) (some r) w = .ok (some r') w' := by
  obtain ⟨before, link, after, r₁, w₁, rfl, hwalk, hends, -⟩ | hsome := advance_links links r w
  · rw [List.foldlM_append, Action.bind_apply, hwalk] at h
    dsimp only at h
    rw [List.foldlM_cons] at h
    obtain ⟨r₂, w₂, htake, -⟩ := bind_eq_ok h
    exact absurd htake (take_of_nullish (Bool.and_eq_true_iff.1 hends).2 link r₂)
  · rw [hsome, map_eq_pure_bind, Action.bind_apply, h]
    rfl

/-- A chain is followed to nothing where it ends early, and otherwise to where it is walked. -/
theorem follow_of_endsEarly {e : Expr} {w w₁ : World} (h : EndsEarly m s e w w₁) :
    follow m s e e.links w = .ok none w₁ := by
  obtain ⟨before, link, after, r, hlinks, hwalk, hends⟩ := h
  obtain ⟨r₀, w₀, hstart, hbefore⟩ := bind_eq_ok hwalk
  unfold follow
  rw [Action.bind_apply, hstart]
  dsimp only
  rw [hlinks, List.foldlM_append, Action.bind_apply, advance_of_walk hbefore]
  dsimp only
  rw [List.foldlM_cons, advance_of_ends hends, pure_bind, foldlM_advance_none]
  rfl

/-- A chain ends early, or it is walked like one without marks. -/
theorem follow_cases (m : Machine) (s : ScopeId) (e : Expr) (w : World) :
    (∃ w₁, EndsEarly m s e w w₁) ∨
      follow m s e e.links w = (some <$> walk m s e e.links) w := by
  unfold follow walk
  rw [map_bind, Action.bind_apply, Action.bind_apply]
  cases hstart : start m s e w with
  | error e w' => exact .inr rfl
  | ok r₀ w₀ =>
    obtain ⟨before, link, after, r, w₁, hlinks, hwalk, hends, -⟩ | hsome :=
      advance_links e.links r₀ w₀
    · refine .inl ⟨w₁, before, link, after, r, hlinks, ?_, hends⟩
      unfold walk
      rw [Action.bind_apply, hstart]
      exact hwalk
    · exact .inr hsome

/-! ### Chains without marks -/

/-- Taking the marks away keeps the links. -/
theorem links_plain (e : Expr) : e.plain.links = e.links.map Link.plain := by
  fun_induction Expr.plain e with
  | case1 receiver key o ih => simp [Expr.links, ih, Link.plain]
  | case2 target arguments o ih => simp [Expr.links, ih, Link.plain]
  | case3 e hmember hcall =>
    cases e with
    | member receiver key o => exact (hmember receiver key o rfl).elim
    | call target arguments o => exact (hcall target arguments o rfl).elim
    | _ => rfl

/-- Taking the marks away keeps what the chain begins with. -/
theorem base_plain (e : Expr) : e.plain.base = e.base := by
  fun_induction Expr.plain e with
  | case1 receiver key o ih => exact ih
  | case2 target arguments o ih => exact ih
  | case3 => rfl

/-- Marks make no difference to a walk. -/
theorem walk_plain (e : Expr) : walk m s e.plain e.plain.links = walk m s e e.links := by
  have htake (r : Reached) (link : Link) : take m s r link.plain = take m s r link := by
    cases link <;> rfl
  unfold walk start
  rw [links_plain, base_plain]
  simp only [List.foldlM_map, htake]

/-- Nothing ends a chain without marks. -/
theorem follow_plain (e : Expr) :
    follow m s e.plain e.plain.links = some <$> walk m s e e.links := by
  funext w
  obtain ⟨w₁, before, link, after, r, hlinks, -, hends⟩ | hsome := follow_cases m s e.plain w
  · have hmem : link ∈ e.links.map Link.plain := by
      rw [← links_plain, hlinks]
      simp
    obtain ⟨marked, -, rfl⟩ := List.mem_map.1 hmem
    simp [Reached.endsAt] at hends
  · rw [hsome, walk_plain]

end

/-! ### Runs under some bound -/

/-- Under some bound on nesting, and then under every larger one, the run comes to this end. Whatever
comes to an end on the machine does so in this sense. -/
def Comes {α : Type} (run : Machine → Action α) (w : World) (r : Outcome α) : Prop :=
  Finished r ∧ ∃ n, run (machineWithin n) w = r

/-- What is run with some fuel is also run by what refines it. -/
theorem Comes.of_refines {α : Type} {run run' : Machine → Action α} {w : World} {r : Outcome α}
    (h : Comes run w r)
    (hrun : ∀ n, ∃ n', (run (machineWithin n)).Refines (run' (machineWithin n'))) :
    Comes run' w r := by
  obtain ⟨hfinished, n, rfl⟩ := h
  obtain ⟨n', hrefines⟩ := hrun n
  exact ⟨hfinished, n', hrefines w hfinished⟩

/-- The value of a chain that leads somewhere, as an entry of its own. -/
def Chain.result (m : Machine) (x : Action (Option Value)) : Action Value :=
  m.nested ((Option.getD · .undefined) <$> x)

theorem Action.Refines.result {n n' : Nat} {x y : Action (Option Value)} (h : x.Refines y) :
    (Chain.result (machineWithin n) x).Refines (Chain.result (machineWithin n') y) := by
  unfold Chain.result Machine.nested
  rw [map_eq_pure_bind, map_eq_pure_bind]
  exact .bind (.refl _) fun _ ↦ .entering (h.bind fun _ ↦ .refl _)

section

variable {s : ScopeId} {e : Expr} {w : World} {r : Outcome Value}

/-- A chain comes to what following its links comes to. -/
theorem comes_chain_iff : Comes (fun m ↦ m.eval s (.chain e)) w r ↔
    Comes (fun m ↦ result m (m.following.link s e)) w r := by
  have hchain (n : Nat) : (machineWithin (n + 1)).eval s (.chain e) =
      result (machineWithin n) ((machineWithin n).link s e) := by
    unfold result
    rw [map_eq_pure_bind]
    rfl
  constructor
  · refine fun h ↦ h.of_refines fun n ↦ ⟨n, ?_⟩
    cases n with
    | zero => exact .of_unfinished _
    | succ n =>
      have hlink := (refines_following (n + 1) _).link s e (Nat.lt_succ_self _)
      have hmono := (machineWithin_refines (Nat.le_succ n) _).link s e (Nat.lt_succ_self _)
      rw [hchain]
      exact (hmono.trans hlink).result
  · refine fun h ↦ h.of_refines fun n ↦ ⟨n + SizeOf.sizeOf e + 2, ?_⟩
    have hlink := following_refines n _ s e (Nat.le_refl _)
    rw [hchain]
    exact hlink.result

/-- So does a chain without marks. -/
theorem comes_plain_iff (he : e.links ≠ []) : Comes (fun m ↦ m.eval s e.plain) w r ↔
    Comes (fun m ↦ result m (m.following.link s e.plain)) w r := by
  have hplain (n : Nat) : (machineWithin (n + 1)).eval s e.plain =
      result (machineWithin n) ((machineWithin (n + 1)).link s e.plain) := by
    unfold result
    rw [map_eq_pure_bind]
    cases e with
    | member receiver key o => rfl
    | call target arguments o => rfl
    | _ => exact absurd rfl he
  constructor
  · refine fun h ↦ h.of_refines fun n ↦ ⟨n, ?_⟩
    cases n with
    | zero => exact .of_unfinished _
    | succ n =>
      have hlink := (refines_following (n + 1) _).link s e.plain (Nat.lt_succ_self _)
      rw [hplain]
      exact hlink.result
  · refine fun h ↦ h.of_refines fun n ↦ ⟨n + SizeOf.sizeOf e.plain + 1, ?_⟩
    have hlink := following_refines n _ s e.plain (Nat.le_refl _)
    rw [hplain]
    exact hlink.result

/-- Without marks, a chain has the value that it is walked to. -/
theorem result_plain (m : Machine) : result m (m.following.link s e.plain) =
    m.nested (Reached.value <$> walk m s e e.links) := by
  unfold result
  rw [link_following, follow_plain]
  simp [Functor.map_map]

/-- A chain that ends early gives `undefined`. -/
theorem result_of_endsEarly {n : Nat} {w₁ : World} (hroom : w.run.hasRoom)
    (h : EndsEarly (machineWithin n) s e w.enter w₁) :
    result (machineWithin n) ((machineWithin n).following.link s e) w =
      .ok .undefined w₁.leave := by
  unfold result
  rw [nested_of_hasRoom n _ hroom, link_following, Functor.map_map, map_eq_pure_bind,
    Action.bind_apply, follow_of_endsEarly h]
  rfl

theorem Action.map_apply_congr {α β : Type} (f : α → β) {x y : Action α} {w : World}
    (h : x w = y w) : (f <$> x) w = (f <$> y) w := by
  rw [map_eq_pure_bind, map_eq_pure_bind, Action.bind_apply, Action.bind_apply, h]

/-- Without room, a chain is refused as the chain without marks is. -/
theorem result_of_not {n : Nat} (hroom : ¬w.run.hasRoom) :
    result (machineWithin n) ((machineWithin n).following.link s e) w =
      result (machineWithin n) ((machineWithin n).following.link s e.plain) w := by
  unfold result
  rw [nested_of_not n _ hroom, nested_of_not n _ hroom]

/-- A chain that does not end early is what the chain without marks is. -/
theorem result_of_follow {n : Nat} (h : follow (machineWithin n) s e e.links w.enter =
      (some <$> walk (machineWithin n) s e e.links) w.enter) :
    result (machineWithin n) ((machineWithin n).following.link s e) w =
      result (machineWithin n) ((machineWithin n).following.link s e.plain) w := by
  by_cases hroom : w.run.hasRoom
  · rw [← follow_plain] at h
    unfold result
    rw [nested_of_hasRoom n _ hroom, nested_of_hasRoom n _ hroom, link_following, link_following,
      Action.map_apply_congr _ (Action.map_apply_congr _ h)]
  · exact result_of_not hroom

/-- A chain that comes to a result has been followed to some end. -/
theorem finished_of_result {n : Nat} (hroom : w.run.hasRoom)
    (h : Finished (result (machineWithin n) ((machineWithin n).following.link s e) w)) :
    Finished (follow (machineWithin n) s e e.links w.enter) := by
  unfold result at h
  rw [nested_of_hasRoom n _ hroom, link_following, Functor.map_map, map_eq_pure_bind,
    Action.bind_apply] at h
  have hinner := h.of_mapWorld
  cases hfollow : follow (machineWithin n) s e e.links w.enter with
  | ok reached w₁ => exact trivial
  | error e w₁ =>
    rw [hfollow] at hinner
    exact hinner.of_error

/-- A chain that is walked over under one bound on nesting does not end early under another. -/
theorem not_endsEarly {n : Nat}
    (hfinished : Finished (follow (machineWithin n) s e e.links w))
    (hwalk : follow (machineWithin n) s e e.links w =
      (some <$> walk (machineWithin n) s e e.links) w) (n' : Nat) (w₁ : World) :
    ¬EndsEarly (machineWithin n') s e w w₁ := by
  intro h
  have hnone := follow_of_endsEarly h
  have hfollow := Machine.Related.follow (machineWithin_refines (Nat.le_max_left n n')) s e e.links
    w hfinished
  have hfollow' := Machine.Related.follow (machineWithin_refines (Nat.le_max_right n n')) s e e.links
    w (by rw [hnone]; trivial)
  rw [hfollow', hnone, hwalk, map_eq_pure_bind, Action.bind_apply] at hfollow
  cases hw : walk (machineWithin n) s e e.links w with
  | ok r w₂ =>
    rw [hw] at hfollow
    cases hfollow
  | error f w₂ =>
    rw [hw] at hfollow
    cases hfollow

end

/-- A chain of members, computed members and calls is evaluated from the left: its base, and then link
by link each key and each list of arguments. It ends at the first link marked optional that finds
`undefined` or `null` to go on from: it is then `undefined`, in the world in which the walk came to that
link, whatever stands to the right of the mark. A chain that does not end so is what the same chain
without marks is, with all effects and errors, and that is its walk, in which every call is given what
its function was read from. A chain is an entry of its own, and is not walked without room for it. -/
theorem optional_chain_expands (s : ScopeId) (e : Expr) (he : e.links ≠ []) (w : World)
    (r : Outcome Value) :
    (Comes (fun m ↦ m.eval s (.chain e)) w r ↔
      (∃ n w₁, w.run.hasRoom ∧ EndsEarly (machineWithin n) s e w.enter w₁ ∧
        r = .ok .undefined w₁.leave) ∨
      (¬∃ n w₁, w.run.hasRoom ∧ EndsEarly (machineWithin n) s e w.enter w₁) ∧
        Comes (fun m ↦ m.eval s e.plain) w r) ∧
    (Comes (fun m ↦ m.eval s e.plain) w r ↔
      Comes (fun m ↦ m.nested (Reached.value <$> walk m s e e.links)) w r) := by
  refine ⟨⟨fun h ↦ ?_, fun h ↦ ?_⟩, ?_⟩
  · obtain ⟨hfinished, n, hn⟩ := comes_chain_iff.1 h
    by_cases hroom : w.run.hasRoom
    · obtain ⟨w₁, hearly⟩ | hwalk := follow_cases (machineWithin n) s e w.enter
      · exact .inl ⟨n, w₁, hroom, hearly, hn.symm.trans (result_of_endsEarly hroom hearly)⟩
      · have hfollow := finished_of_result hroom (hn.symm ▸ hfinished)
        refine .inr ⟨?_, (comes_plain_iff he).2 ⟨hfinished, n, ?_⟩⟩
        · rintro ⟨n', w₁, -, hearly⟩
          exact not_endsEarly hfollow hwalk n' w₁ hearly
        · exact (result_of_follow hwalk).symm.trans hn
    · refine .inr ⟨?_, (comes_plain_iff he).2 ⟨hfinished, n, ?_⟩⟩
      · rintro ⟨_, _, h, -⟩
        exact hroom h
      · exact (result_of_not hroom).symm.trans hn
  · obtain ⟨n, w₁, hroom, hearly, rfl⟩ | ⟨hnot, hplain⟩ := h
    · exact comes_chain_iff.2 ⟨trivial, n, result_of_endsEarly hroom hearly⟩
    · obtain ⟨hfinished, n, hn⟩ := (comes_plain_iff he).1 hplain
      by_cases hroom : w.run.hasRoom
      · obtain ⟨w₁, hearly⟩ | hwalk := follow_cases (machineWithin n) s e w.enter
        · exact absurd ⟨n, w₁, hroom, hearly⟩ hnot
        · exact comes_chain_iff.2 ⟨hfinished, n, (result_of_follow hwalk).trans hn⟩
      · exact comes_chain_iff.2 ⟨hfinished, n, (result_of_not hroom).trans hn⟩
  · simp only [comes_plain_iff he, result_plain]

/-- `null?.f(missing)`. -/
def Chain.ofNull : Expr :=
  .call (.member (.literal .null) (.fixed "f") true) [.value (.name "missing")] false

/-- The argument of a chain that ends at its base is not looked up. -/
theorem optional_chain_expands_ofNull : Chain.ofNull.links ≠ [] ∧
    Comes (fun m ↦ m.eval ⟨0⟩ (.chain Chain.ofNull)) ⟨Heap.empty, Run.start .standard .undefined⟩
      (.ok .undefined ⟨Heap.empty, Run.start .standard .undefined⟩) := by
  have hlinks : Chain.ofNull.links ≠ [] := by simp [Chain.ofNull, Expr.links]
  have hearly : EndsEarly (machineWithin 1) ⟨0⟩ Chain.ofNull
      (World.enter ⟨Heap.empty, Run.start .standard .undefined⟩)
      (World.enter ⟨Heap.empty, Run.start .standard .undefined⟩) :=
    ⟨[], .member (.fixed "f") true, [.call [.value (.name "missing")] false],
      ⟨.null, .undefined, "expression"⟩, rfl, rfl, rfl⟩
  exact ⟨hlinks, (optional_chain_expands ⟨0⟩ Chain.ofNull hlinks _ _).1.2 (.inl ⟨1, _, rfl, hearly, rfl⟩)⟩

end Nodecraft.Sandbox
