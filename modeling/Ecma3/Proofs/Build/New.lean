import Ecma3.Proofs.Build.Limit
import Ecma3.Proofs.Build.Outcome
import Ecma3.Proofs.ParseTree.Chain

/-! What is built from a chain that begins with `new`. -/
namespace Ecma3

/-- A suffix whose parts are built. -/
inductive Link where
  | field (name : String) (span : Span)
  | index (index : Node) (span : Span)
  | call (arguments : List Node) (span : Span)

namespace Link

variable {base : Node} {l : Link} {links before after : List Link}

def isCall : Link → Bool
  | call .. => true
  | _ => false

def span : Link → Span
  | field _ span | index _ span | call _ span => span

/-- The node of a link that applies to an object. -/
def onto (object : Node) : Link → Node
  | field name span => .memberAccess object name span
  | index node span => .indexAccess object node span
  | call arguments span => .call object arguments span

/-- The node of a link at which a `new` comes out: a call gives it its arguments, and any other
link is part of what it constructs. -/
def newOnto (object : Node) : Link → Node
  | call arguments span => .new object (some arguments) span
  | link => .new (onto object link) none link.span

/-- The node of links that apply one after the other. -/
def chain (base : Node) (links : List Link) : Node := links.foldl onto base

/-- The first call, with the links before it and after it. -/
def firstCall? : List Link → Option (List Link × (List Node × Span) × List Link)
  | [] => none
  | .call arguments span :: rest => some ([], (arguments, span), rest)
  | link :: rest =>
    (firstCall? rest).map fun (before, found, after) => (link :: before, found, after)

theorem firstCall?_eq_none : firstCall? links = none ↔ ∀ l ∈ links, l.isCall = false := by
  induction links with
  | nil => simp [firstCall?]
  | cons l links ih => cases l <;> simp [firstCall?, isCall, ih]

theorem firstCall?_eq_some {arguments : List Node} {span : Span}
    (h : firstCall? links = some (before, (arguments, span), after)) :
    links = before ++ .call arguments span :: after ∧ ∀ k ∈ before, k.isCall = false := by
  induction links generalizing before with
  | nil => cases h
  | cons l links ih =>
    cases l with
    | call =>
      cases h
      exact ⟨rfl, by simp⟩
    | _ =>
      obtain ⟨⟨front, found, rest⟩, hfound, he⟩ := Option.map_eq_some_iff.1 h
      cases he
      obtain ⟨rfl, hfront⟩ := ih hfound
      exact ⟨rfl, List.forall_mem_cons.2 ⟨rfl, hfront⟩⟩

theorem firstCall?_append_of_none (after : List Link) (h : firstCall? before = none) :
    firstCall? (before ++ after) = (firstCall? after).map fun (b, c, a) => (before ++ b, c, a) := by
  induction before with
  | nil => simp
  | cons l before ih =>
    cases l with
    | call => simp [firstCall?] at h
    | _ =>
      simp only [firstCall?, Option.map_eq_none_iff] at h
      simp only [List.cons_append, firstCall?, ih h, Option.map_map]
      rfl

theorem firstCall?_append_of_some {found : List Link × (List Node × Span) × List Link}
    (h : firstCall? before = some found) :
    firstCall? (before ++ after) = some (found.1, found.2.1, found.2.2 ++ after) := by
  induction before generalizing found with
  | nil => simp [firstCall?] at h
  | cons l before ih =>
    cases l with
    | call =>
      cases h
      simp [firstCall?]
    | _ =>
      simp only [firstCall?, Option.map_eq_some_iff] at h
      obtain ⟨inner, hinner, rfl⟩ := h
      simp [firstCall?, ih hinner]

theorem chain_concat : chain base (links ++ [l]) = l.onto (chain base links) := by
  simp [chain]

end Link

namespace Build
open ParseTree

variable {limit levels : Nat} {tree object : ParseTree} {base ast : Node} {l : Link}
  {links : List Link} {place : Span} {places : List Span} {suffixes : List Suffix}

/-- Each `new` takes the first call in the chain around it and hands what is before that call on to
the `new` inside it. Without a call it goes around the whole chain. -/
def outerFirst (base : Node) : List Span → List Link → Node
  | [], links => Link.chain base links
  | place :: places, links =>
    match Link.firstCall? links with
    | some (before, (arguments, span), after) =>
      Link.chain (.new (outerFirst base places before) (some arguments) span) after
    | none =>
      match links.getLast? with
      | some last => .new (last.onto (outerFirst base places links.dropLast)) none last.span
      | none => .new (outerFirst base places []) none place

/-- The same parts, put together from the innermost `new` on: each takes what is left up to the
first call, and without a call all that is left. -/
def innerFirst (base : Node) : List Span → List Link → Node
  | [], links => Link.chain base links
  | place :: places, links =>
    match Link.firstCall? links with
    | some (before, (arguments, _), after) =>
      innerFirst (.new (Link.chain base before) (some arguments) place) places after
    | none => innerFirst (.new (Link.chain base links) none place) places []

/-- The suffix with its parts built on their own. -/
def link (limit : Nat) : Suffix → Except BuildError Link
  | .field name _ span => return .field name span
  | .index index span => return .index (← node limit index none) span
  | .call arguments _ span => return .call (← all (node limit) arguments) span

/-- A link after a call, or with no `new` left, goes around everything before it. -/
theorem outerFirst_concat (h : places = [] ∨ ¬∀ k ∈ links, k.isCall = false) :
    outerFirst base places (links ++ [l]) = l.onto (outerFirst base places links) := by
  cases places with
  | nil => exact Link.chain_concat
  | cons place places =>
    cases hfirst : Link.firstCall? links with
    | none => exact absurd (Link.firstCall?_eq_none.1 hfirst) (h.resolve_left (by simp))
    | some found =>
      simp only [outerFirst, Link.firstCall?_append_of_some hfirst, hfirst, Link.chain_concat]

/-- The first `new` comes out at the last link unless a call is before it. -/
theorem outerFirst_new (h : ∀ k ∈ links, k.isCall = false) :
    outerFirst base (place :: places) (links ++ [l]) =
      l.newOnto (outerFirst base places links) := by
  have hnone := Link.firstCall?_append_of_none [l] (Link.firstCall?_eq_none.2 h)
  cases l <;> simp [outerFirst, hnone, Link.firstCall?, Link.newOnto, Link.chain]

/-! One level of the builder. -/

/-- The tree without a `new` at its base, and whether it had one. -/
def detached (tree : ParseTree) : ParseTree × Bool :=
  match tree.withoutNew? with
  | none => (tree, false)
  | some d => (d.tree, true)

theorem detach_eq (tree : ParseTree) :
    (detach tree : Except BuildError (ParseTree × Bool)) = pure (detached tree) := by
  rw [ParseTree.detach_eq_withoutNew?, detached]
  cases tree.withoutNew? <;> rfl

theorem within_succ :
    (within limit (levels + 1) tree none : Except BuildError Node) =
      construct (within limit levels) tree none := rfl

/-- What is built inside is what would be built on its own. -/
theorem node_of_within {label : Option String} (hlevels : levels ≤ limit)
    (h : (within limit levels tree label : Except BuildError Node) = .ok ast) :
    (node limit tree label : Except BuildError Node) = .ok ast :=
  within_ok hlevels h

theorem all_of_within {trees : List ParseTree} {nodes : List Node} (hlevels : levels ≤ limit)
    (h : (all (within limit levels) trees : Except BuildError (List Node)) = .ok nodes) :
    (all (node limit) trees : Except BuildError (List Node)) = .ok nodes :=
  ((Under.correspondence limit).rel_all (fun t label => under_within hlevels limit t label) trees).ok h

/-- What comes of the outermost link of a chain. -/
theorem node_of_moved {moved : Bool} {node : Node}
    (h : (if moved then pure (l.newOnto node) else pure (l.onto node) : Except BuildError Node) =
      Except.ok ast) :
    ast = if moved then l.newOnto node else l.onto node := by
  cases moved <;> cases h <;> rfl

/-- The outermost suffix of a chain, at which a `new` inside may come out. -/
theorem within_suffixed {s : Suffix} (hlevels : levels ≤ limit)
    (h : (within limit (levels + 1) (suffixed object s) none : Except BuildError Node) =
      .ok ast) :
    ∃ inner l, (within limit levels (detached object).1 none : Except BuildError Node) = .ok inner ∧
      link limit s = .ok l ∧
      ast = if (detached object).2 then l.newOnto inner else l.onto inner := by
  rw [within_succ] at h
  cases s with
  | field name nameSpan span =>
    have h : (access (within limit levels) (suffixed object (.field name nameSpan span)) :
        Except BuildError Node) = .ok ast := h
    simp only [access, suffixed, group, child, detach_eq, List.getElem?_cons_zero,
      List.getElem?_cons_succ, pure_bind, ↓reduceIte] at h
    obtain ⟨inner, hinner, h⟩ := bind_eq_ok h
    exact ⟨inner, .field name span, hinner, rfl, node_of_moved h⟩
  | index index span =>
    have h : (access (within limit levels) (suffixed object (.index index span)) :
        Except BuildError Node) = .ok ast := h
    simp only [access, suffixed, group, child, detach_eq, List.getElem?_cons_zero,
      List.getElem?_cons_succ, pure_bind, reduceCtorEq, ↓reduceIte] at h
    obtain ⟨inner, hinner, h⟩ := bind_eq_ok h
    obtain ⟨key, hkey, h⟩ := bind_eq_ok h
    refine ⟨inner, .index key span, hinner, ?_, node_of_moved h⟩
    simp only [link, node_of_within hlevels hkey]
    rfl
  | call arguments argumentsSpan span =>
    have h : (call (within limit levels) (suffixed object (.call arguments argumentsSpan span)) :
        Except BuildError Node) = .ok ast := h
    simp only [call, suffixed, group, child, detach_eq, Build.arguments, List.getElem?_cons_zero,
      List.getElem?_cons_succ, pure_bind, ↓reduceIte] at h
    obtain ⟨nodes, hnodes, h⟩ := bind_eq_ok h
    obtain ⟨inner, hinner, h⟩ := bind_eq_ok h
    refine ⟨inner, .call nodes span, hinner, ?_, node_of_moved h⟩
    simp only [link, all_of_within hlevels hnodes]
    rfl

/-- What is taken out from under a chain of suffixes: the outermost `new`, unless there is none or a
call stands in between. -/
theorem detached_chain_stays (hbase : tree.withoutNew? = none)
    (h : places = [] ∨ ¬∀ s ∈ suffixes, s.isCall = false) :
    detached (chain (news places tree) suffixes) = (chain (news places tree) suffixes, false) := by
  have hnone : (chain (news places tree) suffixes).withoutNew? = none := by
    refine withoutNew?_chain_none ?_
    rcases h with rfl | h
    · exact Or.inl hbase
    · exact Or.inr (by simpa using h)
  simp [detached, hnone]

theorem detached_chain_moves (h : ∀ s ∈ suffixes, s.isCall = false) :
    detached (chain (news (place :: places) tree) suffixes) =
      (chain (news places tree) suffixes, true) := by
  simp [detached, withoutNew?_chain_access h]

theorem link_isCall {s : Suffix} (h : link limit s = .ok l) : l.isCall = s.isCall := by
  cases s with
  | field name nameSpan span =>
    cases h
    rfl
  | index index span =>
    obtain ⟨key, -, h⟩ := bind_eq_ok h
    cases h
    rfl
  | call arguments argumentsSpan span =>
    obtain ⟨nodes, -, h⟩ := bind_eq_ok h
    cases h
    rfl

/-- Links are calls where their suffixes are. -/
theorem links_isCall (h : suffixes.mapM (link limit) = .ok links) :
    links.map Link.isCall = suffixes.map Suffix.isCall := by
  induction suffixes generalizing links with
  | nil =>
    cases h
    rfl
  | cons s suffixes ih =>
    rw [List.mapM_cons] at h
    obtain ⟨l, hl, h⟩ := bind_eq_ok h
    obtain ⟨rest, hrest, h⟩ := bind_eq_ok h
    cases h
    simp [link_isCall hl, ih hrest]

theorem links_plain (h : suffixes.mapM (link limit) = .ok links) :
    (∀ k ∈ links, k.isCall = false) ↔ ∀ s ∈ suffixes, s.isCall = false := by
  have hcalls := links_isCall h
  rw [← List.forall_mem_map (P := fun b => b = false), hcalls, List.forall_mem_map]

theorem mapM_link_concat {s : Suffix} (hlinks : suffixes.mapM (link limit) = .ok links)
    (hl : link limit s = .ok l) :
    (suffixes ++ [s]).mapM (link limit) = .ok (links ++ [l]) := by
  rw [List.mapM_append, List.mapM_cons, List.mapM_nil, hlinks, hl]
  rfl

/-- A chain on some `new` before a base that holds no other. -/
theorem within_chain (hbase : tree.withoutNew? = none) (hlevels : levels ≤ limit)
    (h : (within limit levels (chain (news places tree) suffixes) none : Except BuildError Node) =
      .ok ast) :
    ∃ base links, (node limit tree none : Except BuildError Node) = .ok base ∧
      suffixes.mapM (link limit) = .ok links ∧ ast = outerFirst base places links := by
  induction levels generalizing places suffixes ast with
  | zero => cases h
  | succ levels ih =>
    have hle : levels ≤ limit := by omega
    rcases suffixes.eq_nil_or_concat with rfl | ⟨init, s, rfl⟩
    · cases places with
      | nil => exact ⟨ast, [], node_of_within hlevels h, rfl, rfl⟩
      | cons place places =>
        rw [within_succ] at h
        have h : (new (within limit levels) (newOf place (news places tree)) :
          Except BuildError Node) = .ok ast := h
        simp only [new, newOf, child, List.getElem?_cons_zero, pure_bind] at h
        obtain ⟨inner, hinner, h⟩ := bind_eq_ok h
        cases h
        have hinner : (within limit levels (chain (news places tree) []) none :
          Except BuildError Node) = .ok inner := hinner
        obtain ⟨base, links, hnode, hlinks, rfl⟩ := ih hle hinner
        cases hlinks
        exact ⟨base, [], hnode, rfl, rfl⟩
    · rw [List.concat_eq_append, chain_concat] at h
      obtain ⟨inner, l, hinner, hl, rfl⟩ := within_suffixed hle h
      by_cases hplain : places = [] ∨ ¬∀ s ∈ init, s.isCall = false
      · rw [detached_chain_stays hbase hplain] at hinner ⊢
        obtain ⟨base, links, hnode, hlinks, rfl⟩ := ih hle hinner
        refine ⟨base, links ++ [l], hnode, ?_, ?_⟩
        · rw [List.concat_eq_append]
          exact mapM_link_concat hlinks hl
        · rw [← links_plain hlinks] at hplain
          exact (outerFirst_concat hplain).symm
      · obtain ⟨place, places, rfl⟩ := List.exists_cons_of_ne_nil fun hnil => hplain (Or.inl hnil)
        have hinit : ∀ s ∈ init, s.isCall = false := by simpa using hplain
        rw [detached_chain_moves hinit] at hinner ⊢
        obtain ⟨base, links, hnode, hlinks, rfl⟩ := ih hle hinner
        refine ⟨base, links ++ [l], hnode, ?_, ?_⟩
        · rw [List.concat_eq_append]
          exact mapM_link_concat hlinks hl
        · exact (outerFirst_new ((links_plain hlinks).2 hinit)).symm

/-! The two ways to put a chain together. -/

/-- How many links there are outside the first node that is none. -/
def linksOutside : Node → Nat
  | .memberAccess object _ _ => linksOutside object + 1
  | .indexAccess object _ _ => linksOutside object + 1
  | .call callee _ _ => linksOutside callee + 1
  | _ => 0

theorem linksOutside_chain :
    linksOutside (Link.chain base links) = linksOutside base + links.length := by
  induction links generalizing base with
  | nil => rfl
  | cons l links ih =>
    have hstep : Link.chain base (l :: links) = Link.chain (l.onto base) links := rfl
    rw [hstep, ih, List.length_cons]
    cases l <;> simp only [Link.onto, linksOutside] <;> omega

theorem linksOutside_innerFirst (places : List Span) (links : List Link)
    (h : linksOutside base = 0) :
    linksOutside (innerFirst base places links) ≤ links.length := by
  induction places generalizing base links with
  | nil => simp [innerFirst, linksOutside_chain, h]
  | cons place places ih =>
    simp only [innerFirst]
    split
    · rename_i before arguments span after hfirst
      obtain ⟨rfl, -⟩ := Link.firstCall?_eq_some hfirst
      have hafter : linksOutside (innerFirst (.new (Link.chain base before) (some arguments) place)
          places after) ≤ after.length := ih after rfl
      simp only [List.length_append, List.length_cons]
      omega
    · exact Nat.le_trans (ih [] rfl) (Nat.zero_le _)

/-- Once all links are taken, the `new` that are left go around without arguments. -/
theorem innerFirst_nil_concat :
    innerFirst base (places ++ [place]) [] = .new (innerFirst base places []) none place := by
  induction places generalizing base with
  | nil => rfl
  | cons other places ih => exact ih

theorem innerFirst_nil_new (base : Node) (place : Span) (places : List Span) :
    ∃ callee p, innerFirst (.new base none place) places [] = .new callee none p := by
  induction places generalizing base place with
  | nil => exact ⟨_, _, rfl⟩
  | cons other places ih => exact ih _ _

/-- With a second `new` around it, the outermost `new` has another one as what it constructs. -/
theorem innerFirst_nil_of_ne (base : Node) (place : Span) (h : places ≠ []) :
    ∃ callee p q,
      innerFirst (.new base none place) places [] = .new (.new callee none p) none q := by
  rcases places.eq_nil_or_concat with rfl | ⟨init, last, rfl⟩
  · exact absurd rfl h
  · obtain ⟨callee, p, hinner⟩ := innerFirst_nil_new base place init
    exact ⟨callee, p, last, by rw [List.concat_eq_append, innerFirst_nil_concat, hinner]⟩

theorem outerFirst_nil : outerFirst base places [] = innerFirst base places.reverse [] := by
  induction places with
  | nil => rfl
  | cons place places ih =>
    rw [List.reverse_cons, innerFirst_nil_concat, ← ih]
    rfl

/-- Two or more `new` come out differently as soon as anything follows them. -/
theorem outerFirst_ne_innerFirst {others : List Span} (hlength : 2 ≤ places.length)
    (hothers : others.length = places.length) (hlinks : links ≠ []) :
    outerFirst base places links ≠ innerFirst base others links := by
  obtain ⟨place, places, rfl⟩ := List.exists_cons_of_length_pos (show 0 < places.length by omega)
  obtain ⟨first, others, rfl⟩ := List.exists_cons_of_length_pos (show 0 < others.length by omega)
  obtain ⟨second, rest, rfl⟩ := List.exists_cons_of_length_pos
    (show 0 < others.length by simp only [List.length_cons] at hlength hothers; omega)
  intro heq
  cases hfirst : Link.firstCall? links with
  | none =>
    obtain ⟨last, hlast⟩ : ∃ last, links.getLast? = some last :=
      Option.isSome_iff_exists.1 (by simpa using hlinks)
    obtain ⟨callee, p, q, hnew⟩ := innerFirst_nil_of_ne (Link.chain base links) first
      (List.cons_ne_nil second rest)
    simp only [outerFirst, innerFirst, hfirst, hlast] at heq hnew
    rw [hnew] at heq
    cases last <;> cases heq
  | some found =>
    obtain ⟨before, ⟨arguments, span⟩, after⟩ := found
    simp only [outerFirst, innerFirst, hfirst] at heq
    have houtside := congrArg linksOutside heq
    rw [linksOutside_chain] at houtside
    simp only [linksOutside, Nat.zero_add] at houtside
    cases hafter : Link.firstCall? after with
    | none =>
      rw [hafter] at heq houtside
      dsimp only at heq houtside
      obtain ⟨callee, p, hnew⟩ := innerFirst_nil_new
        (Link.chain (.new (Link.chain base before) (some arguments) first) after) second rest
      rw [hnew] at heq houtside
      obtain rfl := List.length_eq_zero_iff.1 houtside
      cases heq
    | some next =>
      obtain ⟨between, ⟨arguments', span'⟩, last⟩ := next
      rw [hafter] at houtside
      dsimp only at houtside
      have hnew : linksOutside (.new (Link.chain (.new (Link.chain base before) (some arguments)
          first) between) (some arguments') second) = 0 := rfl
      have hle := linksOutside_innerFirst rest last hnew
      obtain ⟨rfl, -⟩ := Link.firstCall?_eq_some hafter
      simp only [List.length_append, List.length_cons] at houtside
      omega

end Build
end Ecma3
