import Ecma3.Proofs.Build.Program
import Ecma3.Proofs.Build.New
import Ecma3.Proofs.Grammar.New

/-! What `new` constructs, from the source to the syntax tree. -/
namespace Ecma3
open Build ParseTree

variable {limit parseLimit buildLimit k : Nat} {source : String} {e : ParseTree} {nodes : List Node}

/-- The parts of an expression that begins with so many `new`: the primary expression after them
and the suffixes after that, with what each is built into on its own. Their words are those of the
source behind the `new`. -/
structure NewChain (source : String) (limit k : Nat) (e : ParseTree) where
  places : List Span
  primary : ParseTree
  suffixes : List Suffix
  base : Node
  links : List Link
  count : places.length = k
  tree : e = chain (news places primary) suffixes
  isPrimary : primary.Binds 17
  follow : Grammar.FollowNews source k (primary.atoms ++ suffixes.flatMap suffixAtoms)
  baseBuilt : (node limit primary none : Except BuildError Node) = .ok base
  linksBuilt : suffixes.mapM (link limit) = .ok links

/-- What an expression on its own is built into is what its statement is built into. -/
theorem node_of_program
    (h : (program limit (some (wrap .expression e)) : Except BuildError (List Node)) = .ok nodes) :
    ∃ levels ast, levels ≤ limit ∧ (within limit levels e none : Except BuildError Node) = .ok ast ∧
      nodes = [ast] := by
  simp only [program, wrap, group, reduceCtorEq, ↓reduceIte] at h
  obtain ⟨ast, hast, h⟩ := bind_eq_ok h
  cases h
  unfold node at hast
  cases limit with
  | zero => cases hast
  | succ levels => exact ⟨levels, ast, by omega, hast, rfl⟩

/-- The parts of a source that begins with `new`, and how they are put together. -/
theorem newChain_of_source (hnews : Lexeme.leadingNews (Lexeme.scan source) = k) (hk : 1 ≤ k)
    (hparse : Grammar.parse parseLimit source = .ok (some (wrap .expression e))) (he : e.Binds 15)
    (hbuild : (program buildLimit (some (wrap .expression e)) : Except BuildError (List Node)) =
      .ok nodes) :
    ∃ c : NewChain source buildLimit k e, nodes = [outerFirst c.base c.places c.links] := by
  subst hnews
  obtain ⟨hbehind, places, primary, suffixes, rfl, hlength, hprimary⟩ :=
    Grammar.parse_newChain hk hparse he
  have hfollow := Grammar.followNews_of_parse hparse hbehind
  rw [atoms_chain, atoms_news] at hfollow
  obtain ⟨levels, ast, hlevels, hast, rfl⟩ := node_of_program hbuild
  obtain ⟨base, links, hbase, hlinks, rfl⟩ :=
    within_chain (withoutNew?_primary hprimary) hlevels hast
  rw [← Lexeme.leadingNews_eq] at hlength
  exact ⟨⟨places, primary, suffixes, base, links, hlength, rfl, hprimary, hfollow, hbase, hlinks⟩, rfl⟩

/-- Without a call among the links the only `new` constructs all of the chain. -/
theorem outerFirst_single {base : Node} {links : List Link} (place : Span)
    (h : ∀ l ∈ links, l.isCall = false) :
    ∃ span, outerFirst base [place] links = .new (Link.chain base links) none span := by
  rcases links.eq_nil_or_concat with rfl | ⟨init, last, rfl⟩
  · exact ⟨place, rfl⟩
  · rw [List.concat_eq_append] at h ⊢
    obtain ⟨hinit, hlast⟩ := List.forall_mem_append.1 h
    refine ⟨last.span, ?_⟩
    rw [outerFirst_new hinit, Link.chain_concat]
    cases last with
    | call => simp [Link.isCall] at hlast
    | _ => rfl

/-- A source that can be read and built, begins with so many `new` and is one expression that holds
together like a call or a member access. -/
def isNewSource (limit k : Nat) (source : String) : Bool :=
  Lexeme.leadingNews (Lexeme.scan source) == k &&
    match Grammar.parse limit source with
    | .ok (some root@⟨.expression, text, span, [e]⟩) =>
      text == Kind.expression.name && span == e.span && e.kind.strength?.any (15 ≤ ·) &&
        (program limit (some root) : Except BuildError (List Node)).toOption.isSome
    | _ => false

theorem exists_of_isNewSource (h : isNewSource limit k source = true) :
    Lexeme.leadingNews (Lexeme.scan source) = k ∧ ∃ e nodes,
      Grammar.parse limit source = .ok (some (wrap .expression e)) ∧ e.Binds 15 ∧
      (program limit (some (wrap .expression e)) : Except BuildError (List Node)) = .ok nodes := by
  simp only [isNewSource, Bool.and_eq_true, beq_iff_eq] at h
  obtain ⟨hnews, h⟩ := h
  refine ⟨hnews, ?_⟩
  split at h
  · rename_i text span e hparse
    simp only [Bool.and_eq_true, beq_iff_eq, Option.any_eq_true, decide_eq_true_eq] at h
    obtain ⟨⟨⟨rfl, rfl⟩, hbinds⟩, hbuild⟩ := h
    refine ⟨e, ?_⟩
    cases hnodes : (program limit (some (wrap .expression e)) : Except BuildError (List Node)) with
    | error error =>
      simp only [wrap, group] at hnodes
      simp [hnodes, Except.toOption] at hbuild
    | ok nodes => exact ⟨nodes, hparse, hbinds, rfl⟩
  · cases h

/-- One `new` takes the first argument list that follows it, constructs what is before that, and
what is after it applies to the object; without an argument list it constructs all of the chain. -/
theorem new_of_source (hnews : Lexeme.leadingNews (Lexeme.scan source) = 1)
    (hparse : Grammar.parse parseLimit source = .ok (some (wrap .expression e))) (he : e.Binds 15)
    (hbuild : (program buildLimit (some (wrap .expression e)) : Except BuildError (List Node)) =
      .ok nodes) :
    ∃ c : NewChain source buildLimit 1 e,
      (∀ before arguments span after, c.links = before ++ .call arguments span :: after →
        (∀ l ∈ before, l.isCall = false) →
        nodes = [Link.chain (.new (Link.chain c.base before) (some arguments) span) after]) ∧
      ((∀ l ∈ c.links, l.isCall = false) →
        ∃ span, nodes = [.new (Link.chain c.base c.links) none span]) := by
  obtain ⟨c, rfl⟩ := newChain_of_source hnews (Nat.le_refl 1) hparse he hbuild
  obtain ⟨place, hplace⟩ := List.length_eq_one_iff.1 c.count
  refine ⟨c, fun before arguments span after hlinks hbefore => ?_, fun hplain => ?_⟩
  · have hfirst := Link.firstCall?_append_of_none (.call arguments span :: after)
      (Link.firstCall?_eq_none.2 hbefore)
    simp [hplace, hlinks, outerFirst, hfirst, Link.firstCall?]
  · obtain ⟨span, hspan⟩ := outerFirst_single place hplain
    exact ⟨span, by rw [hplace, hspan]⟩

theorem new_of_source_member_call : ∃ e nodes,
    Grammar.parse 9 "new a.b(c).d" = .ok (some (wrap .expression e)) ∧
    ∃ c : NewChain "new a.b(c).d" 9 1 e,
      (∀ before arguments span after, c.links = before ++ .call arguments span :: after →
        (∀ l ∈ before, l.isCall = false) →
        nodes = [Link.chain (.new (Link.chain c.base before) (some arguments) span) after]) ∧
      ((∀ l ∈ c.links, l.isCall = false) →
        ∃ span, nodes = [.new (Link.chain c.base c.links) none span]) := by
  have hsource : isNewSource 9 1 "new a.b(c).d" = true := by decide +kernel
  obtain ⟨hnews, e, nodes, hparse, he, hbuild⟩ := exists_of_isNewSource hsource
  exact ⟨e, nodes, hparse, new_of_source hnews hparse he hbuild⟩

/-- Two or more `new` are put together from the outermost on, which is how the grammar of the
language has it only if nothing follows them. -/
theorem news_of_source (hnews : Lexeme.leadingNews (Lexeme.scan source) = k) (hk : 2 ≤ k)
    (hparse : Grammar.parse parseLimit source = .ok (some (wrap .expression e))) (he : e.Binds 15)
    (hbuild : (program buildLimit (some (wrap .expression e)) : Except BuildError (List Node)) =
      .ok nodes) :
    ∃ c : NewChain source buildLimit k e, nodes = [outerFirst c.base c.places c.links] ∧
      ((∃ places, places.length = k ∧ nodes = [innerFirst c.base places c.links]) ↔
        c.suffixes = []) := by
  obtain ⟨c, rfl⟩ := newChain_of_source hnews (by omega) hparse he hbuild
  have hcalls := links_isCall c.linksBuilt
  refine ⟨c, rfl, fun hsame => ?_, fun hnil => ?_⟩
  · obtain ⟨places, hplaces, heq⟩ := hsame
    have hlinks : c.links = [] := by
      by_cases hlinks : c.links = []
      · exact hlinks
      · exact absurd (List.cons.inj heq).1 (outerFirst_ne_innerFirst (by rw [c.count]; exact hk)
          (hplaces.trans c.count.symm) hlinks)
    rw [hlinks] at hcalls
    exact List.map_eq_nil_iff.1 hcalls.symm
  · rw [hnil] at hcalls
    have hlinks : c.links = [] := List.map_eq_nil_iff.1 hcalls
    exact ⟨c.places.reverse, by rw [List.length_reverse, c.count], by rw [hlinks, outerFirst_nil]⟩

theorem news_of_source_member : ∃ e nodes,
    Grammar.parse 9 "new new a.b" = .ok (some (wrap .expression e)) ∧
    ∃ c : NewChain "new new a.b" 9 2 e, nodes = [outerFirst c.base c.places c.links] ∧
      ((∃ places, places.length = 2 ∧ nodes = [innerFirst c.base places c.links]) ↔
        c.suffixes = []) := by
  have hsource : isNewSource 9 2 "new new a.b" = true := by decide +kernel
  obtain ⟨hnews, e, nodes, hparse, he, hbuild⟩ := exists_of_isNewSource hsource
  exact ⟨e, nodes, hparse, news_of_source hnews (by decide) hparse he hbuild⟩

end Ecma3
