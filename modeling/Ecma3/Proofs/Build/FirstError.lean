import Ecma3.Proofs.Build.Program
import Ecma3.Proofs.Grammar.Order
import Mathlib.Data.List.Flatten
import Mathlib.Data.List.Perm.Basic

/-!
Which error of a source is reported when there are several. Building goes through the text from its
start to its end, but comes to the arguments of a call before what is called.
-/
namespace Ecma3

namespace ParseTree
open Build

variable {t u v c first : ParseTree} {rest : List ParseTree} {label : Option String}

mutual

/-- The nodes of the tree but for the names of properties, in the order of the text. -/
def used : ParseTree → List ParseTree
  | ⟨kind, text, span, []⟩ => [⟨kind, text, span, []⟩]
  | ⟨kind, text, span, first :: rest⟩ =>
    ⟨kind, text, span, first :: rest⟩ ::
      ((if kind = .namedValue then [] else used first) ++ usedOf rest)

def usedOf : List ParseTree → List ParseTree
  | [] => []
  | t :: ts => used t ++ usedOf ts

end

/-- The nodes that are errors wherever they stand, in the order of the text. -/
def faults (t : ParseTree) : List ParseTree := t.used.filter (·.fault?.isSome)

/-- The same nodes in the order in which building comes to them. -/
def faultsMet (label : Option String) (t : ParseTree) : List ParseTree :=
  (t.visits label).filterMap fun (_, u) => if u.fault?.isSome then some u else none

/-- One fault is in the arguments of a call, and the other one in what is called. -/
def Overtakes (t u v : ParseTree) : Prop :=
  ∃ c callee arguments, c ∈ t.used ∧ c.kind = .call ∧ c.children = callee :: arguments ∧
    u ∈ arguments.flatMap faults ∧ v ∈ callee.faults

theorem usedOf_eq_flatMap (ts : List ParseTree) : usedOf ts = ts.flatMap used := by
  induction ts with
  | nil => rfl
  | cons t ts ih => rw [usedOf, ih, List.flatMap_cons]

theorem used_of_nil (h : t.children = []) : t.used = [t] := by
  obtain ⟨kind, text, span, children⟩ := t
  obtain rfl : children = [] := h
  rfl

theorem used_of_cons (h : t.children = first :: rest) :
    t.used = t :: ((if t.kind = .namedValue then [] else first.used) ++ rest.flatMap used) := by
  obtain ⟨kind, text, span, children⟩ := t
  obtain rfl : children = first :: rest := h
  rw [used, usedOf_eq_flatMap]

theorem mem_used_self (t : ParseTree) : t ∈ t.used := by
  cases h : t.children with
  | nil => simp [used_of_nil h]
  | cons first rest => simp [used_of_cons h]

theorem used_sublist (t : ParseTree) : t.used.Sublist t.nodes := by
  induction t using induction with
  | step t ih =>
    cases h : t.children with
    | nil => simp [used_of_nil h, nodes_eq t, h]
    | cons first rest =>
      rw [h] at ih
      obtain ⟨hfirst, hrest⟩ := List.forall_mem_cons.1 ih
      rw [used_of_cons h, nodes_eq t, h, List.flatMap_cons]
      refine (List.Sublist.append ?_ (.flatMap_right rest hrest)).cons_cons t
      split
      · exact List.nil_sublist _
      · exact hfirst

/-- What is used inside a node is used. -/
theorem used_subset (h : t.children = first :: rest) :
    (t.kind ≠ .namedValue → first.used ⊆ t.used) ∧ ∀ c ∈ rest, c.used ⊆ t.used := by
  rw [used_of_cons h]
  refine ⟨fun hkind u hu => ?_, fun c hc u hu => ?_⟩ <;>
    refine List.mem_cons_of_mem _ (List.mem_append.2 ?_)
  · rw [if_neg hkind]
    exact .inl hu
  · exact .inr (List.mem_flatMap.2 ⟨c, hc, hu⟩)

/-- Only names, literals and `debugger` statements are faults. -/
theorem faults_sublist (t : ParseTree) : t.faults.Sublist t.atoms := by
  have hatom : ∀ u : ParseTree, u.fault?.isSome = true → u.kind.isAtom = true := by
    intro u hu
    cases h : u.kind.isAtom with
    | true => rfl
    | false => simp [fault?_eq_none h] at hu
  have hfilter : (t.nodes.filter (·.fault?.isSome)).Sublist t.atoms := by
    have hboth : t.nodes.filter (·.fault?.isSome) = t.atoms.filter (·.fault?.isSome) := by
      rw [atoms, List.filter_filter]
      refine List.filter_congr fun u _ => ?_
      cases hu : u.fault?.isSome with
      | false => rfl
      | true => simp [hatom u hu]
    rw [hboth]
    exact List.filter_sublist
  exact (t.used_sublist.filter _).trans hfilter

theorem faults_of_cons (h : t.children = first :: rest) : t.faults =
    (if t.fault?.isSome then some t else none).toList ++
      ((if t.kind = .namedValue then [] else first.faults) ++ rest.flatMap faults) := by
  have hfaults : faults = fun u : ParseTree => u.used.filter (·.fault?.isSome) := rfl
  rw [faults, used_of_cons h, List.filter_cons, List.filter_append, List.filter_flatMap, hfaults]
  split <;> split <;> rfl

theorem faultsMet_eq (label : Option String) (t : ParseTree) : t.faultsMet label =
    (if t.fault?.isSome then some t else none).toList ++ t.inTurn faultsMet label :=
  filterMap_visits _ label t

/-- Building comes to every fault once. -/
theorem faultsMet_perm (t : ParseTree) (label : Option String) :
    (t.faultsMet label).Perm t.faults := by
  induction t using induction generalizing label with
  | step t ih =>
    rw [faultsMet_eq]
    cases h : t.children with
    | nil =>
      rw [inTurn, h, faults, used_of_nil h]
      cases ht : t.fault?.isSome <;> simp [ht]
    | cons first rest =>
      rw [h] at ih
      obtain ⟨hfirst, hrest⟩ := List.forall_mem_cons.1 ih
      rw [faults_of_cons h, inTurn, h]
      refine .append (.refl _) ((Kind.turns_perm _ _ _).trans (.append ?_ ?_))
      · split
        · exact .refl _
        · exact hfirst _
      · exact List.Perm.flatMap_left rest fun c hc => hrest c hc _

theorem mem_faultsMet (label : Option String) : u ∈ t.faultsMet label ↔ u ∈ t.faults :=
  (faultsMet_perm t label).mem_iff

theorem mem_flatMap_faultsMet {ts : List ParseTree} (label : Option String) :
    u ∈ ts.flatMap (faultsMet label) ↔ u ∈ ts.flatMap faults := by
  simp [List.mem_flatMap, mem_faultsMet]

/-- What is met in a child is met in the same order in the tree. -/
theorem faultsMet_child (h : t.children = first :: rest) (label : Option String) :
    (t.kind ≠ .namedValue →
        (first.faultsMet (t.kind.firstLabel label)).Sublist (t.faultsMet label)) ∧
      ∀ c ∈ rest, (c.faultsMet (t.kind.restLabel first.text)).Sublist (t.faultsMet label) := by
  have hinside : (t.inTurn faultsMet label).Sublist (t.faultsMet label) := by
    rw [faultsMet_eq]
    exact List.sublist_append_right _ _
  rw [inTurn, h] at hinside
  obtain ⟨hfirst, hrest⟩ := t.kind.sublist_turns (first.faultsMet (t.kind.firstLabel label))
    (rest.flatMap (faultsMet (t.kind.restLabel first.text)))
  refine ⟨fun hkind => (hfirst hkind).trans hinside, fun c hc => ?_⟩
  have hone := (List.singleton_sublist.2 hc).flatMap (faultsMet (t.kind.restLabel first.text))
  rw [List.flatMap_singleton] at hone
  exact (hone.trans hrest).trans hinside

/-- The faults inside a node are met in the same order from above. -/
theorem faultsMet_sublist (hc : c ∈ t.used) (label : Option String) :
    ∃ inner, (c.faultsMet inner).Sublist (t.faultsMet label) := by
  induction t using induction generalizing label with
  | step t ih =>
    cases h : t.children with
    | nil =>
      rw [used_of_nil h, List.mem_singleton] at hc
      exact ⟨label, hc ▸ .refl _⟩
    | cons first rest =>
      obtain ⟨hfirst, hrest⟩ := faultsMet_child h label
      rw [h] at ih
      obtain ⟨ihfirst, ihrest⟩ := List.forall_mem_cons.1 ih
      rw [used_of_cons h, List.mem_cons, List.mem_append, List.mem_flatMap] at hc
      rcases hc with rfl | hc | ⟨d, hd, hc⟩
      · exact ⟨label, .refl _⟩
      · split at hc
        · cases hc
        · obtain ⟨inner, hinner⟩ := ihfirst hc (t.kind.firstLabel label)
          exact ⟨inner, hinner.trans (hfirst ‹_›)⟩
      · obtain ⟨inner, hinner⟩ := ihrest d hd hc (t.kind.restLabel first.text)
        exact ⟨inner, hinner.trans (hrest d hd)⟩

/-- The arguments of a call are met before what is called. -/
theorem Overtakes.sublist (h : t.Overtakes u v) (label : Option String) :
    [u, v].Sublist (t.faultsMet label) := by
  obtain ⟨c, callee, arguments, hc, hkind, hchildren, hu, hv⟩ := h
  obtain ⟨inner, hinner⟩ := faultsMet_sublist hc label
  have hcall : c.faultsMet inner =
      arguments.flatMap (faultsMet none) ++ callee.faultsMet none := by
    rw [faultsMet_eq, fault?_eq_none (by rw [hkind]; rfl), inTurn, hchildren, hkind]
    rfl
  refine List.Sublist.trans ?_ hinner
  rw [hcall]
  exact (List.singleton_sublist.2 ((mem_flatMap_faultsMet none).2 hu)).append
    (List.singleton_sublist.2 ((mem_faultsMet none).2 hv))

theorem Overtakes.mono (h : c.Overtakes u v) (hc : c.used ⊆ t.used) : t.Overtakes u v := by
  obtain ⟨d, callee, arguments, hd, hcall⟩ := h
  exact ⟨d, callee, arguments, hc hd, hcall⟩

theorem mem_atoms (h : u ∈ t.faults) : u ∈ t.atoms := t.faults_sublist.subset h

theorem mem_flatMap_atoms {ts : List ParseTree} (h : u ∈ ts.flatMap faults) :
    u ∈ ts.flatMap atoms := by
  obtain ⟨c, hc, hu⟩ := List.mem_flatMap.1 h
  exact List.mem_flatMap.2 ⟨c, hc, mem_atoms hu⟩

/-- Building comes to the faults in the order of the text, but for the arguments of calls. -/
theorem faultsMet_pairwise (h : t.WellFormed)
    (hstarts : t.atoms.Pairwise fun a b => a.span.start < b.span.start) (label : Option String) :
    (t.faultsMet label).Pairwise fun u v => t.Overtakes u v ∨ u.span.start < v.span.start := by
  induction t using induction generalizing label with
  | step t ih =>
    rw [faultsMet_eq]
    cases hchildren : t.children with
    | nil =>
      rw [inTurn, hchildren, List.append_nil]
      split <;> simp
    | cons first rest =>
      have hatom : t.kind.isAtom = false := h.root.isAtom_eq_false (by simp [hchildren])
      have hinside : ∀ c ∈ t.children, c.WellFormed := h.inside
      rw [hchildren] at ih hinside
      obtain ⟨ihfirst, ihrest⟩ := List.forall_mem_cons.1 ih
      obtain ⟨hwell, hwells⟩ := List.forall_mem_cons.1 hinside
      obtain ⟨hused, huseds⟩ := used_subset hchildren
      rw [atoms_of_cons hatom hchildren, List.pairwise_append, List.pairwise_flatMap] at hstarts
      obtain ⟨hfirst, ⟨hrest, hlater⟩, hforth⟩ := hstarts
      have hself : (if t.fault?.isSome then some t else none).toList = [] := by
        simp [fault?_eq_none hatom]
      rw [hself, List.nil_append, inTurn, hchildren]
      -- Two faults are in one child or in two, and only in a call is the first child the later one.
      refine Kind.pairwise_turns ?_ (List.pairwise_flatMap.2 ⟨?_, ?_⟩) ?_ ?_
      · intro hkind
        exact (ihfirst hwell hfirst _).imp (Or.imp_left (·.mono (hused hkind)))
      · intro c hc
        exact (ihrest c hc (hwells c hc) (hrest c hc) _).imp (Or.imp_left (·.mono (huseds c hc)))
      · refine hlater.imp fun hcd u hu v hv => .inr ?_
        exact hcd u (mem_atoms ((mem_faultsMet _).1 hu)) v (mem_atoms ((mem_faultsMet _).1 hv))
      · intro u hu v hv
        exact .inr (hforth u (mem_atoms ((mem_faultsMet _).1 hu)) v
          (mem_flatMap_atoms ((mem_flatMap_faultsMet _).1 hv)))
      · intro hkind u hu v hv
        exact .inl ⟨t, first, rest, mem_used_self t, hkind, hchildren,
          (mem_flatMap_faultsMet _).1 hu, (mem_faultsMet _).1 hv⟩

/-- What is called begins before the arguments. -/
theorem Overtakes.start_lt (h : t.Overtakes u v)
    (hstarts : t.atoms.Pairwise fun a b => a.span.start < b.span.start) :
    v.span.start < u.span.start := by
  obtain ⟨c, callee, arguments, hc, hkind, hchildren, hu, hv⟩ := h
  have hinside := hstarts.sublist (atoms_sublist (t.used_sublist.subset hc))
  rw [atoms_of_cons (by rw [hkind]; rfl) hchildren, List.pairwise_append] at hinside
  exact hinside.2.2 v (mem_atoms hv) u (mem_flatMap_atoms hu)

/-- Building comes to the first of two faults before the other one. -/
def MetBefore (t u v : ParseTree) : Prop :=
  t.Overtakes u v ∨ u.span.start < v.span.start ∧ ¬ t.Overtakes v u

/-- The fault that is met first comes before all others. -/
theorem metBefore_of_first {later : List ParseTree} (h : t.WellFormed)
    (hstarts : t.atoms.Pairwise fun a b => a.span.start < b.span.start)
    (hmet : t.faultsMet label = u :: later) : ∀ v ∈ t.faults, v ≠ u → t.MetBefore u v := by
  intro v hv hne
  have hordered := faultsMet_pairwise h hstarts label
  have hnodup : (t.faultsMet label).Nodup := by
    refine (faultsMet_perm t label).nodup_iff.2 ((hstarts.sublist t.faults_sublist).imp ?_)
    rintro a b hlt rfl
    exact Nat.lt_irrefl _ hlt
  have hv := (mem_faultsMet label).2 hv
  rw [hmet] at hordered hnodup hv
  have hlater : v ∈ later := (List.mem_cons.1 hv).resolve_left hne
  rcases List.rel_of_pairwise_cons hordered hlater with hcall | hlt
  · exact .inl hcall
  · refine .inr ⟨hlt, fun hback => ?_⟩
    have hsublist := hback.sublist label
    rw [hmet] at hsublist
    have hu : u ∈ later := by
      cases hsublist with
      | cons _ hsublist => exact hsublist.subset (by simp)
      | cons_cons _ hsublist => exact absurd rfl hne
    exact (List.nodup_cons.1 hnodup).1 hu

/-- Without labels, the errors of a tree are its faults. -/
theorem errors_eq_faultsMet (h : ∀ u ∈ t.nodes, u.kind ≠ .labelled) :
    t.errors none = (t.faultsMet none).filterMap fault? := by
  induction t using induction with
  | step t ih =>
    have hself : (if t.fault?.isSome then some t else none).toList.filterMap fault? =
        t.fault?.toList := by
      cases hfault : t.fault? <;> simp [hfault]
    rw [nodes_eq, List.forall_mem_cons] at h
    obtain ⟨hkind, hnodes⟩ := h
    have hinside : ∀ c ∈ t.children, c.errors none = (c.faultsMet none).filterMap fault? :=
      fun c hc => ih c hc fun u hu => hnodes u (List.mem_flatMap.2 ⟨c, hc, hu⟩)
    have hfirstLabel : t.kind.firstLabel none = none := by cases t.kind <;> rfl
    have hrestLabel : ∀ name, t.kind.restLabel name = none := fun _ => if_neg hkind
    rw [errors_eq, faultsMet_eq, List.filterMap_append, hself]
    refine congrArg (t.fault?.toList ++ ·) ?_
    unfold errorsInside inTurn
    cases hchildren : t.children with
    | nil => rfl
    | cons first rest =>
      rw [hchildren] at hinside
      obtain ⟨hfirst, hrest⟩ := List.forall_mem_cons.1 hinside
      dsimp only
      rw [hfirstLabel, hrestLabel, Kind.filterMap_turns, List.filterMap_flatMap, hfirst]
      exact congrArg _ (List.flatMap_congr hrest)

/-- Without labels, the first error of a tree is that of the fault that is met first. -/
theorem errors_head?_eq_some {e : BuildError} (h : ∀ u ∈ t.nodes, u.kind ≠ .labelled)
    (he : (t.errors none).head? = some e) :
    ∃ u later, t.faultsMet none = u :: later ∧ u ∈ t.faults ∧ u.fault? = some e := by
  rw [errors_eq_faultsMet h] at he
  cases hmet : t.faultsMet none with
  | nil => simp [hmet] at he
  | cons u later =>
    have hu : u ∈ t.faults := (mem_faultsMet none).1 (by rw [hmet]; exact List.mem_cons_self)
    obtain ⟨e', he'⟩ := Option.isSome_iff_exists.1 (List.mem_filter.1 hu).2
    rw [hmet, List.filterMap_cons_some he', List.head?_cons] at he
    exact ⟨u, later, rfl, hu, he'.trans he⟩

/-- Without labels, a tree without errors has no faults. -/
theorem faults_eq_nil (h : ∀ u ∈ t.nodes, u.kind ≠ .labelled) (he : t.errors none = []) :
    t.faults = [] := by
  rw [errors_eq_faultsMet h, List.filterMap_eq_nil_iff] at he
  refine List.eq_nil_iff_forall_not_mem.2 fun u hu => ?_
  have hnone := he u ((mem_faultsMet none).2 hu)
  have hsome := (List.mem_filter.1 hu).2
  simp [hnone] at hsome

end ParseTree

namespace Build
open ParseTree

/-- Building fails exactly when the tree has a fault, and reports the one that it meets first. That
is the first one in the text if it is not in the arguments of a call with a fault in what is called,
and otherwise it is not. -/
theorem program_first_error {parseLimit buildLimit : Nat} {source : String}
    {root : Option ParseTree} (h : Grammar.parse parseLimit source = .ok root)
    (hlabels : ∀ u ∈ root.toList.flatMap nodes, u.kind ≠ .labelled)
    (hlevels : ∀ span, (program buildLimit root : Except BuildError (List Node)) ≠
      .error (.nestingTooDeep buildLimit span)) :
    ((∃ e, (program buildLimit root : Except BuildError (List Node)) = .error e) ↔
        root.toList.flatMap faults ≠ []) ∧
      ∀ e, (program buildLimit root : Except BuildError (List Node)) = .error e →
        ∃ t u, root = some t ∧ u ∈ t.faults ∧ u.fault? = some e ∧
          (∀ v ∈ t.faults, v ≠ u → t.MetBefore u v) ∧
          ((∀ v ∈ t.faults, u.span.start ≤ v.span.start) ↔ ∀ v ∈ t.faults, ¬ t.Overtakes u v) := by
  cases root with
  | none =>
    have hok : ∀ e, (program buildLimit none : Except BuildError (List Node)) ≠ .error e := by
      intro e he
      cases he
    exact ⟨⟨fun ⟨e, he⟩ => absurd he (hok e), fun h => absurd rfl h⟩,
      fun e he => absurd he (hok e)⟩
  | some t =>
    have hroot := Grammar.parse_isRoot h
    have hstarts := Grammar.parse_atoms_starts h
    have hstops : Stops buildLimit (t.errors none) (program buildLimit (some t)) :=
      stops_program hroot
    rw [Option.toList_some, List.flatMap_singleton] at hlabels hstarts ⊢
    have hfirst : ∀ e, (program buildLimit (some t) : Except BuildError (List Node)) = .error e →
        (t.errors none).head? = some e := by
      intro e he
      refine (hstops.error e he).resolve_right ?_
      rintro ⟨span, rfl⟩
      exact hlevels span he
    refine ⟨⟨?_, fun hfaults => ?_⟩, fun e he => ?_⟩
    · rintro ⟨e, he⟩
      obtain ⟨u, _, _, hu, _⟩ := errors_head?_eq_some hlabels (hfirst e he)
      exact List.ne_nil_of_mem hu
    · cases hprogram : (program buildLimit (some t) : Except BuildError (List Node)) with
      | error e => exact ⟨e, rfl⟩
      | ok nodes => exact absurd (faults_eq_nil hlabels (hstops.ok nodes hprogram)) hfaults
    · obtain ⟨u, later, hmet, hu, hfault⟩ := errors_head?_eq_some hlabels (hfirst e he)
      have hbefore := metBefore_of_first hroot.1 hstarts hmet
      refine ⟨t, u, rfl, hu, hfault, hbefore, fun hleast v hv hcall => ?_, fun hnone v hv => ?_⟩
      · exact Nat.lt_irrefl _ (Nat.lt_of_lt_of_le (hcall.start_lt hstarts) (hleast v hv))
      · by_cases hvu : v = u
        · rw [hvu]
        · rcases hbefore v hv hvu with hcall | ⟨hlt, -⟩
          · exact absurd hcall (hnone v hv)
          · exact Nat.le_of_lt hlt

/-- Both numbers are out of range, and the argument is reported. -/
theorem program_first_error_argument : ∃ t u, Grammar.parse 8 "1e5(1e6)" = .ok (some t) ∧
    (program 8 (some t) : Except BuildError (List Node)) =
      .error (.invalidLiteral .number "1e6" ⟨4, 7⟩) ∧
    u ∈ t.faults ∧ u.fault? = some (.invalidLiteral .number "1e6" ⟨4, 7⟩) ∧
    (∀ v ∈ t.faults, v ≠ u → t.MetBefore u v) ∧
    ((∀ v ∈ t.faults, u.span.start ≤ v.span.start) ↔ ∀ v ∈ t.faults, ¬ t.Overtakes u v) := by
  have hplain : (Grammar.parse 8 "1e5(1e6)").toOption.map (fun root =>
      (root.toList.flatMap nodes).all (·.kind != .labelled) &&
        match (program 8 root : Except BuildError (List Node)) with
        | .ok _ => false
        | .error e => e == .invalidLiteral .number "1e6" ⟨4, 7⟩) = some true := by decide +kernel
  cases hroot : Grammar.parse 8 "1e5(1e6)" with
  | error e => simp [hroot, Except.toOption] at hplain
  | ok root =>
    simp only [hroot, Except.toOption, Option.map_some, Option.some.injEq, Bool.and_eq_true,
      List.all_eq_true, bne_iff_ne] at hplain
    obtain ⟨hlabels, hreported⟩ := hplain
    have herror : (program 8 root : Except BuildError (List Node)) =
        .error (.invalidLiteral .number "1e6" ⟨4, 7⟩) := by
      split at hreported
      · cases hreported
      · rename_i hprogram
        rw [hprogram, beq_iff_eq.1 hreported]
    have hlevels : ∀ span, (program 8 root : Except BuildError (List Node)) ≠
        .error (.nestingTooDeep 8 span) := by
      intro span hdeep
      cases herror.symm.trans hdeep
    obtain ⟨t, u, rfl, hfirst⟩ := (program_first_error hroot hlabels hlevels).2 _ herror
    exact ⟨t, u, rfl, herror, hfirst⟩

end Build
end Ecma3
