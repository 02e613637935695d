import Ecma3.Proofs.Grammar.Append.Before
import Ecma3.Proofs.Outcome

/-!
Programs one behind the other. The statements of the first one are found as if it stood alone, and
behind a semicolon those of the second one follow, further on.
-/
namespace Ecma3.Grammar
open ParserM ParseTree

variable {R : Comparison} {inner inner' : Inner} {c : Ledger} {n m m' : Nat} {s s' t u b : Session}
  {L : List ParseTree} {found : List ParseTree} {turn : Turn ParseTree} {root : Option ParseTree}

/-- The repetition goes on after this turn. -/
def ParserM.Turn.goesOn {α : Type} : Turn α → Bool
  | .skip | .more _ => true
  | .stop | .last _ => false

theorem ParserM.Turn.goesOn_map {α β : Type} {f : α → β} (turn : Turn α) :
    (turn.map f).goesOn = turn.goesOn := by
  cases turn <;> rfl

theorem ParserM.Turn.trees_map {α β : Type} {f : α → β} (turn : Turn α) :
    (turn.map f).trees = turn.trees.map f := by
  cases turn <;> rfl

theorem collect_goesOn {p : ParserM (Turn ParseTree)} (h : p s = .ok turn u)
    (hturn : turn.goesOn = true) :
    collect p (m + 1) s = ((turn.trees ++ ·) <$> collect p m) u := by
  rw [collect, bind_of_ok h]
  cases turn with
  | stop | last => cases hturn
  | skip => exact congrFun (id_map (collect p m)).symm u
  | more => rfl

/-- A turn at the end of the text finds nothing, and any other one passes something. -/
theorem statementTurn_cases (h : inner.statementTurn (fun _ => false) s = .ok turn t) :
    s.current = none ∧ turn = .stop ∧ t = s ∨ s.current.isSome ∧ turn.goesOn = true := by
  obtain ⟨token, u, htoken, h⟩ := of_bind_eq_ok h
  cases htoken
  cases hcurrent : s.current with
  | none =>
    simp only [Session.token?, hcurrent, Option.map_none] at h
    cases h
    exact Or.inl ⟨rfl, rfl, rfl⟩
  | some l =>
    simp only [Session.token?, hcurrent, Option.map_some, Bool.false_eq_true, if_false] at h
    obtain ⟨passed, v, -, h⟩ := of_bind_eq_ok h
    refine Or.inr ⟨rfl, ?_⟩
    cases passed with
    | true =>
      cases h
      rfl
    | false =>
      obtain ⟨tree, w, -, h⟩ := of_bind_eq_ok h
      cases h
      rfl

section
variable (hparse : CarriesGoal R n .statement (inner.parse .statement) (inner'.parse .statement))
include hparse

/-- What is over stays over while statements are found. -/
theorem over_collect (hc : c.past = false) (hnext : c.next = none) (hover : R.Over c s)
    (h : collect (inner.statementTurn fun _ => false) m s = .ok found t) :
    R.Over (c.keepingAll (n + 1) found) t := by
  induction m generalizing c s found with
  | zero => cases h
  | succ m ih =>
    obtain ⟨turn, u, hturn, hrest⟩ := of_bind_eq_ok h
    have hover' : R.Over (c.keepingAll (n + 1) turn.trees) u :=
      (Inner.carries_statementTurn hparse _ hc).stays (Ledger.sees_of_none hnext) hover hturn
    rcases statementTurn_cases hturn with ⟨-, rfl, -⟩ | ⟨-, hgoes⟩
    · cases hrest
      exact hover'
    · rw [collect_goesOn hturn hgoes] at h
      obtain ⟨others, hothers, rfl⟩ := of_map_eq_ok h
      rw [← Ledger.keepingAll_append]
      exact ih rfl rfl hover' hothers

/-- While the first run finds statements up to its end, the second one finds them too and goes on
from there. It may take more turns than the first one. -/
theorem collect_past (hc : c.past = false) (hnext : c.next = none)
    (hmeets : R.Meets c.ending n s s')
    (h : collect (inner.statementTurn fun _ => false) m s = .ok found t) :
    R.Over (c.keepingAll (n + 1) found) t ∨
      ∃ k t', R.Meets (c.keepingAll (n + 1) found).ending n t t' ∧ ∀ j,
        collect (inner'.statementTurn fun _ => false) (m + j) s' =
          ((found.map R.tree ++ ·) <$>
            collect (inner'.statementTurn fun _ => false) (k + 1 + j)) t' := by
  induction m generalizing c s s' found with
  | zero => cases h
  | succ m ih =>
    obtain ⟨turn, u, hturn, hrest⟩ := of_bind_eq_ok h
    rcases statementTurn_cases hturn with ⟨-, rfl, rfl⟩ | ⟨hcurrent, hgoes⟩
    · cases hrest
      refine Or.inr ⟨m, s', ?_, fun j => congrFun (id_map (collect _ _)).symm s'⟩
      exact hmeets.mono ⟨by simp, by simp, by simp, fun _ => rfl, nofun⟩
    · have hrel : R.Meets c n s s' := Or.inl <| hmeets.resolve_right fun ⟨_, hended⟩ => by
        simp [R.ended.current hended] at hcurrent
      rw [collect_goesOn hturn hgoes] at h
      obtain ⟨others, hothers, rfl⟩ := of_map_eq_ok h
      rw [← Ledger.keepingAll_append]
      rcases ((Inner.carries_statementTurn hparse _ hc).follow (Ledger.sees_of_none hnext) hrel).ok
        hturn with hover | ⟨u', hturn', hmeets'⟩
      · exact Or.inl (over_collect hparse rfl rfl hover hothers)
      · refine (ih rfl rfl hmeets' hothers).imp_right fun ⟨k, t', hend, hrest'⟩ => ?_
        refine ⟨k, t', hend, fun j => ?_⟩
        rw [Nat.add_right_comm, collect_goesOn hturn' (turn.goesOn_map.trans hgoes),
          map_congr (hrest' j), Functor.map_map]
        simp only [turn.trees_map, List.map_append, List.append_assoc]

end

/-- The statements of a program. -/
def ParserM.programStatements (bound : Nat) : ParserM (List ParseTree) :=
  Inner.statements ⟨bound, parseWithin bound⟩ fun _ => false

/-- The statements at the top of a result: none, those under a `unit` node, or a single one. -/
def topLevel : Option ParseTree → List ParseTree
  | none => []
  | some t => if t.kind = .unit then t.children else [t]

theorem flatMap_atoms_topLevel (root : Option ParseTree) :
    (topLevel root).flatMap atoms = root.toList.flatMap atoms := by
  cases root with
  | none => rfl
  | some t =>
    by_cases hkind : t.kind = .unit
    · obtain ⟨kind, text, span, children⟩ := t
      obtain rfl : kind = .unit := hkind
      simp [topLevel, atoms_of_not_isAtom (show Kind.isAtom .unit = false from rfl)]
    · simp [topLevel, hkind]

theorem program_eq (s : Session) : ParserM.program s =
    (programStatements (s.cursor.rest.length + 2) >>= fun found => match found with
      | [] => return none
      | [only] => return some only
      | first :: others => do
        return some (.group .unit ⟨first.span.start, (← get).lastEnd⟩ (first :: others)) :
      ParserM (Option ParseTree)) s := rfl

/-- The statements that are found are those at the top of the result. -/
theorem program_topLevel (hs : s.Coherent) :
    (∀ {root t}, ParserM.program s = .ok root t →
      programStatements (s.cursor.rest.length + 2) s = .ok (topLevel root) t) ∧
    ∀ {found t}, programStatements (s.cursor.rest.length + 2) s = .ok found t →
      ∃ root, ParserM.program s = .ok root t ∧ topLevel root = found := by
  have hfound : ∀ {found t}, programStatements (s.cursor.rest.length + 2) s = .ok found t →
      ∃ root, ParserM.program s = .ok root t ∧ topLevel root = found := by
    intro found t hstatements
    have hkinds := (Inner.gives_statements (parseWithin_sound _ _) _ s hs).ok hstatements
    rw [program_eq, bind_of_ok hstatements]
    match found with
    | [] => exact ⟨none, rfl, rfl⟩
    | [only] =>
      refine ⟨some only, rfl, if_neg fun hkind => ?_⟩
      have honly := (hkinds.1 only List.mem_cons_self).2
      simp [IsStatement, hkind, Kind.isStatement] at honly
    | first :: second :: others => exact ⟨_, rfl, rfl⟩
  refine ⟨fun {root t} hroot => ?_, hfound⟩
  have hroot' := hroot
  rw [program_eq] at hroot'
  obtain ⟨found, u, hstatements, -⟩ := of_bind_eq_ok hroot'
  obtain ⟨root', hroot'', rfl⟩ := hfound hstatements
  cases hroot.symm.trans hroot''
  exact hstatements

/-- The last token of the text that is passed is this one. -/
def EndsWith (limit : Nat) (source : String) (token : Token) : Prop :=
  ∃ (s u t : Session) (root : Option ParseTree) (L : List ParseTree),
    Session.start limit source = .ok s ∧ s.program = (.ok root, t) ∧ s.Walk L u ∧
      u.token? = some token ∧ advance u = .ok () t

theorem Session.Walk.current_none (h : s.Walk L t) (hs : s.current = none) : t.current = none := by
  induction h with
  | refl => exact hs
  | level _ _ ih => exact ih
  | pass _ hcurrent | keep _ hcurrent | literal _ hcurrent =>
    rename_i ih
    rw [ih] at hcurrent
    cases hcurrent

/-- A text that ends with a semicolon is not empty, and there is one before the place where its last
token ends. -/
theorem EndsWith.facts {limit : Nat} {source : String}
    (h : EndsWith limit source (.punctuator .semicolon)) : ∃ s root t,
      advance (.ofString limit source) = .ok () s ∧ s.Coherent ∧ s.Through limit source ∧
      s.depth = 0 ∧ s.current.isSome ∧ ParserM.program s = .ok root t ∧
      t.source = source.toList ∧ Text.EndsAt source.toList t.lastEnd ';' := by
  obtain ⟨s, u, t, root, L, hstart, hprogram, hwalk, htoken, hadvance⟩ := h
  have hs := start_advance hstart
  have hthrough : s.Through limit source :=
    Session.Through.advance (s := .ofString limit source) ⟨rfl, rfl, rfl⟩ hs
  obtain ⟨hcoherent, hsource⟩ := hwalk.coherent (start_coherent hstart)
  obtain ⟨l, hl, htoken⟩ := token?_eq_some htoken
  refine ⟨s, root, t, hs, start_coherent hstart, hthrough, start_depth hstart, ?_, ?_, ?_⟩
  · rw [Option.isSome_iff_ne_none]
    intro hnone
    rw [hwalk.current_none hnone] at hl
    cases hl
  · rw [Session.program] at hprogram
    split at hprogram <;> cases hprogram
    assumption
  · obtain ⟨_, _, _, _, rfl⟩ := advance_eq_ok hadvance
    rw [hthrough.source] at hsource
    refine ⟨hsource, ?_⟩
    have hends := hcoherent.endsAt hl htoken
    rw [hsource] at hends
    simpa [Session.passedEnd, hl] using hends

theorem over_statements (hover : R.Over .empty s) (h : programStatements m s = .ok found t) :
    R.Over (Ledger.empty.keepingAll 1 found) t := by
  have hparse : CarriesGoal R 0 .statement ((⟨m, parseWithin m⟩ : Inner).parse .statement)
      ((⟨m, parseWithin m⟩ : Inner).parse .statement) :=
    carries_parseWithin R (Nat.le_refl m) 0 .statement
  exact over_collect hparse rfl rfl hover h

section
variable {limit : Nat} {source source' : String}
  (hb : advance (.ofString limit source') = .ok () b)
  (helse : b.token? ≠ some (.reserved .«else»))

/-- Up to its end the first text is found in the longer one, unless the two come apart. -/
theorem statements_before (hs : (Comparison.before hb helse source).Rel false 0 s s')
    (h : programStatements m s = .ok found t) (hend : t.current = none) (hm : m ≤ m') :
    (Comparison.before hb helse source).Over (Ledger.empty.keepingAll 1 found) t ∨
      t.depth = 0 ∧ ∃ k, ∀ j, Inner.statements ⟨m + j, parseWithin m'⟩ (fun _ => false) s' =
        ((found ++ ·) <$> Inner.statements ⟨k + 1 + j, parseWithin m'⟩ fun _ => false)
          (b.resume t) := by
  have hparse : CarriesGoal (.before hb helse source) 0 .statement
      ((⟨m, parseWithin m⟩ : Inner).parse .statement)
      ((⟨m', parseWithin m'⟩ : Inner).parse .statement) := carries_parseWithin _ hm 0 .statement
  rcases collect_past hparse (c := .empty) rfl rfl (Or.inl hs) h with hover | ⟨k, t', hmeets, hrest⟩
  · exact Or.inl hover
  rcases hmeets with ⟨-, -, hcurrent, -⟩ | ⟨-, -, hdepth, rfl⟩
  · simp [hend] at hcurrent
  · have htree : (Comparison.before hb helse source).tree = id := funext relocate_id
    rw [htree, List.map_id] at hrest
    exact Or.inr ⟨hdepth, k, hrest⟩

end

/-- The other text is found in the longer one where the first one has ended. -/
theorem statements_behind (h : programStatements m b = .ok found t) (hdepth : u.depth = b.depth)
    (hn : m ≤ n) (hm : m ≤ m') : ∃ t',
      Inner.statements ⟨n, parseWithin m'⟩ (fun _ => false) (b.resume u) =
        .ok (found.map (relocate (· + Text.byteLength (u.source ++ ['\n'])))) t' := by
  have hrel : (Comparison.behind (u.source ++ ['\n'])).Rel false 0 b (b.resume u) :=
    ⟨true, u.lastEnd, by rw [Session.resume, hdepth]; rfl, nofun⟩
  have hparse : CarriesGoal (.behind (u.source ++ ['\n'])) 0 .statement
      ((⟨m, parseWithin m⟩ : Inner).parse .statement)
      ((⟨n, parseWithin m'⟩ : Inner).parse .statement) := carries_parseWithin _ hm 0 .statement
  have hcarries := Inner.carries_statements (c := .empty) (fun _ _ _ => id) hn hparse
    (fun _ => false) rfl
  rcases (hcarries.follow (Ledger.sees_of_none rfl) (Or.inl hrel)).ok h with
    (hlost | hstuck) | ⟨t', ht', -⟩
  · exact hlost.elim
  · exact hstuck.elim
  · exact ⟨t', ht'⟩

/-- No program begins with a barred token. -/
theorem program_barred {token : Token} (h : ParserM.program s = .ok root t)
    (ht : s.token? = some token) : token.isBarred = false := by
  rw [← Bool.not_eq_true]
  intro hbarred
  have hs : s.Barred := fun t' ht' => by
    rw [ht] at ht'
    cases ht'
    exact hbarred
  have hsemicolon : token ≠ .punctuator .semicolon := by
    rintro rfl
    cases hbarred
  have hturn : ∀ bound,
      (Inner.statementTurn ⟨bound, parseWithin bound⟩ fun _ => false).Refuses s := by
    intro bound
    simp only [Refuses, Inner.statementTurn, acceptMark, leads_bind, leads_token?, ht, leads_accept,
      Bool.false_eq_true, if_false, Option.some.injEq, hsemicolon]
    exact (parseWithin_barred hs).imp fun _ _ => False.elim
  rw [program_eq] at h
  obtain ⟨found, u, hfound, -⟩ := of_bind_eq_ok h
  rw [programStatements, Inner.statements_eq, collect] at hfound
  obtain ⟨turn, v, hv, -⟩ := of_bind_eq_ok hfound
  exact (hturn _).ne_ok hv

/-- A regular expression of the program begins like a comment, and the other text closes the
comment. -/
def Interlocks (root : Option ParseTree) (source : String) : Prop :=
  (∃ t ∈ root.toList.flatMap nodes, t.kind = .regexLiteral ∧ ['/', '*'] <+: t.text.toList) ∧
    ['*', '/'] <:+: source.toList

/-- A program with another one behind it on a new line, where its last token is a semicolon: its
statements are followed by those of the other one, further on by its length and the line feed. A
regular expression may begin with a star, and only then can the longer text take a part of the
program and a part of the other one for a comment. -/
theorem parse_append {limit : Nat} {source source' : String} {root root' : Option ParseTree}
    (hroot : parse limit source = .ok root) (hroot' : parse limit source' = .ok root')
    (hlast : EndsWith limit source (.punctuator .semicolon)) (hapart : ¬Interlocks root source') :
    ∃ joined, parse limit (source ++ "\n" ++ source') = .ok joined ∧
      topLevel joined = topLevel root ++
        (topLevel root').map (relocate (· + (Text.byteLength source.toList + 1))) := by
  obtain ⟨s, root₁, t, hs, hcoherent, hthrough, hdepth, hcurrent, ht, hsource, hends⟩ := hlast.facts
  obtain ⟨b, t', hb, ht'⟩ := parse_eq_ok.1 hroot'
  obtain ⟨_, _, hs', hroot''⟩ := parse_eq_ok.1 hroot
  cases hs.symm.trans hs'
  cases ht.symm.trans hroot''
  have hbcoherent : b.Coherent := ((leads_advance (Cursor.at_ofString source')).ok hb).1
  have hbdepth : b.depth = 0 := (advance_keeps hb).2
  have helse : b.token? ≠ some (.reserved .«else») := fun helse => by
    cases program_barred ht' helse
  have hend : t.current = none := (leads_program_end s).ok ht
  have hfound := (program_topLevel hcoherent).1 ht
  have hfound' := (program_topLevel hbcoherent).1 ht'
  -- The two runs do not come apart before the first text ends.
  have hover : ¬(Comparison.before hb helse source).Over
      (Ledger.empty.keepingAll 1 (topLevel root)) t := by
    rintro (⟨hclose, leaf, hleaf, hregexLeaf⟩ | ⟨-, hnot⟩ | ⟨-, l, hl, -⟩)
    · have hatoms : leaf ∈ (topLevel root).flatMap atoms := hleaf
      rw [flatMap_atoms_topLevel, flatMap_atoms] at hatoms
      exact hapart ⟨⟨leaf, (List.mem_filter.1 hatoms).1, hregexLeaf⟩, hclose⟩
    · exact hnot (by rwa [hsource])
    · simp [hend] at hl
  have hstart : advance (.ofString limit (source ++ "\n" ++ source')) =
      .ok () (s.followedBy source'.toList) := by
    have hjoined : (Session.ofString limit source).followedBy source'.toList =
        .ofString limit (source ++ "\n" ++ source') := by
      have hlineFeed : ∀ cs, Text.byteLength ('\n' :: cs) = 1 + Text.byteLength cs := fun _ => rfl
      simp [Session.followedBy, Session.ofString, Cursor.followedBy, Cursor.ofString,
        Text.byteLength_append, hlineFeed]
    rcases advance_followedBy source'.toList hs hcurrent with hstart | hsnag
    · rwa [hjoined] at hstart
    · have htorn : (Comparison.before hb helse source).Over .empty s :=
        Or.inr (Or.inr ⟨hcoherent, hsnag⟩)
      exact (hover (over_statements htorn hfound)).elim
  have hscoherent := ((leads_advance (Cursor.at_ofString _)).ok hstart).1
  have hlength : (s.followedBy source'.toList).cursor.rest.length + 2 =
      s.cursor.rest.length + 2 + (1 + source'.toList.length) := by
    simp [Session.followedBy, Cursor.followedBy]
    omega
  have hle : b.cursor.rest.length ≤ source'.toList.length := by
    obtain ⟨_, _, _, hnext, rfl⟩ := advance_eq_ok hb
    exact Cursor.nextSignificant_le hnext
  obtain ⟨htdepth, k, hrest⟩ := (statements_before hb helse
    ⟨hthrough, hcoherent, hcurrent, hdepth, rfl⟩ hfound hend
    (Nat.le_add_right _ (1 + source'.toList.length))).resolve_left hover
  obtain ⟨v, hv⟩ := statements_behind hfound' (htdepth.trans hbdepth.symm)
    (show _ ≤ k + 1 + (1 + source'.toList.length) by omega)
    (show _ ≤ s.cursor.rest.length + 2 + (1 + source'.toList.length) by omega)
  have hjoined := (hrest _).trans (map_of_ok hv)
  rw [← hlength] at hjoined
  obtain ⟨joined, hprogram, htop⟩ := (program_topLevel hscoherent).2 hjoined
  refine ⟨joined, parse_eq_ok.2 ⟨_, _, hstart, hprogram⟩, ?_⟩
  rw [htop, hsource, Text.byteLength_append]
  rfl

/-- The session behind the current lexeme. -/
def Session.passed? (s : Session) : Option Session :=
  match advance s with
  | .ok _ t => some t
  | .error .. => none

theorem Session.passed?_eq_some (h : s.passed? = some t) : advance s = .ok () t := by
  unfold Session.passed? at h
  split at h <;> cases h
  assumption

theorem parse_append_names : ∃ root root' joined, parse 3 "a;" = .ok root ∧
    parse 3 "b" = .ok root' ∧ EndsWith 3 "a;" (.punctuator .semicolon) ∧ ¬Interlocks root "b" ∧
    parse 3 ("a;" ++ "\n" ++ "b") = .ok joined ∧ topLevel joined = topLevel root ++
      (topLevel root').map (relocate (· + (Text.byteLength "a;".toList + 1))) := by
  have hruns : ((Session.start 3 "a;").toOption.bind fun s => s.passed?.bind fun u =>
      u.passed?.map fun t => (s.current.isSome, u.token?, s.program.1.isOk,
        decide (s.program.2 = t))) = some (true, some (.punctuator .semicolon), true, true) := by
    decide +kernel
  have hother : (parse 3 "b").isOk = true := by decide +kernel
  simp only [Option.bind_eq_some_iff, Option.map_eq_some_iff, Prod.mk.injEq,
    decide_eq_true_eq, toOption_eq_some] at hruns
  obtain ⟨s, hstart, u, hu, t, ht, hcurrent, htoken, hok, hlast⟩ := hruns
  obtain ⟨l, hl⟩ := Option.isSome_iff_exists.1 hcurrent
  obtain ⟨root, hprogram⟩ := ok_of_isOk hok
  obtain ⟨root', hroot'⟩ := ok_of_isOk hother
  obtain ⟨L, hwalk⟩ := Session.Walk.refl.advance hl (Session.passed?_eq_some hu)
  have hroot : parse 3 "a;" = .ok root := by
    rw [parse, hstart]
    exact hprogram
  have hends : EndsWith 3 "a;" (.punctuator .semicolon) :=
    ⟨s, u, t, root, L, hstart, Prod.ext hprogram hlast, hwalk, htoken, Session.passed?_eq_some ht⟩
  have hapart : ¬Interlocks root "b" := fun h => absurd h.2 (by decide +kernel)
  obtain ⟨joined, hjoined⟩ := parse_append hroot hroot' hends hapart
  exact ⟨root, root', joined, hroot, hroot', hends, hapart, hjoined⟩

end Ecma3.Grammar
