import Ecma3.Loader
import Ecma3.Proofs.Build.Places.Statement
import Ecma3.Proofs.Grammar.Places.Program
import Ecma3.Proofs.Limit
import Ecma3.Proofs.Text.Line

/-! Places of syntax trees in the text that they are built from, and of failures to build them. -/
namespace Ecma3

open Grammar (topLevel)
open ParseTree (Row)
open Text (IsBoundary LineEnds byteLength)

variable {source : List Char} {m n : Nat}

namespace Build

variable {build : ParseTree → Option String → Except BuildError Node} {trees : List ParseTree}
  {root : Option ParseTree}

/-- The nodes lie between two offsets, one behind the other. -/
structure InRow (source : List Char) (m : Nat) (nodes : List Node) (n : Nat) : Prop where
  lies : ∀ node ∈ nodes, (Site.node node).Lies source m n
  ordered : nodes.Pairwise fun a b => a.span.stop ≤ b.span.start

theorem lands_row (hbuild : Settles source build) (h : Row source m trees n) :
    Lands source (InRow source m · n) (all build trees) := by
  induction h with
  | nil => exact .pure ⟨nofun, .nil⟩
  | cons ht hrest ih =>
    refine (lands_build hbuild ht.inside none).bind fun node hnode => ?_
    refine ih.bind fun nodes hnodes => .pure ⟨List.forall_mem_cons.2 ⟨?_, fun x hx => ?_⟩, ?_⟩
    · exact hnode.mono (Nat.le_refl _) hrest.le
    · exact (hnodes.lies x hx).mono ht.le (Nat.le_refl _)
    · refine List.pairwise_cons.2 ⟨fun x hx => ?_, hnodes.ordered⟩
      exact Nat.le_trans hnode.place.high (hnodes.lies x hx).place.low

/-- The nodes of a source lie in it one behind the other. -/
theorem lands_program (limit : Nat) (h : Row source 0 (topLevel root) n) :
    Lands source (InRow source 0 · n) (program limit root) := by
  unfold program
  extract_lets rest
  have hrest : ∀ nodes, InRow source 0 nodes n → Lands source (InRow source 0 · n) (rest nodes) :=
    fun _ hnodes => hnodes
  cases root with
  | none =>
    -- A text without statements is a null at its beginning.
    have hnull : (Site.node (.null ⟨0, 0⟩)).Lies source 0 n := by
      refine Site.lies_node ?_ nofun
      exact (Span.Lies.empty Text.isBoundary_zero).mono (Nat.le_refl _) (Nat.zero_le _)
    exact Lands.bind (.pure ⟨List.forall_mem_singleton.2 hnull, List.pairwise_singleton _ _⟩) hrest
  | some root =>
    unfold topLevel at h
    dsimp only at h ⊢
    split at h
    · rw [if_pos ‹_›]
      exact (lands_row (settles_within limit limit) h).bind hrest
    · rw [if_neg ‹_›]
      obtain - | ⟨hroot, hend⟩ := h
      refine (lands_build (settles_within limit limit) hroot.inside none).bind fun node hnode => ?_
      refine Lands.bind (.pure ⟨List.forall_mem_singleton.2 ?_, List.pairwise_singleton _ _⟩) hrest
      exact hnode.mono (Nat.le_refl _) hend.le

end Build

namespace Source

/-- What a source is built into lies in it: its nodes one behind the other. -/
theorem build_row {s : Source} {limit : Nat} {nodes : List Node} (h : s.build limit = .ok nodes) :
    Build.InRow s.text.toList 0 nodes (byteLength s.text.toList) := by
  obtain ⟨root, hroot, hbuilt⟩ := Pipeline.ast_eq_ok.1 (mapError_eq_ok.1 h)
  have hlands := Build.lands_program limit (Grammar.parse_row hroot)
  rwa [hbuilt] at hlands

/-- Every part of a syntax tree has a place in the text, with whole characters in it, and the places
of the parts directly inside are within it. The nodes at the top follow each other in the text. -/
theorem build_places {s : Source} {limit : Nat} {nodes : List Node}
    (h : s.build limit = .ok nodes) :
    (∀ node ∈ nodes, ∀ p, (Site.node node).IsWithin p →
      p.span.start ≤ p.span.stop ∧ p.span.stop ≤ byteLength s.text.toList ∧
      IsBoundary s.text.toList p.span.start ∧ IsBoundary s.text.toList p.span.stop ∧
      ∀ q ∈ p.inner, p.span.start ≤ q.span.start ∧ q.span.stop ≤ p.span.stop) ∧
    nodes.Pairwise fun a b => a.span.stop ≤ b.span.start := by
  obtain ⟨hlies, hordered⟩ := build_row h
  refine ⟨fun node hnode p hp => ?_, hordered⟩
  have hlies := (hlies node hnode).isWithin hp
  refine ⟨hlies.place.ordered, hlies.place.high, hlies.place.first, hlies.place.last, ?_⟩
  exact fun q hq => ⟨(hlies.inner q hq).place.low, (hlies.inner q hq).place.high⟩

/-- A loop whose head ends before the clause that it leaves out, and a `new` that is moved. -/
theorem build_places_loop : ∃ nodes,
    Source.build ⟨"for (a = 'é'; ; ) new b.c(d); switch (e) { case 1: ++f; }"⟩ 9 = .ok nodes ∧
    (∀ node ∈ nodes, ∀ p, (Site.node node).IsWithin p →
      p.span.start ≤ p.span.stop ∧
      p.span.stop ≤
        byteLength "for (a = 'é'; ; ) new b.c(d); switch (e) { case 1: ++f; }".toList ∧
      IsBoundary "for (a = 'é'; ; ) new b.c(d); switch (e) { case 1: ++f; }".toList p.span.start ∧
      IsBoundary "for (a = 'é'; ; ) new b.c(d); switch (e) { case 1: ++f; }".toList p.span.stop ∧
      ∀ q ∈ p.inner, p.span.start ≤ q.span.start ∧ q.span.stop ≤ p.span.stop) ∧
    nodes.Pairwise fun a b => a.span.stop ≤ b.span.start := by
  have hok : (Source.build ⟨"for (a = 'é'; ; ) new b.c(d); switch (e) { case 1: ++f; }"⟩
      9).isOk = true := by decide +kernel
  obtain ⟨nodes, hnodes⟩ := ok_of_isOk hok
  exact ⟨nodes, hnodes, build_places hnodes⟩

/-! Failures. -/

variable {s : Source} {limit o : Nat}

/-- An offset that is known is given with its line and column in the text. -/
theorem locate_some {stage detail : String} (h : o ≤ byteLength s.text.toList) :
    ∃ p ends, s.locate ⟨stage, detail, some o⟩ = .failedStage ⟨stage, detail, some o⟩ (some p) ∧
      LineEnds s.text.toList o ends ∧ p.line = ends.length ∧ p.column = o - ends.getLastD 0 := by
  obtain ⟨ends, hends, hposition⟩ := Text.LineIndex.position_ofString h
  exact ⟨⟨ends.length, o - ends.getLastD 0⟩, ends, by rw [locate, Option.map_some, hposition],
    hends, rfl, rfl⟩

/-- A source that is not built has a stage that fails: the first one if it cannot be read, and the
second one otherwise. The failure is at the start of the error's range, between two characters, and
is reported with the number of lines that end at or before it and the bytes behind the last one. -/
theorem build_located {e : LoadError} (h : s.build limit = .error e) :
    ∃ failure o p, e = .failedStage failure (some p) ∧ failure.offset = some o ∧
      ((failure.stage = "Parsing" ∧ ∃ x, Grammar.parse limit s.text = .error x ∧
          failure.detail = x.message ∧ o = x.span.start) ∨
        (failure.stage = "Building" ∧ ∃ root x, Grammar.parse limit s.text = .ok root ∧
          (Build.program limit root : Except Build.BuildError (List Node)) = .error x ∧
          failure.detail = x.message ∧ o = x.span.start)) ∧
      o ≤ byteLength s.text.toList ∧ IsBoundary s.text.toList o ∧
      ∃ ends, LineEnds s.text.toList o ends ∧
        p.line = ends.length ∧ p.column = o - ends.getLastD 0 := by
  obtain ⟨failure, hfailure, rfl⟩ := mapError_eq_error.1 h
  obtain ⟨x, hx, rfl⟩ | ⟨root, x, hroot, hx, rfl⟩ := Pipeline.ast_eq_error.1 hfailure
  · have hplace : IsBoundary s.text.toList x.span.start := Grammar.parse_located hx
    obtain ⟨p, ends, hlocate, hends⟩ := locate_some hplace.le
    exact ⟨_, _, p, hlocate, rfl, Or.inl ⟨rfl, x, hx, rfl, rfl⟩, hplace.le, hplace, ends, hends⟩
  · have hplace : IsBoundary s.text.toList x.span.start := by
      have hlands := Build.lands_program limit (Grammar.parse_row hroot)
      rwa [hx] at hlands
    obtain ⟨p, ends, hlocate, hends⟩ := locate_some hplace.le
    exact ⟨_, _, p, hlocate, rfl, Or.inr ⟨rfl, root, x, hroot, hx, rfl, rfl⟩, hplace.le, hplace,
      ends, hends⟩

/-- A `return` too deep in a block, behind line ends of three kinds. -/
theorem build_located_return :
    ∃ s e failure o p, s = (⟨"a;\r\n/* é */\u2028 \x7bb; \r return \"\".c = 4; \x7d"⟩ : Source) ∧
      s.build 4 = .error e ∧ e = .failedStage failure (some p) ∧ failure.offset = some o ∧
      ((failure.stage = "Parsing" ∧ ∃ x, Grammar.parse 4 s.text = .error x ∧
          failure.detail = x.message ∧ o = x.span.start) ∨
        (failure.stage = "Building" ∧ ∃ root x, Grammar.parse 4 s.text = .ok root ∧
          (Build.program 4 root : Except Build.BuildError (List Node)) = .error x ∧
          failure.detail = x.message ∧ o = x.span.start)) ∧
      o ≤ byteLength s.text.toList ∧ IsBoundary s.text.toList o ∧
      ∃ ends, LineEnds s.text.toList o ends ∧
        p.line = ends.length ∧ p.column = o - ends.getLastD 0 := by
  have hfails : (Source.build ⟨"a;\r\n/* é */\u2028 \x7bb; \r return \"\".c = 4; \x7d"⟩
      4).isOk = false := by decide +kernel
  obtain ⟨e, he⟩ := error_of_isOk hfails
  obtain ⟨failure, o, p, hlocated⟩ := build_located he
  exact ⟨_, e, failure, o, p, rfl, he, hlocated⟩

end Source
end Ecma3
