import TypeInference.Program.Numbering
import TypeInference.Proofs.Check.Lookups
import TypeInference.Proofs.Scoping.Callees
import TypeInference.Proofs.Scoping.Ended

/-!
# What calls and declarations resolve to

A check looks up callees and the symbols of functions, types and formals in the tree of the whole
program. `Program.calls_resolve` compares the callee of a call with a read in its place: they are
the same symbol, unless a variable that is declared by the statement around the call or by a later
one takes the name. `Program.declarations_resolve` says which symbol a declaration finds by its
name: its own one exactly if no symbol of the name is made after it in its region.
-/

namespace TypeInference

open Lexical

/-- The look-ups that a check makes, and what they find in the tree of the program. -/
theorem Program.lookups_sites {P : Program Span} {opts : CheckOptions} {R : CheckRun}
    (hR : P.bind.1.checkRun opts P.bind.2 = .ok R) {o : Outcome} (ho : o ∈ R.outcomes) {e : Event}
    (he : e ∈ o.events) {k : Option SymbolKind} {p : Span} {y : SymbolId}
    (hy : e.looked? = some (k, p, y)) : ∃ c ∈ P.sites, c.mark.kind = k ∧ c.mark.pos = p ∧
      P.bind.2.lookup? c.scope c.target.name = some y := by
  obtain ⟨μ, hμ, hk, hp, hl⟩ := Program.lookups_marked hR o ho e he k p y hy
  rw [P.sites_shown.1] at hμ
  obtain ⟨c, hc, rfl⟩ := List.mem_map.1 hμ
  refine ⟨c, hc, hk, hp, hl ▸ ?_⟩
  cases h : c.target <;> simp [Site.mark, h, Target.mark, Mark.own, Target.name]

theorem Lexical.Site.Shown.find? {F : ScopeTree} {c : Site} (h : c.Shown F) (name : String) :
    (F.find? c.scope name).bind (fun home => F.lookup? home name) =
      (captor? name (c.inner :: c.outer)).or (denoted? c.regions name) := by
  rw [Site.regions, ← denoted?_ended, ← Site.ended, ← h.lookup?]
  cases hf : F.find? c.scope name with
  | none => rw [ScopeTree.lookup?, hf, Option.bind_none, Option.bind_none]
  | some home => exact ScopeTree.lookup?_of_find? hf

/-- What a call calls. The calls of a bound program are those of the program, in order, each stamped
with the scope of the region around it. A read in the place of a call is stamped with what the name
denotes there. The callee is found to be the same symbol, unless a variable to come takes the name;
then it is this variable. Every callee that a check notes is found so. -/
theorem Program.calls_resolve (P : Program Span) :
    P.bind.1.marks = P.sites.map Site.mark ∧
    (∀ c ∈ P.sites, ∀ x p, c.target = .callee x p →
      .var p c.scope (denoted? c.regions x) ∈ P.readCallees.bind.1.stamps ∧
      (P.bind.2.find? c.scope x).bind (fun home => P.bind.2.lookup? home x) =
        (captor? x (c.inner :: c.outer)).or (denoted? c.regions x)) ∧
    ∀ opts R, P.bind.1.checkRun opts P.bind.2 = .ok R → ∀ o ∈ R.outcomes, ∀ p y t,
      .call p y t ∈ o.events → ∃ c ∈ P.sites, ∃ x, c.target = .callee x p ∧
        (captor? x (c.inner :: c.outer)).or (denoted? c.regions x) = some y := by
  obtain ⟨hmarks, hshown⟩ := P.sites_shown
  refine ⟨hmarks, fun c hc x p hx => ⟨P.stamp_of_callee hc hx, (hshown c hc).find? x⟩,
    fun opts R hR o ho p y t he => ?_⟩
  obtain ⟨c, hc, hk, hp, hl⟩ := P.lookups_sites hR ho he rfl
  cases hx : c.target with
  | own d => simp [Site.mark, hx, Target.mark, Mark.own] at hk
  | callee x q =>
    rw [Site.mark, hx] at hp
    obtain rfl : q = p := hp
    refine ⟨c, hc, x, hx, ?_⟩
    rw [Site.regions, ← denoted?_ended, ← Site.ended, ← (hshown c hc).lookup?, ← hl, hx]
    rfl

/-- `fun f() { 1 }; { let f = f(); f }` -/
def captureSample : Program Span := Program.number 0 [
  .funDecl "f" [] (some (.literal (.int 1) none)) none none 0 0,
  .expr (.block [.varDecl "f" none (.call "f" none [] none 0) none 0 none]
    (some (.var "f" none 0 none)) none 0)]

/-- The variable takes the callee of the call in its own initializer, where a read denotes the
function. -/
theorem calls_captured_captureSample :
    .var ⟨3, 4⟩ 2 (some 0) ∈ captureSample.readCallees.bind.1.stamps ∧
    (captureSample.bind.2.symbol? 0).map Symbol.kind = some .function ∧
    (captureSample.bind.2.symbol? 1).map Symbol.kind = some .variable ∧
    ∃ R, captureSample.bind.1.checkRun ⟨10000⟩ captureSample.bind.2 = .ok R ∧
      ∃ o ∈ R.outcomes, ∃ e ∈ o.events, e.looked? = some (none, ⟨3, 4⟩, 1) := by
  refine ⟨by decide +kernel, by decide +kernel, by decide +kernel, ?_⟩
  have h : (captureSample.bind.1.checkRun ⟨10000⟩ captureSample.bind.2).toOption.map (fun R =>
      decide (∃ o ∈ R.outcomes, ∃ e ∈ o.events, e.looked? = some (none, ⟨3, 4⟩, 1))) =
        some true := by decide +kernel
  obtain ⟨R, hR, h⟩ := Option.map_eq_some_iff.1 h
  exact ⟨R, Action.eq_ok_of_toOption hR, of_decide_eq_true h⟩

/-- What a declaration finds by its name. Each function, type and formal is a symbol of the tree,
and looks itself up in the scope of its region. There the last symbol made of the name is found, so
its own one exactly if none was made after it; and that is what every check takes for its own. -/
theorem Program.declarations_resolve (P : Program Span) :
    P.bind.1.marks = P.sites.map Site.mark ∧
    (∀ c ∈ P.sites, ∀ d, c.target = .own d →
      P.bind.2.symbol? d.2 = some d.1 ∧
      P.bind.2.lookup? c.scope d.1.name = c.inner.ended.pick? d.1.name ∧
      (c.inner.ended.pick? d.1.name = some d.2 ↔
        ∀ e ∈ c.inner.ended.candidates, e.1.name = d.1.name → e.2 ≤ d.2)) ∧
    ∀ opts R, P.bind.1.checkRun opts P.bind.2 = .ok R → ∀ o ∈ R.outcomes, ∀ e ∈ o.events,
      ∀ k p y, e.looked? = some (some k, p, y) → ∃ c ∈ P.sites, ∃ d, c.target = .own d ∧
        d.1.kind = k ∧ d.1.span = p ∧ c.inner.ended.pick? d.1.name = some y := by
  obtain ⟨hmarks, hshown⟩ := P.sites_shown
  refine ⟨hmarks, fun c hc d hd => (hshown c hc).own hd, fun opts R hR o ho e he k p y hy => ?_⟩
  obtain ⟨c, hc, hk, hp, hl⟩ := P.lookups_sites hR ho he hy
  cases hd : c.target with
  | callee x q => simp [Site.mark, hd, Target.mark] at hk
  | own d =>
    rw [Site.mark, hd] at hk hp
    refine ⟨c, hc, d, hd, Option.some.inj hk, hp, ?_⟩
    rw [← ((hshown c hc).own hd).2.1, ← hl, hd]
    rfl

/-- `fun f() { 1 }; let f = 2` -/
def hiddenOwnSample : Program Span := Program.number 0 [
  .funDecl "f" [] (some (.literal (.int 1) none)) none none 0 0,
  .varDecl "f" none (.literal (.int 2) none) none 0 none]

/-- The function is checked against the symbol of the variable that hides it, and its scheme is put
there. -/
theorem declarations_hidden_hiddenOwnSample :
    (hiddenOwnSample.bind.2.symbol? 0).map (fun z => (z.kind, z.span)) = some (.function, ⟨1, 2⟩) ∧
    (hiddenOwnSample.bind.2.symbol? 1).map (fun z => (z.kind, z.span)) = some (.variable, ⟨3, 4⟩) ∧
    ∃ R, hiddenOwnSample.bind.1.checkRun ⟨10000⟩ hiddenOwnSample.bind.2 = .ok R ∧
      (∃ o ∈ R.outcomes, ∃ e ∈ o.events, e.looked? = some (some .function, ⟨1, 2⟩, 1)) ∧
      R.final.scopes.scheme? 0 = none ∧ R.final.scopes.scheme? 1 = some ⟨[], .fn [] .int⟩ := by
  refine ⟨by decide +kernel, by decide +kernel, ?_⟩
  have h : (hiddenOwnSample.bind.1.checkRun ⟨10000⟩ hiddenOwnSample.bind.2).toOption.map (fun R =>
      decide ((∃ o ∈ R.outcomes, ∃ e ∈ o.events,
        e.looked? = some (some .function, ⟨1, 2⟩, 1)) ∧
        R.final.scopes.scheme? 0 = none ∧ R.final.scopes.scheme? 1 = some ⟨[], .fn [] .int⟩)) =
      some true := by decide +kernel
  obtain ⟨R, hR, h⟩ := Option.map_eq_some_iff.1 h
  exact ⟨R, Action.eq_ok_of_toOption hR, of_decide_eq_true h⟩

end TypeInference
