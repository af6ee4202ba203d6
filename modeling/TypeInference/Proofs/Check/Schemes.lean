import TypeInference.Program.Numbering
import TypeInference.Proofs.Check.Obligations
import TypeInference.Proofs.Program.Built

/-!
# Slots and recorded schemes

Slots are written in two places: an empty one is filled with a variable as soon as it is read, and a
function of the root scope puts its scheme into the slot of its symbol. A walk over anything but
such a function does the first only (`Filled`, `fills_rules`); a function of the root scope that
succeeds does the second once, at its end (`Installed`, `installs_topLevel`).

So between the top-level statements of a program the slots and the schemes recorded by name agree
(`Consistent`, `Program.consistent_outcomes`). `Program.schemes_consistent` says so of every such
point of a check and of its result.
-/

namespace TypeInference

open ScopeTree

/-- The name of the function that a statement defines, body and all. -/
def Stmt.definedName? : Stmt Span → Option String
  | .funDecl x _ (some _) _ _ _ _ => some x
  | _ => none

namespace Check

/-! ## Walks that fill slots only -/

/-- From `B` on, empty slots were filled with schemes that quantify nothing, and that is all that
happened to symbols and recorded schemes. -/
structure Filled (B s : CheckState) : Prop where
  scopes : s.scopes.scopes = B.scopes.scopes
  symbols : s.scopes.symbols.size = B.scopes.symbols.size
  schemes : s.schemes = B.schemes
  kept : ∀ y σ, B.scopes.scheme? y = some σ → s.scopes.scheme? y = some σ
  mono : ∀ y σ, s.scopes.scheme? y = some σ → B.scopes.scheme? y = some σ ∨ σ.vars = []

theorem Filled.refl (B : CheckState) : Filled B B :=
  ⟨rfl, rfl, rfl, fun _ _ => id, fun _ _ => .inl⟩

section
variable {B s s' : CheckState} {owner : Option String}

theorem Filled.congr (h : Filled B s) (hs : s'.scopes = s.scopes) (hσ : s'.schemes = s.schemes) :
    Filled B s' :=
  ⟨hs ▸ h.scopes, hs ▸ h.symbols, hσ.trans h.schemes, fun y σ hy => hs ▸ h.kept y σ hy,
    fun y σ hy => h.mono y σ (hs ▸ hy)⟩

theorem Filled.fill (h : Filled B s) {x : SymbolId} (hx : s.scopes.scheme? x = none) {σ : Scheme}
    (hσ : σ.vars = []) {T : VarTable} :
    Filled B { s with table := T, scopes := s.scopes.setScheme x σ } := by
  refine ⟨h.scopes, (size_symbols_setScheme ..).trans h.symbols, h.schemes, fun y τ hy => ?_,
    fun y τ hy => ?_⟩
  · have hy' := h.kept y τ hy
    rw [scheme?_setScheme]
    split
    · rename_i hxy
      rw [← hxy, hx] at hy'
      cases hy'
    · exact hy'
  · dsimp only at hy
    rw [scheme?_setScheme] at hy
    split at hy
    · obtain ⟨-, -, rfl⟩ := Option.map_eq_some_iff.1 hy
      exact .inr hσ
    · exact h.mono y τ hy

/-- The walk over nodes below the root list of statements. -/
def fills (B : CheckState) : Invariant where
  inv := Filled B
  later s s' := s'.returns = s.returns
  failed _ _ := Filled B
  fault _ := True
  goodVar _ _ := True
  ok := Node.Stamped
  okScope _ := True
  okPos _ := True

theorem fills_laws : Laws (fills B) where
  later_refl _ := rfl
  later_trans h h' := h'.trans h
  later_returns h := h
  later_good _ _ := trivial
  later_failed _ h := h
  fail h _ := h
  pos _ _ := trivial

theorem fill_note {e : Event} (h : Filled B s) : (fills B).Keeps s (note e) fun _ _ => True :=
  note_ends ⟨h.congr rfl rfl, rfl, trivial⟩

theorem fill_instantiate {σ : Scheme} (h : Filled B s) :
    (fills B).Keeps s (onTable (instantiate σ)) fun _ _ => True :=
  onTable_ends ((Action.ends_anyhow _ _).mono (fun _ _ _ => ⟨h.congr rfl rfl, rfl, trivial⟩)
    (fun _ _ _ => h.congr rfl rfl) fun _ => id)

theorem fills_basics : Basics (fills B) where
  toLaws := fills_laws
  fault _ := trivial
  goodVar _ _ := trivial
  okScope _ := trivial
  fresh h := fresh_ends ⟨h.congr rfl rfl, rfl, trivial⟩
  demand h _ := demand_ends ⟨h.congr rfl rfl, rfl, trivial⟩
  record h := record_ends ⟨h.congr rfl rfl, rfl, trivial⟩
  slot h := symbolScheme_ends (fun _ hσ => ⟨h, rfl, hσ⟩)
    (fun y hy hnone => ⟨h.fill (by simp [ScopeTree.scheme?, hy, hnone]) rfl, rfl,
      (scheme?_setScheme_of_symbol hy _ _).trans (if_pos rfl)⟩) fun _ _ => trivial

theorem fill_use {e : Ty → Event} {x : SymbolId} (h : Filled B s) :
    (fills B).Keeps s (useSymbol e x) fun _ _ => True := by
  have L : Basics (fills B) := fills_basics
  have h0 : (fills B).At (s.returns.head?.map Prod.fst) s := ⟨h, rfl⟩
  refine L.bind h0 (L.slot h) fun σ s1 h1 _ _ => ?_
  refine L.bind h1 (fill_instantiate h1.inv) fun t s2 h2 _ _ => ?_
  exact L.bind h2 (fill_note h2.inv) fun _ s3 h3 _ _ => L.pure h3 trivial

theorem fills_operations : Operations (fills B) where
  toBasics := fills_basics
  note h _ _ := fill_note h
  use _ _ h := fill_use h

theorem fills_stepwise : Stepwise (fills B) where
  toBasics := fills_basics
  later_of_returns h := h
  failed_anew h := h
  opened h := h.congr rfl rfl
  emptied h := h.congr rfl rfl
  resumed _ h := h.congr rfl rfl
  leave h := fill_note h
  solve h := solveQueue_ends ((Action.ends_anyhow _ _).mono
    (fun _ _ _ => ⟨h.congr rfl rfl, rfl, rfl⟩) (fun _ _ _ => h.congr rfl rfl) fun _ => id)

/-! ## Functions -/

theorem level_of_requireScope {T : ScopeTree} {a : ScopeId} {c : Scope}
    (h : T.requireScope a = .ok c) : T.level a = c.level := by
  unfold requireScope at h
  split at h
  · rename_i hc
    rw [ScopeTree.level, hc, Except.ok.inj h]
    rfl
  · cases h

/-- Below the root scope a function is not generalized. -/
theorem ends_generalizeFunction_below {name : String} {scope : ScopeId} {x : SymbolId} {t : Ty}
    (hl : s.scopes.level scope ≠ 1) : (generalizeFunction name scope x t).Ends s
      (fun _ s' => s' = s) (fun _ _ => False) fun _ => True := by
  unfold generalizeFunction
  refine Action.ends_get_bind (Action.ends_require_bind (fun c hc => ?_) fun _ _ => trivial)
  rw [if_neg fun he => hl ((level_of_requireScope hc).trans he)]
  exact Action.ends_pure rfl

/-- In the root scope it is, and its scheme is recorded in two places. -/
theorem ends_generalizeFunction_root {name : String} {scope : ScopeId} {x : SymbolId} {t : Ty}
    (hl : s.scopes.level scope = 1) : (generalizeFunction name scope x t).Ends s
      (fun _ s' => ∃ σ, s' = { s with
        scopes := s.scopes.setScheme x σ, schemes := s.schemes.insert name σ })
      (fun _ _ => False) fun _ => True := by
  unfold generalizeFunction envVars
  refine Action.ends_get_bind (Action.ends_require_bind (fun c hc => ?_) fun _ _ => trivial)
  rw [if_pos ((level_of_requireScope hc).symm.trans hl)]
  simp only [bind_assoc, pure_bind]
  refine Action.ends_get_bind (Action.ends_require_bind (fun env _ => ?_) fun _ _ => trivial)
  refine Action.Ends.bind (readTable_ends (Q := fun _ s' => s' = s) (fun _ _ => rfl)
    fun _ _ => trivial) ?_
  rintro σ s1 rfl
  exact Action.ends_modify ⟨σ, rfl⟩

theorem level_congr {T T' : ScopeTree} (h : T'.scopes = T.scopes) (a : ScopeId) :
    T'.level a = T.level a := by
  simp only [ScopeTree.level, scope?, h]

theorem fill_announce {name : String} {formals : List (Formal Span)} {pos : Span}
    {scope bodyScope : ScopeId} (h : (fills B).At owner s) :
    (fills B).Keeps s (announce name formals pos scope bodyScope) fun r _ =>
      B.scopes.lookup? scope name = some r.1 := by
  have O : Operations (fills B) := fills_operations
  unfold announce
  refine O.bind h (O.bindFormals formals h fun _ _ => trivial) fun params s1 h1 _ _ => ?_
  refine O.bind h1 (O.lookup h1.inv trivial) fun x s2 h2 _ hx => ?_
  refine O.bind h2 (O.fresh h2.inv) fun result s3 h3 _ _ => ?_
  refine O.bind h3 (O.slot h3.inv) fun σ s4 h4 _ _ => ?_
  refine O.bind h4 (fill_instantiate h4.inv) fun t s5 h5 _ _ => ?_
  refine O.bind h5 (O.demand h5.inv ⟨_, rfl, trivial⟩) fun _ s6 h6 _ _ => ?_
  refine O.bind h6 (fill_note h6.inv) fun _ s7 h7 _ _ => O.pure h7 ?_
  rw [← lookup?_congr h1.inv.scopes, hx.2]

/-- A walk below the root list of statements fills slots only. -/
theorem fills_rules (opts : CheckOptions) (hB : ∀ a, B.scopes.level a = 1 → a = rootScope) :
    Rules opts (fills B) :=
  fills_operations.rules opts fun h hok _ hbody =>
    fills_stepwise.function (Q := fun _ => True) h trivial
      (fun _ h' => (fill_announce h').imp fun _ _ _ _ _ => trivial) hbody fun h' _ =>
        (ends_generalizeFunction_below fun hl =>
          hok (hB _ ((level_congr h'.scopes _).symm.trans hl))).mono
          (fun _ _ hs => ⟨hs ▸ h', hs ▸ rfl, trivial⟩) (fun _ _ => False.elim) fun _ => id

/-! ## Top-level statements -/

/-- From `B` on slots were filled, and at last the function `name` of the root scope got the scheme
that is recorded for it. -/
def Installed (name : String) (B s : CheckState) : Prop :=
  ∃ s1 y σ, Filled B s1 ∧ B.scopes.lookup? rootScope name = some y ∧
    s.scopes = s1.scopes.setScheme y σ ∧ s.schemes = s1.schemes.insert name σ

/-- What a statement of the root list that succeeds does to slots and recorded schemes. -/
def Done (t : Stmt Span) (B s : CheckState) : Prop :=
  match t.definedName? with
  | none => Filled B s
  | some name => Installed name B s

theorem installs_functionDecl {opts : CheckOptions} (hB : ∀ a, B.scopes.level a = 1 ↔ a = rootScope)
    (h : (fills B).At owner s) {name : String} {formals : List (Formal Span)} {body : Expr Span}
    {pos : Span} {bodyScope : ScopeId} (hbody : Expr.Every Node.Stamped (some name) body) :
    (functionDecl opts name formals body pos rootScope bodyScope).Ends s
      (fun _ s' => Installed name B s' ∧ s'.returns = s.returns) (fun _ => Filled B)
      fun _ => True := by
  have R := fills_rules opts fun a => (hB a).1
  unfold functionDecl
  refine Action.Ends.bind (fills_stepwise.functionType
    (Q := fun y => B.scopes.lookup? rootScope name = some y) h trivial (fill_announce h)
    fun s' h' => R.expr body hbody h') fun r s1 ⟨h1, hl1, hx⟩ => ?_
  have hroot : s1.scopes.level rootScope = 1 := (level_congr h1.scopes _).trans ((hB _).2 rfl)
  refine Action.Ends.bind ((ends_generalizeFunction_root hroot).mono (fun _ _ => id)
    (fun _ _ => False.elim) fun _ => id) ?_
  rintro - s2 ⟨σ, rfl⟩
  refine Action.Ends.bind (readTable_ends (Q := fun _ s' => s' = _) (fun _ _ => rfl)
    fun _ _ => trivial) ?_
  rintro u s3 rfl
  refine Action.Ends.bind (record_ends (Q := fun _ s' => s' = _) rfl) ?_
  rintro - s4 rfl
  exact Action.ends_pure ⟨⟨s1, r.1, σ, h1, hx, rfl, rfl⟩, hl1⟩

/-- A statement of the root list fills slots, and installs a scheme if it defines a function and
succeeds. -/
theorem installs_topLevel {opts : CheckOptions} (hB : ∀ a, B.scopes.level a = 1 ↔ a = rootScope)
    (h : (fills B).At none s) (hq : s.queue = []) (hr : s.returns = []) {t : Stmt Span}
    (ht : t.TopStamped) : (topLevel opts t).Ends s
      (fun _ s' => Done t B s' ∧ s'.queue = [] ∧ s'.returns = []) (fun _ => Filled B)
      fun _ => True := by
  have R := fills_rules opts fun a => (hB a).1
  have hother : ∀ {t : Stmt Span}, t.definedName? = none → Stmt.Every Node.Stamped none t →
      (topLevel opts t).Ends s (fun _ s' => Done t B s' ∧ s'.queue = [] ∧ s'.returns = [])
        (fun _ => Filled B) fun _ => True := fun {t} hn ht =>
    (fills_stepwise.topLevel R ht h).mono
      (fun _ s' ⟨h', hl, hq'⟩ => ⟨by rw [Done, hn]; exact h', hq', hl.trans hr⟩)
      (fun _ _ => id) fun _ => id
  cases t with
  | funDecl x fs b u p s0 s1 =>
    cases b with
    | none => exact hother rfl ht
    | some b =>
      obtain ⟨rfl, hb⟩ := ht
      unfold topLevel
      rw [stmt_funDecl]
      simp only [bind_assoc, pure_bind]
      refine Action.ends_get_bind ?_
      refine Action.ends_modify_bind ?_
      have hs : { s with queue := [] } = s := by rw [← hq]
      rw [hs]
      refine Action.Ends.bind (installs_functionDecl hB h hb) fun u s1 ⟨hi, hr1⟩ => ?_
      refine Action.ends_modify_bind ?_
      refine Action.ends_get_bind ?_
      simp only [hq, List.isEmpty_nil, not_true, if_false]
      exact readTable_ends (fun _ _ => ⟨hi, rfl, hr1.trans hr⟩) fun _ _ => trivial
  | _ => exact hother rfl ht

/-! ## Between top-level statements -/

/-- A state between two statements of the root list, over the scopes and symbols of `F`. -/
structure Idle (F : ScopeTree) (s : CheckState) : Prop where
  scopes : s.scopes.scopes = F.scopes
  symbols : s.scopes.symbols.size = F.symbols.size
  queue : s.queue = []
  returns : s.returns = []

/-- Only symbols of the root scope are polymorphic, and a scheme recorded for a name is the one in
the slot of the symbol that the root scope binds to the name. -/
structure Agreed (F : ScopeTree) (s : CheckState) : Prop where
  rooted : ∀ y σ, s.scopes.scheme? y = some σ → σ.vars ≠ [] → F.Rooted y
  recorded : ∀ name σ, s.schemes.get? name = some σ →
    ∃ y, (F.bindings rootScope).get? name = some y ∧ s.scopes.scheme? y = some σ

/-- The statement defines the function `name`, and its check succeeded. -/
def Defines (name : String) (t : Stmt Span) (o : Outcome) : Prop :=
  t.definedName? = some name ∧ ∃ τ, o.verdict = .ok τ

section
variable {F : ScopeTree} {t : Stmt Span} {name : String}

theorem Agreed.filled (h : Agreed F B) (hs : Filled B s) : Agreed F s where
  rooted y σ hy hσ := (hs.mono y σ hy).elim (fun hy => h.rooted y σ hy hσ) fun hn => absurd hn hσ
  recorded name σ hσ := by
    obtain ⟨y, hb, hy⟩ := h.recorded name σ (hs.schemes ▸ hσ)
    exact ⟨y, hb, hs.kept y σ hy⟩

/-- The symbol that a root function is taken for has the function's name, so no other name's scheme
is overwritten. -/
theorem Agreed.installed (hF : F.Built) (hI : Idle F B) (h : Agreed F B)
    (hs : Installed name B s) : Agreed F s ∧ (∀ y, (B.scopes.scheme? y).isSome →
      (s.scopes.scheme? y).isSome) := by
  obtain ⟨s1, y, σ, h1, hy, hsc, hsch⟩ := hs
  have hroot : (F.bindings rootScope).get? name = some y :=
    bindings_of_lookup?_root hF.parent (lookup?_congr hI.scopes _ _ ▸ hy)
  obtain ⟨z, hz, hname⟩ := hF.named name y hroot
  have hlt : y < s1.scopes.symbols.size := by
    rw [h1.symbols, hI.symbols]
    exact lt_of_symbol? hz
  have hslot : ∀ x, s.scopes.scheme? x = if y = x then some σ else s1.scopes.scheme? x := fun x =>
    hsc ▸ scheme?_setScheme_of_symbol (Array.getElem?_eq_getElem hlt) σ x
  have hA := h.filled h1
  refine ⟨⟨fun x τ hx hτ => ?_, fun n τ hn => ?_⟩, fun x hx => ?_⟩
  · rw [hslot] at hx
    split at hx
    · rename_i hyx
      exact ⟨name, hyx ▸ hroot⟩
    · exact hA.rooted x τ hx hτ
  · rw [hsch] at hn
    by_cases hne : name = n
    · subst hne
      rw [Assoc.get?_insert_self] at hn
      exact ⟨y, hroot, by rw [hslot, if_pos rfl, hn]⟩
    · rw [Assoc.get?_insert_of_ne _ hne] at hn
      obtain ⟨x, hx, hτ⟩ := hA.recorded n τ hn
      refine ⟨x, hx, ?_⟩
      rw [hslot, if_neg fun hyx => ?_, hτ]
      obtain ⟨w, hw, hwn⟩ := hF.named n x hx
      rw [← hyx, hz] at hw
      exact hne (hname ▸ hwn ▸ congrArg Symbol.name (Option.some.inj hw))
  · rw [hslot]
    split
    · rfl
    · obtain ⟨τ, hτ⟩ := Option.isSome_iff_exists.1 hx
      rw [h1.kept x τ hτ]
      rfl

theorem Installed.contains (h : Installed name B s) (n : String) :
    s.schemes.contains n = true ↔ B.schemes.contains n = true ∨ name = n := by
  obtain ⟨s1, y, σ, h1, -, -, hsch⟩ := h
  rw [hsch, Assoc.contains_insert, h1.schemes, Bool.or_eq_true, decide_eq_true_iff, or_comm]

/-- What one statement of the root list does to slots and recorded schemes. -/
structure Advances (F : ScopeTree) (t : Stmt Span) (o : Outcome) (s s' : CheckState) : Prop where
  idle : Idle F s'
  agreed : Agreed F s'
  kept : ∀ y, (s.scopes.scheme? y).isSome → (s'.scopes.scheme? y).isSome
  defined : ∀ name, s'.schemes.contains name = true ↔
    s.schemes.contains name = true ∨ Defines name t o

theorem Advances.of_filled {o : Outcome} (hI : Idle F s) (hA : Agreed F s) (h : Filled s s1)
    (hs : s'.scopes = s1.scopes) (hσ : s'.schemes = s1.schemes) (hq : s'.queue = [])
    (hr : s'.returns = []) (hn : ∀ name, ¬ Defines name t o) : Advances F t o s s' := by
  have h' : Filled s s' := h.congr hs hσ
  refine ⟨⟨h'.scopes.trans hI.scopes, h'.symbols.trans hI.symbols, hq, hr⟩, hA.filled h',
    fun y hy => ?_, fun name => ?_⟩
  · obtain ⟨σ, hσ⟩ := Option.isSome_iff_exists.1 hy
    rw [h'.kept y σ hσ]
    rfl
  · rw [h'.schemes]
    exact (or_iff_left (hn name)).symm

theorem advances_outcome {opts : CheckOptions} {o : Outcome} (hF : F.Built) (hI : Idle F s)
    (hA : Agreed F s) (ht : t.TopStamped) (ho : outcome opts t s = .ok (o, s')) :
    Advances F t o s s' := by
  let B : CheckState := { s with events := [] }
  have hB : ∀ a, B.scopes.level a = 1 ↔ a = rootScope := fun a => by
    rw [show B.scopes.level a = F.level a from level_congr hI.scopes a]
    exact ⟨hF.eq_root_of_level, fun ha => ha ▸ hF.level⟩
  have h : (fills B).At none B := ⟨.refl B, congrArg (·.head?.map Prod.fst) hI.returns⟩
  have hfrom : ∀ {s1}, Filled B s1 → Filled s s1 := fun h =>
    ⟨h.scopes, h.symbols, h.schemes, h.kept, h.mono⟩
  obtain ⟨τ, rfl, hdone, hq, hr⟩ | ⟨e, s1, rfl, rfl, hfail⟩ :=
    outcome_of_ends (installs_topLevel hB h hI.queue hI.returns ht) ho
  · unfold Done at hdone
    split at hdone
    · rename_i hn
      exact .of_filled hI hA (hfrom hdone) rfl rfl hq hr fun name hd => by
        rw [Defines, hn] at hd
        cases hd.1
    · rename_i name hn
      obtain ⟨hA', hkept⟩ := Agreed.installed (B := B) hF
        ⟨hI.scopes, hI.symbols, hI.queue, hI.returns⟩ ⟨hA.rooted, hA.recorded⟩ hdone
      refine ⟨?_, hA', hkept, fun n => ?_⟩
      · obtain ⟨s1, y, σ, h1, -, hsc, -⟩ := hdone
        refine ⟨?_, ?_, hq, hr⟩
        · rw [hsc, scopes_setScheme, h1.scopes]
          exact hI.scopes
        · rw [hsc, size_symbols_setScheme, h1.symbols]
          exact hI.symbols
      · rw [hdone.contains]
        refine or_congr_right ⟨fun he => ⟨he ▸ hn, τ, rfl⟩, fun hd => ?_⟩
        exact Option.some.inj (hn.symm.trans hd.1)
  · exact .of_filled hI hA (hfrom hfail) rfl rfl rfl rfl fun name hd => by
      obtain ⟨τ, hτ⟩ := hd.2
      cases hτ

end

end

/-- Slots and recorded schemes, once the statements `done` of the root list have come to `os`. -/
structure Consistent (F : ScopeTree) (done : List (Stmt Span)) (os : List Outcome)
    (s : CheckState) : Prop where
  /-- No scope and no binding has changed. -/
  scopes : s.scopes.scopes = F.scopes
  /-- A symbol with a polymorphic scheme is one that the root scope binds. -/
  rooted : ∀ y σ, s.scopes.scheme? y = some σ → σ.vars ≠ [] →
    ∃ name, (F.bindings rootScope).get? name = some y
  /-- The names of the functions that were checked with success are recorded, and no others. -/
  defined : ∀ name, s.schemes.contains name = true ↔ ∃ p ∈ done.zip os, Defines name p.1 p.2
  /-- What is recorded for a name is in the slot of the symbol that the root scope binds to it. -/
  recorded : ∀ name σ, s.schemes.get? name = some σ →
    ∃ y, (F.bindings rootScope).get? name = some y ∧ s.scopes.scheme? y = some σ

theorem advances_outcomes {opts : CheckOptions} {F : ScopeTree} (hF : F.Built) :
    ∀ (ts : List (Stmt Span)) {s s' : CheckState} {os : List Outcome}, Idle F s → Agreed F s →
      (∀ t ∈ ts, t.TopStamped) → outcomes opts ts s = .ok (os, s') →
      (Idle F s' ∧ Agreed F s') ∧
        (∀ y, (s.scopes.scheme? y).isSome → (s'.scopes.scheme? y).isSome) ∧
        ∀ name, s'.schemes.contains name = true ↔
          s.schemes.contains name = true ∨ ∃ p ∈ ts.zip os, Defines name p.1 p.2
  | [], s, s', os, hI, hA, _, hos => by
    cases hos
    exact ⟨⟨hI, hA⟩, fun _ => id, fun _ => by simp⟩
  | t :: ts, s, s', os, hI, hA, hts, hos => by
    obtain ⟨ht, hts⟩ := List.forall_mem_cons.1 hts
    obtain ⟨⟨o, s1⟩, ho, hos⟩ := Action.except_bind_eq_ok.1 hos
    obtain ⟨⟨os', s2⟩, hos', h⟩ := Action.except_bind_eq_ok.1 hos
    cases h
    have h1 := advances_outcome hF hI hA ht ho
    obtain ⟨hend, hkept, hdef⟩ := advances_outcomes hF ts h1.idle h1.agreed hts hos'
    refine ⟨hend, fun y hy => hkept y (h1.kept y hy), fun name => ?_⟩
    rw [hdef, h1.defined, List.zip_cons_cons, or_assoc]
    simp only [List.exists_mem_cons_iff]

end Check

/-! ## Results by name -/

namespace Assoc

variable {κ ν μ : Type} [DecidableEq κ]

/-- Checked computations on the values of a table answer key by key. -/
theorem getEntry?_of_mapM {f : ν → Except Fault μ} {g : κ × ν → Except Fault (κ × μ)}
    (hg : ∀ k v, g (k, v) = do return (k, ← f v)) : ∀ {es : List (κ × ν)} {bs : List (κ × μ)},
    es.mapM g = .ok bs → ∀ k,
      (∃ v b, getEntry? k es = some v ∧ getEntry? k bs = some b ∧ f v = .ok b) ∨
        getEntry? k es = none ∧ getEntry? k bs = none
  | [], bs, h, k => by
    cases h
    exact .inr ⟨rfl, rfl⟩
  | (j, v) :: es, bs, h, k => by
    rw [List.mapM_cons, hg] at h
    obtain ⟨e, he, h⟩ := Action.except_bind_eq_ok.1 h
    obtain ⟨b, hb, he⟩ := Action.except_bind_eq_ok.1 he
    obtain ⟨bs', hbs, h⟩ := Action.except_bind_eq_ok.1 h
    cases he
    cases h
    by_cases hjk : j = k
    · exact .inl ⟨v, b, if_pos hjk, if_pos hjk, hb⟩
    · unfold getEntry?
      simp only [if_neg hjk]
      exact getEntry?_of_mapM hg hbs k

/-- The value of a key stays when the entries that have no value of another kind are left out. -/
theorem getEntry?_filterMap {f : ν → Option μ} {g : κ × ν → Option (κ × μ)}
    (hg : ∀ k v, g (k, v) = (f v).map fun b => (k, b)) {k : κ} {v : ν} {b : μ} (hb : f v = some b) :
    ∀ {es : List (κ × ν)}, getEntry? k es = some v → getEntry? k (es.filterMap g) = some b
  | [], h => by cases h
  | (j, w) :: es, h => by
    unfold getEntry? at h
    split at h
    · rename_i hjk
      obtain rfl := Option.some.inj h
      rw [List.filterMap_cons_some (by rw [hg, hb, Option.map_some]), getEntry?, if_pos hjk]
    · rename_i hjk
      have ih := getEntry?_filterMap hg hb h
      rw [List.filterMap_cons, hg]
      cases f w with
      | none => exact ih
      | some c => exact (if_neg hjk).trans ih

end Assoc

/-- In the result of a run whose last state is consistent, a recorded scheme is that of the global
of its name. -/
theorem CheckRun.result_schemes {R : CheckRun} {F : ScopeTree} {done : List (Stmt Span)}
    {os : List Outcome} (hR : Check.Consistent F done os R.final) {r : CheckResult}
    (hr : R.result = .ok r) {name : String} {σ : Scheme}
    (hσ : Assoc.getEntry? name r.schemes = some σ) : Assoc.getEntry? name r.globals = some σ := by
  obtain ⟨types, -, hr⟩ := Action.except_bind_eq_ok.1 hr
  obtain ⟨schemes, hs, hr⟩ := Action.except_bind_eq_ok.1 hr
  obtain ⟨globals, hg, hr⟩ := Action.except_bind_eq_ok.1 hr
  cases hr
  obtain ⟨τ, σ', hτ, hσ', hres⟩ | ⟨-, hn⟩ := Assoc.getEntry?_of_mapM (fun _ _ => rfl) hs name
  case inr => exact nomatch hn.symm.trans hσ
  obtain rfl := Option.some.inj (hσ'.symm.trans hσ)
  obtain ⟨y, hy, hslot⟩ := hR.recorded name τ hτ
  have hroot : Assoc.getEntry? name (R.final.scopes.bindings rootScope).toList = some y := by
    rw [bindings, scope?, hR.scopes]
    exact hy
  have hglobal : Assoc.getEntry? name ((R.final.scopes.bindings rootScope).toList.filterMap
      fun e => (R.final.scopes.scheme? e.2).map fun σ => (e.1, σ)) = some τ :=
    Assoc.getEntry?_filterMap (fun _ _ => rfl) hslot hroot
  obtain ⟨τ', σ'', hτ', hσ'', hres'⟩ | ⟨hn, -⟩ := Assoc.getEntry?_of_mapM (fun _ _ => rfl) hg name
  · obtain rfl := Option.some.inj (hτ'.symm.trans hglobal)
    rw [hσ'', Except.ok.inj (hres'.symm.trans hres)]
  · exact nomatch hn.symm.trans hglobal

theorem Program.consistent_outcomes (P : Program Span) {opts : CheckOptions}
    {done rest : List (Stmt Span)} {os : List Outcome} {s : CheckState}
    (hP : P.bind.1 = done ++ rest)
    (hs : Check.outcomes opts done (Check.start P.bind.2) = .ok (os, s)) :
    Check.Consistent P.bind.2 done os s ∧ Check.Idle P.bind.2 s := by
  obtain ⟨hF, hstamped⟩ := P.bind_built
  have hA : Check.Agreed P.bind.2 (Check.start P.bind.2) :=
    ⟨fun y σ hy hσ => absurd (hF.mono y σ hy) hσ, fun name σ hn => by cases hn⟩
  obtain ⟨⟨hI, hA⟩, -, hdef⟩ := Check.advances_outcomes hF done ⟨rfl, rfl, rfl, rfl⟩ hA
    (fun t ht => hstamped t (hP ▸ List.mem_append_left rest ht)) hs
  refine ⟨⟨hI.scopes, hA.rooted, fun name => ?_, hA.recorded⟩, hI⟩
  rw [hdef]
  exact or_iff_right nofun

/-- Before, between and after the top-level statements of a program the slots and the recorded
schemes are consistent, and a filled slot stays filled; so the check reports for a name that it
reports a scheme for the same scheme among the globals. -/
theorem Program.schemes_consistent (P : Program Span) (opts : CheckOptions) :
    (∀ {done rest os s}, P.bind.1 = done ++ rest →
      Check.outcomes opts done (Check.start P.bind.2) = .ok (os, s) →
      Check.Consistent P.bind.2 done os s ∧
        ∀ {next rest' os' s'}, rest = next ++ rest' → Check.outcomes opts next s = .ok (os', s') →
          ∀ y, (s.scopes.scheme? y).isSome → (s'.scopes.scheme? y).isSome) ∧
    ∀ {r}, P.bind.1.check opts P.bind.2 = .ok r → ∀ {name σ},
      Assoc.getEntry? name r.schemes = some σ → Assoc.getEntry? name r.globals = some σ := by
  obtain ⟨hF, hstamped⟩ := P.bind_built
  refine ⟨fun {done rest os s} hP hs => ?_, fun {r} hr {name σ} hσ => ?_⟩
  · obtain ⟨hC, hI⟩ := P.consistent_outcomes hP hs
    refine ⟨hC, fun {next rest' os' s'} hrest hs' => ?_⟩
    refine (Check.advances_outcomes hF next hI ⟨hC.rooted, hC.recorded⟩ (fun t ht => ?_) hs').2.1
    exact hstamped t (hP ▸ List.mem_append_right done (hrest ▸ List.mem_append_left rest' ht))
  · obtain ⟨R, hR, hr⟩ := Action.except_bind_eq_ok.1 hr
    obtain ⟨⟨os, s⟩, hs, h⟩ := Action.except_bind_eq_ok.1 hR
    cases h
    exact CheckRun.result_schemes (P.consistent_outcomes (List.append_nil _).symm hs).1 hr hσ

/-- `fun f(x) { x }; 1 + 'c'; fun f(y) { { fun h(z) { z }; h(y) } }` -/
def redeclaredSample : Program Span := Program.number 0 [
  .funDecl "f" [⟨"x", none⟩] (some (.var "x" none 0 none)) none none 0 0,
  .expr (.binary .add (.literal (.int 1) none) (.literal (.char 'c') none) none),
  .funDecl "f" [⟨"y", none⟩] (some (.block
    [.funDecl "h" [⟨"z", none⟩] (some (.var "z" none 0 none)) none none 0 0]
    (some (.call "h" none [.var "y" none 0 none] none 0)) none 0)) none none 0 0]

/-- A name declared twice, with a statement between that fails. -/
theorem schemes_consistent_redeclaredSample :
    ∃ os s os' s', Check.outcomes ⟨10000⟩ (redeclaredSample.bind.1.take 1)
        (Check.start redeclaredSample.bind.2) = .ok (os, s) ∧
      Check.outcomes ⟨10000⟩ (redeclaredSample.bind.1.drop 1) s = .ok (os', s') ∧
      (os'.map fun o => o.verdict.toOption.isSome) = [false, true] ∧
      Check.Consistent redeclaredSample.bind.2 (redeclaredSample.bind.1.take 1) os s ∧
      (∀ y, (s.scopes.scheme? y).isSome → (s'.scopes.scheme? y).isSome) ∧
      ∃ r σ, redeclaredSample.bind.1.check ⟨10000⟩ redeclaredSample.bind.2 = .ok r ∧
        σ.vars.length = 1 ∧ Assoc.getEntry? "f" r.schemes = some σ ∧
        Assoc.getEntry? "f" r.globals = some σ := by
  have hrun : (do
      let p ← Check.outcomes ⟨10000⟩ (redeclaredSample.bind.1.take 1)
        (Check.start redeclaredSample.bind.2)
      let q ← Check.outcomes ⟨10000⟩ (redeclaredSample.bind.1.drop 1) p.2
      return q.1.map fun o : Outcome => o.verdict.toOption.isSome).toOption =
        some [false, true] := by decide +kernel
  obtain ⟨⟨os, s⟩, hs, hrun⟩ := Action.except_bind_eq_ok.1 (Action.eq_ok_of_toOption hrun)
  obtain ⟨⟨os', s'⟩, hs', hrun⟩ := Action.except_bind_eq_ok.1 hrun
  have hcheck : (redeclaredSample.bind.1.check ⟨10000⟩ redeclaredSample.bind.2).toOption.map
      (fun r => Option.map (fun σ : Scheme => σ.vars.length) <| Assoc.getEntry? "f" r.schemes) =
        some (some 1) := by
    decide +kernel
  obtain ⟨r, hr, hcheck⟩ := Option.map_eq_some_iff.1 hcheck
  obtain ⟨σ, hσ, hlen⟩ := Option.map_eq_some_iff.1 hcheck
  have hr := Action.eq_ok_of_toOption hr
  obtain ⟨hC, hkept⟩ := (redeclaredSample.schemes_consistent ⟨10000⟩).1
    (List.take_append_drop 1 redeclaredSample.bind.1).symm hs
  exact ⟨os, s, os', s', hs, hs', Except.ok.inj hrun, hC, hkept (List.append_nil _).symm hs', r, σ,
    hr, hlen, hσ, (redeclaredSample.schemes_consistent ⟨10000⟩).2 hr hσ⟩

end TypeInference
