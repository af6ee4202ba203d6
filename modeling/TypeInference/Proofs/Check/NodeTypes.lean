import TypeInference.Proofs.Check.Obligations
import TypeInference.Proofs.Program.TypedNodes

/-!
# The table of node types

`Tabulated ns fields m m'` says what a successful walk over syntax with the typed nodes `ns` does to
the table: it enters the nodes at their positions and leaves all other entries alone, and `fields`
are the accesses it met, each with the type that it gave to what the access stands in. `Tabulates`
says so of an action; it is kept along the syntax (`tabulates_expr`, `tabulates_stmt`), for every
construct walks all its parts, or stops, or stands for fewer.

Nothing is said of a position that two nodes share. Where no two share one, every entry is the one
of its node, and at the end of a check without errors the table has an entry for each of these nodes
and no other (`Program.types_exact`). Entries are resolved when all statements are done.
-/

namespace TypeInference

/-! ## Keys of tables -/

namespace Assoc

variable {κ ν : Type} [DecidableEq κ]

theorem mem_keys_insertEntry {k j : κ} {v : ν} : ∀ {es : List (κ × ν)},
    j ∈ (insertEntry k v es).map Prod.fst ↔ j = k ∨ j ∈ es.map Prod.fst
  | [] => by simp [insertEntry]
  | (i, w) :: es => by
    have ih : j ∈ (insertEntry k v es).map Prod.fst ↔ _ := mem_keys_insertEntry
    unfold insertEntry
    split
    · rename_i hik
      simp only [List.map_cons, List.mem_cons, hik]
      exact ⟨.inr, fun h => h.elim .inl id⟩
    · simp only [List.map_cons, List.mem_cons, ih]
      exact or_left_comm

theorem nodup_insertEntry {k : κ} {v : ν} : ∀ {es : List (κ × ν)}, (es.map Prod.fst).Nodup →
    ((insertEntry k v es).map Prod.fst).Nodup
  | [], _ => List.nodup_cons.2 ⟨nofun, .nil⟩
  | (i, w) :: es, h => by
    obtain ⟨hi, hes⟩ := List.nodup_cons.1 h
    unfold insertEntry
    split
    · exact h
    · rename_i hik
      refine List.nodup_cons.2 ⟨fun hm => ?_, nodup_insertEntry hes⟩
      exact (mem_keys_insertEntry.1 hm).elim hik hi

theorem nodup_keys_insert {m : Assoc κ ν} (h : m.keys.Nodup) (k : κ) (v : ν) :
    (m.insert k v).keys.Nodup :=
  nodup_insertEntry h

theorem getEntry?_eq_some {k : κ} {v : ν} {es : List (κ × ν)} (h : (es.map Prod.fst).Nodup) :
    getEntry? k es = some v ↔ (k, v) ∈ es := by
  induction es with
  | nil => exact ⟨nofun, nofun⟩
  | cons e es ih =>
    obtain ⟨i, w⟩ := e
    obtain ⟨hi, hes⟩ := List.nodup_cons.1 h
    unfold getEntry?
    split
    · rename_i hik
      subst hik
      have hv : (i, v) ∉ es := fun hm => hi (List.mem_map.2 ⟨(i, v), hm, rfl⟩)
      simp [hv, eq_comm]
    · rename_i hik
      rw [ih hes, List.mem_cons]
      exact (or_iff_right fun he => hik (congrArg Prod.fst he).symm).symm

/-- In a table without repeated keys the entries are the values of the keys. -/
theorem get?_eq_some {m : Assoc κ ν} (h : m.keys.Nodup) {k : κ} {v : ν} :
    m.get? k = some v ↔ (k, v) ∈ m.toList :=
  getEntry?_eq_some h

end Assoc

/-- The position and the type of a field access. -/
def Event.field? : Event → Option (Span × Ty)
  | .field p t => some (p, t)
  | _ => none

/-- The field accesses among events. -/
def Event.fields (events : List Event) : List (Span × Ty) := events.filterMap Event.field?

theorem Event.mem_fields {events : List Event} {p : Span} {t : Ty} :
    (p, t) ∈ Event.fields events ↔ .field p t ∈ events := by
  unfold fields
  rw [List.mem_filterMap]
  constructor
  · rintro ⟨e, he, hf⟩
    cases e with
    | field q u =>
      cases hf
      exact he
    | _ => cases hf
  · exact fun h => ⟨_, h, rfl⟩

theorem Event.fields_append (es fs : List Event) :
    Event.fields (es ++ fs) = Event.fields es ++ Event.fields fs :=
  List.filterMap_append

namespace Check

/-- The type `t` is one for the node, where `fields` are the accesses met. -/
def Entry (fields : List (Span × Ty)) (t : Ty) : TypedNode → Prop
  | ⟨_, .literal v⟩ => t = literalType v
  | ⟨p, .field⟩ => (p, t) ∈ fields
  | ⟨_, .typeDecl⟩ => True
  | ⟨_, .function k⟩ => ∃ params result, t = .fn params result ∧ params.length = k

theorem Entry.mono {fs gs : List (Span × Ty)} {t : Ty} {n : TypedNode} (h : Entry fs t n)
    (hsub : ∀ f ∈ fs, f ∈ gs) : Entry gs t n := by
  obtain ⟨p, kind⟩ := n
  cases kind with
  | field => exact hsub _ h
  | _ => exact h

/-- The positions of the field accesses among nodes. -/
def fieldPositions (ns : List TypedNode) : List Span :=
  (ns.filter fun n => n.kind = .field).map TypedNode.pos

theorem fieldPositions_append (ns ms : List TypedNode) :
    fieldPositions (ns ++ ms) = fieldPositions ns ++ fieldPositions ms := by
  simp only [fieldPositions, List.filter_append, List.map_append]

/-- Between the tables `m` and `m'` the nodes `ns` were entered (module doc). -/
structure Tabulated (ns : List TypedNode) (fields : List (Span × Ty)) (m m' : Assoc Span Ty) :
    Prop where
  met : (fields.map Prod.fst).Perm (fieldPositions ns)
  entry : ∀ p, (∃ n ∈ ns, n.pos = p ∧ ∃ t, m'.get? p = some t ∧ Entry fields t n) ∨
    (∀ n ∈ ns, n.pos ≠ p) ∧ m'.get? p = m.get? p
  nodup : m.keys.Nodup → m'.keys.Nodup

/-- If the action succeeds, it has entered the nodes `ns`, and its value is as in `Q`. -/
def Tabulates {α : Type} (ns : List TypedNode) (x : CheckM α) (Q : α → Prop) : Prop :=
  ∀ s a s', x.outcome s = (.ok a, s') → Q a ∧ ∃ es, s'.events = es ++ s.events ∧
    Tabulated ns (Event.fields es) s.types s'.types

section
variable {α β : Type} {ns ms : List TypedNode} {fs gs : List (Span × Ty)}
  {m m' m'' : Assoc Span Ty} {x : CheckM α} {Q : α → Prop} {R : β → Prop}

theorem Tabulated.refl (m : Assoc Span Ty) : Tabulated [] [] m m :=
  ⟨.nil, fun _ => .inr ⟨nofun, rfl⟩, id⟩

theorem Tabulated.trans (h : Tabulated ns fs m m') (h' : Tabulated ms gs m' m'') :
    Tabulated (ns ++ ms) (gs ++ fs) m m'' where
  met := by
    rw [List.map_append, fieldPositions_append]
    exact (h'.met.append h.met).trans List.perm_append_comm
  entry p := by
    -- the later entry is the one that stays
    obtain ⟨n, hn, hp, t, ht, he⟩ | ⟨hn', hp'⟩ := h'.entry p
    · exact .inl ⟨n, List.mem_append_right _ hn, hp, t, ht,
        he.mono fun f hf => List.mem_append_left _ hf⟩
    · obtain ⟨n, hn, hp, t, ht, he⟩ | ⟨hn, hp⟩ := h.entry p
      · exact .inl ⟨n, List.mem_append_left _ hn, hp, t, hp'.trans ht,
          he.mono fun f hf => List.mem_append_right _ hf⟩
      · refine .inr ⟨fun n hm => ?_, hp'.trans hp⟩
        exact (List.mem_append.1 hm).elim (hn n) (hn' n)
  nodup hm := h'.nodup (h.nodup hm)

/-- The order of the nodes and of the accesses is of no account. -/
theorem Tabulated.perm (h : Tabulated ns fs m m') (hn : ns.Perm ms) (hf : fs.Perm gs) :
    Tabulated ms gs m m' where
  met := (hf.map _).symm.trans (h.met.trans ((hn.filter _).map _))
  entry p := by
    obtain ⟨n, hm, hp, t, ht, he⟩ | ⟨hm, hp⟩ := h.entry p
    · exact .inl ⟨n, hn.mem_iff.1 hm, hp, t, ht, he.mono fun f => hf.mem_iff.1⟩
    · exact .inr ⟨fun n h' => hm n (hn.mem_iff.2 h'), hp⟩
  nodup := h.nodup

/-- In an empty table nodes that do not share positions have their entries, each its own, and there
are no others. -/
theorem Tabulated.exact (h : Tabulated ns fs ∅ m) (hns : (ns.map TypedNode.pos).Nodup) :
    m.keys.Perm (ns.map TypedNode.pos) ∧ (fs.map Prod.fst).Nodup ∧
      ∀ n ∈ ns, ∃ t, (n.pos, t) ∈ m.toList ∧ Entry fs t n := by
  have hm : m.keys.Nodup := h.nodup .nil
  have hentry : ∀ n ∈ ns, ∃ t, (n.pos, t) ∈ m.toList ∧ Entry fs t n := by
    intro n hn
    obtain ⟨n', hn', hp, t, ht, he⟩ | ⟨hno, -⟩ := h.entry n.pos
    · obtain rfl := List.inj_on_of_nodup_map hns hn' hn hp
      exact ⟨t, (Assoc.get?_eq_some hm).1 ht, he⟩
    · exact absurd rfl (hno n hn)
  refine ⟨(List.perm_ext_iff_of_nodup hm hns).2 fun p => ⟨fun hp => ?_, fun hp => ?_⟩, ?_, hentry⟩
  · obtain ⟨e, he, rfl⟩ := List.mem_map.1 hp
    obtain ⟨n, hn, hp, -⟩ | ⟨-, hnone⟩ := h.entry e.1
    · exact List.mem_map.2 ⟨n, hn, hp⟩
    · rw [(Assoc.get?_eq_some hm).2 he] at hnone
      cases hnone
  · obtain ⟨n, hn, rfl⟩ := List.mem_map.1 hp
    obtain ⟨t, ht, -⟩ := hentry n hn
    exact List.mem_map.2 ⟨_, ht, rfl⟩
  · exact h.met.nodup_iff.2 (hns.sublist (List.filter_sublist.map _))

/-! ## Actions in turn -/

theorem Tabulates.imp {Q' : α → Prop} (h : Tabulates ns x Q) (hQ : ∀ a, Q a → Q' a) :
    Tabulates ns x Q' := fun s a s' hx =>
  have ⟨hq, h⟩ := h s a s' hx
  ⟨hQ a hq, h⟩

theorem Tabulates.perm (h : Tabulates ns x Q) (hp : ns.Perm ms) : Tabulates ms x Q :=
  fun s a s' hx =>
    have ⟨hq, es, hes, h⟩ := h s a s' hx
    ⟨hq, es, hes, h.perm hp .rfl⟩

theorem Tabulates.bind {f : α → CheckM β} (h : Tabulates ns x Q)
    (hf : ∀ a, Q a → Tabulates ms (f a) R) : Tabulates (ns ++ ms) (x >>= f) R := by
  intro s b s'' hx
  obtain ⟨a, s', hx, hfx⟩ := Action.outcome_bind_eq_ok.1 hx
  obtain ⟨hq, es, hes, ht⟩ := h s a s' hx
  obtain ⟨hr, es', hes', ht'⟩ := hf a hq s' b s'' hfx
  refine ⟨hr, es' ++ es, by rw [hes', hes, List.append_assoc], ?_⟩
  rw [Event.fields_append]
  exact ht.trans ht'

/-- What enters no node comes last. -/
theorem Tabulates.last {f : α → CheckM β} (h : Tabulates ns x Q)
    (hf : ∀ a, Q a → Tabulates [] (f a) R) : Tabulates ns (x >>= f) R :=
  List.append_nil ns ▸ h.bind hf

/-- What enters no node comes first. -/
theorem Tabulates.first {f : α → CheckM β} (h : Tabulates [] x Q)
    (hf : ∀ a, Q a → Tabulates ns (f a) R) : Tabulates ns (x >>= f) R :=
  h.bind hf

theorem tabulates_get_bind {f : CheckState → CheckM β} (h : ∀ s, Tabulates ns (f s) R) :
    Tabulates ns (get >>= f) R := fun s => h s s

theorem tabulates_fail {e : TypeError} : Tabulates ns (Action.fail e) Q := nofun

theorem tabulates_abort {f : Fault} : Tabulates ns (Action.abort f) Q := nofun

theorem tabulates_pure {a : α} (h : Q a) : Tabulates [] (pure a) Q := by
  rintro s _ _ ⟨⟩
  exact ⟨h, [], rfl, .refl _⟩

theorem tabulates_done {a : α} : Tabulates [] (pure a) fun _ => True := tabulates_pure trivial

/-- An action that leaves the table and the events alone. -/
theorem tabulates_aside (hx : ∀ s, (x.outcome s).2.types = s.types)
    (he : ∀ s, (x.outcome s).2.events = s.events) : Tabulates [] x fun _ => True := by
  intro s a s' h
  have ht := hx s
  have he := he s
  rw [h] at ht he
  dsimp only at ht he
  exact ⟨trivial, [], he, ht ▸ .refl _⟩

/-! ## The operations of a walk -/

theorem tabulates_require {r : Except Fault α} :
    Tabulates [] (Action.require r) fun a => r = .ok a := by
  cases r with
  | ok a => exact tabulates_pure rfl
  | error f => exact tabulates_abort

theorem tabulates_readTable {f : VarTable → Except Fault α} :
    Tabulates [] (readTable f) fun a => ∃ T, f T = .ok a :=
  tabulates_get_bind fun s => tabulates_require.imp fun _ ha => ⟨s.table, ha⟩

theorem tabulates_onTable {x : Action VarTable α} : Tabulates [] (onTable x) fun _ => True :=
  tabulates_aside (fun _ => rfl) fun _ => rfl

theorem tabulates_fresh : Tabulates [] fresh fun _ => True :=
  tabulates_aside (fun _ => rfl) fun _ => rfl

theorem tabulates_note {e : Event} (h : e.field? = none) :
    Tabulates [] (note e) fun _ => True := by
  rintro s _ _ ⟨⟩
  exact ⟨trivial, [e], rfl, by rw [Event.fields, List.filterMap_cons_none h]; exact .refl _⟩

theorem tabulates_demand {c : Constraint} {o : Origin} :
    Tabulates [] (demand c o) fun _ => True :=
  (tabulates_note rfl).last fun _ _ => tabulates_aside (fun _ => rfl) fun _ => rfl

theorem tabulates_symbolScheme {x : SymbolId} : Tabulates [] (symbolScheme x) fun _ => True := by
  refine tabulates_get_bind fun s => tabulates_require.bind fun y _ => ?_
  split
  · exact tabulates_done
  · refine tabulates_fresh.bind fun t _ => ?_
    exact (tabulates_aside (fun _ => rfl) fun _ => rfl).last fun _ _ => tabulates_done

theorem tabulates_lookup {scope : ScopeId} {name : String} {pos : Span} :
    Tabulates [] (lookup scope name pos) fun _ => True := by
  refine tabulates_get_bind fun s => tabulates_require.bind fun _ _ => ?_
  split
  · exact tabulates_done
  · exact tabulates_fail

/-- Solving leaves the table of node types alone. -/
theorem tabulates_solveQueue {opts : CheckOptions} :
    Tabulates [] (solveQueue opts) fun _ => True :=
  tabulates_aside (fun _ => rfl) fun _ => rfl

/-- The entry of a node other than a field access. -/
theorem tabulates_record {pos : Span} {t : Ty} (kind : TypedKind) (hk : kind ≠ .field)
    (h : Entry [] t ⟨pos, kind⟩) : Tabulates [⟨pos, kind⟩] (record pos t) fun _ => True := by
  rintro s _ _ ⟨⟩
  refine ⟨trivial, [], rfl, ?_, fun p => ?_, fun hm => Assoc.nodup_keys_insert hm _ _⟩
  · simp [fieldPositions, Event.fields, hk]
  · by_cases hp : pos = p
    · exact .inl ⟨_, List.mem_singleton_self _, hp, t, hp ▸ Assoc.get?_insert_self _ _ _, h⟩
    · exact .inr ⟨List.forall_mem_singleton.2 hp, Assoc.get?_insert_of_ne _ hp _⟩

/-- The entry of a field access, noted with the type that is entered. -/
theorem tabulates_field {pos : Span} {t : Ty} :
    Tabulates [⟨pos, .field⟩] (do record pos t; note (.field pos t); return t) fun _ => True := by
  rintro s _ _ ⟨⟩
  refine ⟨trivial, [.field pos t], rfl, .refl _, fun p => ?_,
    fun hm => Assoc.nodup_keys_insert hm _ _⟩
  by_cases hp : pos = p
  · exact .inl ⟨_, List.mem_singleton_self _, hp, t, hp ▸ Assoc.get?_insert_self _ _ _,
      List.mem_singleton_self _⟩
  · exact .inr ⟨List.forall_mem_singleton.2 hp, Assoc.get?_insert_of_ne _ hp _⟩

/-- Most constructs end with a demand. -/
theorem tabulates_lastDemand {c : Constraint} {o : Origin} {a : α} :
    Tabulates [] (do demand c o; return a) fun _ => True :=
  tabulates_demand.last fun _ _ => tabulates_done

theorem tabulates_demands {t : Ty} {o : Origin} (cs : List Trait) :
    Tabulates [] (cs.forM fun c => demand (.has t c) o) fun _ => True := by
  induction cs with
  | nil => exact tabulates_done
  | cons c cs ih => exact tabulates_demand.last fun _ _ => ih

theorem tabulates_freshes (n : Nat) :
    Tabulates [] ((List.replicate n ()).mapM fun _ => fresh) fun ts => ts.length = n := by
  induction n with
  | zero => exact tabulates_pure rfl
  | succ n ih =>
    rw [List.replicate_succ, List.mapM_cons]
    refine tabulates_fresh.last fun t _ => ih.last fun ts hts => ?_
    exact tabulates_pure (congrArg (· + 1) hts)

theorem tabulates_readSymbol {pos : Span} {x : SymbolId} :
    Tabulates [] (readSymbol pos x) fun _ => True :=
  tabulates_symbolScheme.last fun _ _ => tabulates_onTable.last fun _ _ =>
    (tabulates_note rfl).last fun _ _ => tabulates_done

theorem tabulates_calleeSymbol {name : String} {namePos pos : Span} {home : ScopeId} :
    Tabulates [] (calleeSymbol name namePos pos home) fun _ => True :=
  tabulates_lookup.last fun _ _ => tabulates_symbolScheme.last fun _ _ =>
    tabulates_onTable.last fun _ _ => (tabulates_note rfl).last fun _ _ => tabulates_done

/-- The parameters of a callee are as many as its arguments. -/
theorem tabulates_calleeShape {name : String} {pos : Span} {count : Nat} {t : Ty} :
    Tabulates [] (calleeShape name pos count t) fun r =>
      ∀ params result, r = some (params, result) → params.length = count := by
  unfold calleeShape
  refine tabulates_readTable.last fun l _ => ?_
  split
  · split
    · refine tabulates_pure ?_
      rintro _ _ ⟨⟩
      assumption
    · exact tabulates_fail
  · refine (tabulates_freshes count).last fun params hlen => tabulates_fresh.last fun result _ =>
      tabulates_demand.last fun _ _ => tabulates_pure ?_
    rintro _ _ ⟨⟩
    exact hlen
  · exact tabulates_pure nofun

/-- The fields of a layout are as many as the values given. -/
theorem tabulates_initLayout {name : String} {pos : Span} {scope : ScopeId} {count : Nat} :
    Tabulates [] (initLayout name pos scope count) fun r => r.2.length = count := by
  unfold initLayout
  refine tabulates_lookup.last fun x _ => tabulates_symbolScheme.last fun σ _ =>
    tabulates_readTable.last fun l _ => ?_
  split
  · split
    · exact tabulates_pure ‹_›
    · exact tabulates_fail
  · exact tabulates_readTable.last fun _ _ => tabulates_fail

theorem tabulates_variableType {name : String} {pos : Span} {scope : ScopeId}
    {symbol : Option SymbolId} :
    Tabulates [] (variableType name pos scope symbol) fun _ => True := by
  unfold variableType
  cases symbol with
  | some x => exact tabulates_symbolScheme.last fun _ _ => tabulates_done
  | none => exact tabulates_lookup.last fun _ _ =>
      tabulates_symbolScheme.last fun _ _ => tabulates_done

theorem tabulates_returnType {function : Option String} {pos : Span} {scope : ScopeId} :
    Tabulates [] (returnType function pos scope) fun _ => True := by
  unfold returnType
  split
  · exact tabulates_abort
  · refine tabulates_get_bind fun s => ?_
    split
    · exact tabulates_done
    · refine tabulates_lookup.last fun _ _ => tabulates_symbolScheme.last fun _ _ =>
        tabulates_readTable.last fun _ _ => ?_
      split
      · exact tabulates_done
      · exact tabulates_abort

/-! ## Declarations -/

theorem tabulates_typeDecl {opts : CheckOptions} {name : String} {body : Ty} {pos : Span}
    {scope : ScopeId} :
    Tabulates [⟨pos, .typeDecl⟩] (stmt opts (.typeDecl name body pos scope)) fun _ => True := by
  unfold stmt
  exact tabulates_lookup.first fun x _ => (tabulates_note rfl).first fun _ _ =>
    tabulates_symbolScheme.first fun σ _ =>
      (tabulates_record .typeDecl nofun trivial).last fun _ _ => tabulates_done

/-- A function has a parameter for each formal. -/
theorem tabulates_bindFormals {bodyScope : ScopeId} (fs : List (Formal Span)) :
    Tabulates [] (bindFormals bodyScope fs) fun params => params.length = fs.length := by
  induction fs with
  | nil => exact tabulates_pure rfl
  | cons f fs ih =>
    unfold bindFormals
    refine tabulates_fresh.last fun _ _ => tabulates_lookup.last fun x _ =>
      (tabulates_note rfl).last fun _ _ => tabulates_symbolScheme.last fun σ _ =>
      tabulates_demand.last fun _ _ => ih.last fun params hlen => ?_
    exact tabulates_pure (congrArg (· + 1) hlen)

theorem tabulates_announce {name : String} {formals : List (Formal Span)} {pos : Span}
    {scope bodyScope : ScopeId} :
    Tabulates [] (announce name formals pos scope bodyScope) fun r =>
      ∃ params, r.2.1 = .fn params r.2.2 ∧ params.length = formals.length := by
  unfold announce
  refine (tabulates_bindFormals formals).last fun params hlen => tabulates_lookup.last fun x _ =>
    tabulates_fresh.last fun result _ => tabulates_symbolScheme.last fun σ _ =>
    tabulates_onTable.last fun declared _ => tabulates_demand.last fun _ _ =>
    (tabulates_note rfl).last fun _ _ => ?_
  exact tabulates_pure ⟨params, rfl, hlen⟩

theorem tabulates_generalizeFunction {name : String} {scope : ScopeId} {x : SymbolId} {t : Ty} :
    Tabulates [] (generalizeFunction name scope x t) fun _ => True := by
  unfold generalizeFunction envVars
  refine tabulates_get_bind fun _ => tabulates_require.last fun c _ => ?_
  split
  · simp only [bind_assoc, pure_bind]
    refine tabulates_get_bind fun _ => tabulates_require.last fun env _ =>
      tabulates_readTable.last fun σ _ => ?_
    exact tabulates_aside (fun _ => rfl) fun _ => rfl
  · exact tabulates_done

theorem tabulates_functionType {opts : CheckOptions} {name : String}
    {formals : List (Formal Span)} {body : Expr Span} {pos : Span} {scope bodyScope : ScopeId}
    (hbody : Tabulates ns (expr opts body) fun _ => True) :
    Tabulates ns (functionType opts name formals body pos scope bodyScope) fun r =>
      ∃ params result, r.2 = .fn params result ∧ params.length = formals.length := by
  unfold functionType
  refine tabulates_announce.first fun r hr =>
    (tabulates_aside (fun _ => rfl) fun _ => rfl).first fun _ _ => hbody.last fun t _ =>
    (tabulates_aside (fun _ => rfl) fun _ => rfl).last fun _ _ =>
    (tabulates_note rfl).last fun _ _ => tabulates_demand.last fun _ _ =>
    tabulates_solveQueue.last fun _ _ => tabulates_pure ?_
  obtain ⟨params, hr, hlen⟩ := hr
  exact ⟨params, _, hr, hlen⟩

/-- The entry of a function is a function type again, resolved. -/
theorem checkedResolve_fn {T : VarTable} {params : List Ty} {result t : Ty}
    (h : T.checkedResolve (.fn params result) = .ok t) :
    ∃ params' result', t = .fn params' result' ∧ params'.length = params.length := by
  obtain ⟨rfl, -⟩ := VarTable.checkedResolve_eq_ok h
  rw [VarTable.resolve_eq_bind, Ty.bind, Ty.bindAll_eq_map]
  exact ⟨_, _, rfl, List.length_map _⟩

theorem tabulates_funDecl {opts : CheckOptions} {name : String} {formals : List (Formal Span)}
    {body : Expr Span} {hint : Option Ty} {pos : Span} {scope bodyScope : ScopeId}
    (hbody : Tabulates ns (expr opts body) fun _ => True) :
    Tabulates (⟨pos, .function formals.length⟩ :: ns)
      (stmt opts (.funDecl name formals (some body) hint pos scope bodyScope)) fun _ => True := by
  rw [stmt_funDecl]
  refine tabulates_get_bind fun _ => (tabulates_aside (fun _ => rfl) fun _ => rfl).first
    fun _ _ => Tabulates.last (Q := fun _ => True) ?_ fun t _ =>
    (tabulates_aside (fun _ => rfl) fun _ => rfl).last fun _ _ => tabulates_done
  unfold functionDecl
  -- the function is entered after its body
  refine Tabulates.perm ?_ (List.perm_append_singleton _ ns)
  refine (tabulates_functionType hbody).bind ?_
  rintro ⟨x, _⟩ ⟨params, result, rfl, hlen⟩
  refine tabulates_generalizeFunction.first fun _ _ => tabulates_readTable.first fun t ht => ?_
  obtain ⟨T, hT⟩ := ht
  obtain ⟨params', result', rfl, hlen'⟩ := checkedResolve_fn hT
  exact (tabulates_record (.function _) nofun ⟨params', result', rfl, hlen'.trans hlen⟩).last
    fun _ _ => tabulates_done

end

/-! ## The walk -/

section
variable (opts : CheckOptions)

mutual

theorem tabulates_expr : ∀ e, Tabulates (Node.typed e.nodes) (expr opts e) fun _ => True
  | .literal v p => by
    unfold expr
    exact (tabulates_record (.literal v) nofun rfl).last fun _ _ => tabulates_done
  | .var x p sc none => by
    unfold expr
    exact tabulates_fail
  | .var x p sc (some y) => by
    unfold expr
    exact tabulates_readSymbol
  | .unary op e p => by
    rw [Expr.nodes, Node.typed_cons_none rfl, expr]
    exact (tabulates_expr e).last fun _ _ => tabulates_lastDemand
  | .binary op l r p => by
    rw [Expr.nodes, Node.typed_cons_none rfl, Node.typed_append, expr]
    exact (tabulates_expr l).bind fun _ _ => (tabulates_expr r).last fun _ _ => tabulates_lastDemand
  | .comparison op l r p => by
    rw [Expr.nodes, Node.typed_cons_none rfl, Node.typed_append, expr]
    exact (tabulates_expr l).bind fun _ _ => (tabulates_expr r).last fun _ _ =>
      (tabulates_demands _).last fun _ _ => tabulates_lastDemand
  | .cond c t e p => by
    rw [Expr.nodes, Node.typed_cons_none rfl, Node.typed_append, Node.typed_append, expr]
    exact (tabulates_expr c).bind fun _ _ => tabulates_demand.first fun _ _ =>
      (tabulates_expr t).bind fun _ _ => (tabulates_optional e).last fun _ _ => tabulates_lastDemand
  | .deref e p => by
    rw [Expr.nodes, Node.typed_cons_none rfl, expr]
    exact (tabulates_expr e).last fun _ _ => tabulates_fresh.last fun _ _ =>
      tabulates_demand.last fun _ _ => tabulates_readTable.imp fun _ _ => trivial
  | .addressOf e p => by
    rw [Expr.nodes, Node.typed_cons_none rfl, expr]
    exact (tabulates_expr e).last fun _ _ => tabulates_done
  | .alloc t none p => by
    unfold expr
    exact tabulates_done
  | .alloc t (some e) p => by
    rw [Expr.nodes, Node.typed_cons_none rfl, Expr.nodesOpt, expr]
    exact (tabulates_expr e).last fun _ _ => tabulates_lastDemand
  | .block ts e p sc => by
    rw [Expr.nodes, Node.typed_cons_none rfl, Node.typed_append, expr]
    exact (tabulates_stmts ts).bind fun _ _ => tabulates_optional e
  | .call x q as p sc => by
    rw [Expr.nodes, Node.typed_cons_none rfl]
    simp only [expr, ← calleeSymbol_bind]
    refine tabulates_get_bind fun s => tabulates_require.first fun _ _ => ?_
    split
    · exact tabulates_fail
    · refine tabulates_calleeSymbol.first fun t _ => tabulates_demand.first fun _ _ =>
        tabulates_calleeShape.first fun r hr => ?_
      split
      -- there are as many parameters as arguments, so every argument is walked
      · exact (tabulates_arguments as (hr _ _ rfl)).last fun _ _ => tabulates_done
      · exact (tabulates_walk as).last fun _ _ => tabulates_fresh
  | .callValue c as p sc => by
    unfold expr
    exact tabulates_abort
  | .structInit x vs p sc => by
    rw [Expr.nodes, Node.typed_cons_none rfl, expr]
    exact tabulates_initLayout.first fun r hr => (tabulates_fieldValues vs hr).last fun _ _ =>
      tabulates_done
  | .field e x p sc => by
    rw [Expr.nodes, Node.typed_cons_some rfl, expr]
    -- the access is entered after its base
    refine Tabulates.perm ?_ (List.perm_append_singleton _ _)
    exact (tabulates_expr e).bind fun _ _ => tabulates_readTable.first fun _ _ =>
      tabulates_fresh.first fun _ _ => tabulates_demand.first fun _ _ => tabulates_field
  | .cast e t p => by
    rw [Expr.nodes, Node.typed_cons_none rfl, expr]
    refine (tabulates_expr e).last fun _ _ => ?_
    split
    · exact tabulates_abort
    · exact tabulates_readTable.last fun _ _ => tabulates_lastDemand

theorem tabulates_optional : ∀ e,
    Tabulates (Node.typed (Expr.nodesOpt e)) (optional opts e) fun _ => True
  | none => by
    unfold optional
    exact tabulates_done
  | some e => by
    unfold optional
    exact tabulates_expr e

theorem tabulates_walk : ∀ es,
    Tabulates (Node.typed (Expr.nodesAll es)) (walk opts es) fun _ => True
  | [] => by
    unfold walk
    exact tabulates_done
  | e :: es => by
    rw [Expr.nodesAll, Node.typed_append, walk]
    exact (tabulates_expr e).bind fun _ _ => tabulates_walk es

theorem tabulates_arguments : ∀ {call i} {params : List Ty} (es : List (Expr Span)),
    params.length = es.length →
    Tabulates (Node.typed (Expr.nodesAll es)) (arguments opts call i params es) fun _ => True
  | call, i, [], [], _ => by
    unfold arguments
    exact tabulates_done
  | call, i, param :: params, e :: es, h => by
    rw [Expr.nodesAll, Node.typed_append, arguments]
    exact (tabulates_expr e).bind fun _ _ => tabulates_demand.first fun _ _ =>
      tabulates_arguments es (Nat.succ.inj h)

theorem tabulates_fieldValues : ∀ {init} {fields : List (String × Ty)} (es : List (Expr Span)),
    fields.length = es.length →
    Tabulates (Node.typed (Expr.nodesAll es)) (fieldValues opts init fields es) fun _ => True
  | init, [], [], _ => by
    unfold fieldValues
    exact tabulates_done
  | init, (name, ty) :: fields, e :: es, h => by
    rw [Expr.nodesAll, Node.typed_append, fieldValues]
    exact (tabulates_expr e).bind fun _ _ => tabulates_demand.first fun _ _ =>
      tabulates_fieldValues es (Nat.succ.inj h)

theorem tabulates_stmt : ∀ t, Tabulates (Node.typed t.nodes) (stmt opts t) fun _ => True
  | .expr e | .yield e p => by
    rw [Stmt.nodes, Node.typed_cons_none rfl, stmt]
    exact (tabulates_expr e).last fun _ _ => tabulates_done
  | .typeDecl x t p sc => tabulates_typeDecl
  | .varDecl x t e p sc y => by
    rw [Stmt.nodes, Node.typed_cons_none rfl, stmt_varDecl]
    exact tabulates_variableType.first fun _ _ => (tabulates_expr e).last fun _ _ =>
      tabulates_lastDemand
  | .funDecl x fs none t p sc sc' => by
    unfold stmt
    exact tabulates_done
  | .funDecl x fs (some e) t p sc sc' => by
    rw [Stmt.nodes, Node.typed_cons_some rfl, Expr.nodesOpt]
    exact tabulates_funDecl (tabulates_expr e)
  | .ret e f p sc => by
    rw [Stmt.nodes, Node.typed_cons_none rfl, stmt]
    exact tabulates_returnType.first fun _ _ => (tabulates_note rfl).first fun _ _ =>
      (tabulates_expr e).last fun _ _ => tabulates_lastDemand
  | .assign l r p => by
    rw [Stmt.nodes, Node.typed_cons_none rfl, Node.typed_append, stmt]
    -- the value comes before the target
    refine Tabulates.perm ?_ List.perm_append_comm
    exact (tabulates_expr r).bind fun _ _ => (tabulates_expr l).last fun _ _ => tabulates_lastDemand

theorem tabulates_stmts : ∀ ts,
    Tabulates (Node.typed (Stmt.nodesAll ts)) (stmts opts ts) fun _ => True
  | [] => by
    unfold stmts
    exact tabulates_done
  | t :: ts => by
    rw [Stmt.nodesAll, Node.typed_append, stmts]
    exact (tabulates_stmt t).bind fun _ _ => tabulates_stmts ts

theorem tabulates_topLevel (t : Stmt Span) :
    Tabulates (Node.typed t.nodes) (topLevel opts t) fun _ => True := by
  have hresolve : ∀ u : Ty, Tabulates [] (readTable fun T => T.checkedResolve u) fun _ => True :=
    fun _ => tabulates_readTable.imp fun _ _ => trivial
  refine (tabulates_stmt t).last fun u _ => tabulates_get_bind fun s => ?_
  dsimp only
  split
  · exact tabulates_solveQueue.last fun _ _ => hresolve u
  · exact hresolve u

end

end

/-! ## Whole checks -/

theorem tabulated_outcome {opts : CheckOptions} {t : Stmt Span} {s s' : CheckState} {o : Outcome}
    (ho : outcome opts t s = .ok (o, s')) (hok : ∃ τ, o.verdict = .ok τ) :
    Tabulated (Node.typed t.nodes) (Event.fields o.events) s.types s'.types := by
  obtain ⟨τ, rfl, hx, -⟩ | ⟨e, s1, rfl, -⟩ :=
    outcome_of_ends (Action.ends_anyhow _ _).withOutcome ho
  · obtain ⟨-, es, hes, h⟩ := tabulates_topLevel opts t _ _ _ hx
    have hes : s'.events = es := hes.trans (List.append_nil es)
    rw [← hes] at h
    exact h.perm .rfl ((List.reverse_perm _).symm.filterMap _)
  · obtain ⟨τ, hτ⟩ := hok
    cases hτ

theorem tabulated_outcomes {opts : CheckOptions} : ∀ (ts : List (Stmt Span)) {s s' : CheckState}
    {os : List Outcome}, outcomes opts ts s = .ok (os, s') →
    (∀ o ∈ os, ∃ τ, o.verdict = .ok τ) →
    Tabulated (Node.typed (Stmt.nodesAll ts)) (Event.fields (os.flatMap Outcome.events)) s.types
      s'.types
  | [], s, s', os, ho, _ => by
    obtain ⟨rfl, rfl⟩ := Prod.mk.inj (Except.ok.inj ho)
    exact .refl _
  | t :: ts, s, s', os, ho, hok => by
    unfold outcomes at ho
    obtain ⟨⟨o, s1⟩, ho1, ho⟩ := Action.except_bind_eq_ok.1 ho
    obtain ⟨⟨os', s2⟩, ho2, ho⟩ := Action.except_bind_eq_ok.1 ho
    obtain ⟨rfl, rfl⟩ := Prod.mk.inj (Except.ok.inj ho)
    obtain ⟨hok1, hok2⟩ := List.forall_mem_cons.1 hok
    rw [Stmt.nodesAll, Node.typed_append]
    refine ((tabulated_outcome ho1 hok1).trans (tabulated_outcomes ts ho2 hok2)).perm .rfl ?_
    rw [List.flatMap_cons, Event.fields_append]
    exact List.perm_append_comm

/-- What a field access gives to what it stands in is what it is noted with. -/
theorem head?_events_field {opts : CheckOptions} {base : Expr Span} {name : String} {pos : Span}
    {scope : ScopeId} {s s' : CheckState} {t : Ty}
    (h : (expr opts (.field base name pos scope)).outcome s = (.ok t, s')) :
    s'.events.head? = some (.field pos t) := by
  unfold expr at h
  obtain ⟨_, _, -, h⟩ := Action.outcome_bind_eq_ok.1 h
  obtain ⟨_, _, -, h⟩ := Action.outcome_bind_eq_ok.1 h
  obtain ⟨_, _, -, h⟩ := Action.outcome_bind_eq_ok.1 h
  obtain ⟨_, _, -, h⟩ := Action.outcome_bind_eq_ok.1 h
  cases h
  rfl

end Check

namespace CheckRun

def events (R : CheckRun) : List Event := R.outcomes.flatMap Outcome.events

theorem ok_of_errors_eq_nil {R : CheckRun} (h : R.errors = []) :
    ∀ o ∈ R.outcomes, ∃ t, o.verdict = .ok t := by
  intro o ho
  have hn := List.filterMap_eq_nil_iff.1 h o ho
  cases hv : o.verdict with
  | error e =>
    rw [hv] at hn
    cases hn
  | ok t => exact ⟨t, rfl⟩

end CheckRun

theorem VarTable.resolve_literalType (T : VarTable) (v : Literal) :
    T.resolve (Check.literalType v) = Check.literalType v := by
  cases v <;> rfl

/-- **The table of node types is complete and exact.** Where the literals, field accesses, type
declarations and functions with a body of a program do not share positions and its check reports no
error, the table has one entry for each of them, at any depth, and no others. Every entry is
resolved under the final bindings. A literal's entry is its type, that of a function a function type
with a parameter for each formal, and that of a field access what the type that the access gave to
what it stands in has come to: the one type that it was noted with. -/
theorem Program.types_exact (P : Program Span) {opts : CheckOptions} {R : CheckRun}
    {r : CheckResult} (hP : (P.typedNodes.map TypedNode.pos).Nodup)
    (hR : P.bind.1.checkRun opts P.bind.2 = .ok R) (hr : R.result = .ok r)
    (he : r.errors = []) :
    (r.types.map Prod.fst).Perm (P.typedNodes.map TypedNode.pos) ∧
    (∀ e ∈ r.types, R.final.table.resolve e.2 = e.2 ∧
      ∀ v ∈ e.2.occurrences, R.final.table.Unbound v) ∧
    (∀ p v, ⟨p, .literal v⟩ ∈ P.typedNodes → (p, Check.literalType v) ∈ r.types) ∧
    (∀ p, ⟨p, .field⟩ ∈ P.typedNodes → ∃ t, (∀ u, .field p u ∈ R.events ↔ u = t) ∧
      (p, R.final.table.resolve t) ∈ r.types) ∧
    (∀ p k, ⟨p, .function k⟩ ∈ P.typedNodes → ∃ params result,
      (p, .fn params result) ∈ r.types ∧ params.length = k) ∧
    ∀ {base name p scope s t s'},
      (Check.expr opts (.field base name p scope)).outcome s = (.ok t, s') →
        s'.events.head? = some (.field p t) := by
  obtain ⟨⟨os, s⟩, hos, h⟩ := Action.except_bind_eq_ok.1 hR
  obtain rfl := Except.ok.inj h
  obtain ⟨types, htypes, hr⟩ := Action.except_bind_eq_ok.1 hr
  obtain ⟨schemes, -, hr⟩ := Action.except_bind_eq_ok.1 hr
  obtain ⟨globals, -, hr⟩ := Action.except_bind_eq_ok.1 hr
  cases hr
  have hwf : s.table.Wf := (Check.outcomes_settled P.bind.1 VarTable.wf_empty hos).1.wf
  obtain ⟨rfl, hminted⟩ := Action.except_mapM_eq_map (P := fun e => s.table.Minted e.2)
    (g := fun e => (e.1, s.table.resolve e.2)) (fun e d hd => by
      obtain ⟨t, ht, hd⟩ := Action.except_bind_eq_ok.1 hd
      obtain ⟨rfl, hm⟩ := VarTable.checkedResolve_eq_ok ht
      exact ⟨(Except.ok.inj hd).symm, hm⟩) htypes
  have htab : Check.Tabulated P.bind.1.typedNodes (Event.fields (os.flatMap Outcome.events)) ∅
    s.types := Check.tabulated_outcomes P.bind.1 hos (CheckRun.ok_of_errors_eq_nil he)
  rw [P.typedNodes_bind] at htab
  obtain ⟨hkeys, hfields, hentry⟩ := htab.exact hP
  have hperm := List.mergeSort_perm (s.types.toList.map fun e => (e.1, s.table.resolve e.2))
    fun a b => !b.1.before a.1
  have hmem : ∀ {p t}, (p, t) ∈ s.types.toList →
      (p, s.table.resolve t) ∈ (s.types.toList.map fun e => (e.1, s.table.resolve e.2)).mergeSort
        fun a b => !b.1.before a.1 := fun h =>
    hperm.mem_iff.2 (List.mem_map_of_mem (f := fun e => (e.1, s.table.resolve e.2)) h)
  refine ⟨?_, fun e hm => ?_, fun p v hn => ?_, fun p hn => ?_, fun p k hn => ?_,
    Check.head?_events_field⟩
  · refine (hperm.map _).trans ?_
    rw [List.map_map]
    exact hkeys
  · obtain ⟨d, hd, rfl⟩ := List.mem_map.1 (hperm.mem_iff.1 hm)
    exact ⟨hwf.resolve_resolve d.2, fun v => hwf.unbound_of_mem_resolve (hminted d hd)⟩
  · obtain ⟨t, ht, rfl⟩ := hentry _ hn
    rw [← s.table.resolve_literalType v]
    exact hmem ht
  · obtain ⟨t, ht, hfield⟩ := hentry _ hn
    refine ⟨t, fun u => ⟨fun hu => ?_, ?_⟩, hmem ht⟩
    · exact congrArg Prod.snd
        (List.inj_on_of_nodup_map hfields (Event.mem_fields.2 hu) hfield rfl)
    · rintro rfl
      exact Event.mem_fields.1 hfield
  · obtain ⟨t, ht, params, result, rfl, hlen⟩ := hentry _ hn
    have := hmem ht
    rw [VarTable.resolve_eq_bind, Ty.bind, Ty.bindAll_eq_map] at this
    exact ⟨_, _, this, (List.length_map _).trans hlen⟩

/-- `type p = {x: int}; let v = p{3};`
`fun f(a) { fun g(b) { if true { v.x + b }; b }; g(a) }; f(v.x)` -/
def tableSample : Program Span := Program.number 0 [
  .typeDecl "p" (.struct none [("x", .int)]) none 0,
  .varDecl "v" none (.structInit "p" [.literal (.int 3) none] none 0) none 0 none,
  .funDecl "f" [⟨"a", none⟩] (some (.block
    [.funDecl "g" [⟨"b", none⟩] (some (.block
      [.expr (.cond (.literal (.bool true) none) (.block [.expr (.binary .add
        (.field (.var "v" none 0 none) "x" none 0) (.var "b" none 0 none) none)] none none 0)
        none none)] (some (.var "b" none 0 none)) none 0)) none none 0 0]
    (some (.call "g" none [.var "a" none 0 none] none 0)) none 0)) none none 0 0,
  .expr (.call "f" none [.field (.var "v" none 0 none) "x" none 0] none 0)]

/-- Seven entries, those of a function inside another and of a field access inside that included. -/
theorem types_exact_tableSample : ∃ R r,
    tableSample.bind.1.checkRun ⟨10000⟩ tableSample.bind.2 = .ok R ∧ R.result = .ok r ∧
      tableSample.typedNodes.map TypedNode.kind = [.typeDecl, .literal (.int 3), .function 1,
        .function 1, .literal (.bool true), .field, .field] ∧
      (r.types.map Prod.fst).Perm (tableSample.typedNodes.map TypedNode.pos) ∧
      ∀ e ∈ r.types, R.final.table.resolve e.2 = e.2 ∧
        ∀ v ∈ e.2.occurrences, R.final.table.Unbound v := by
  have hrun : (do
      let R ← tableSample.bind.1.checkRun ⟨10000⟩ tableSample.bind.2
      let r ← R.result
      return r.errors).toOption = some [] := by decide +kernel
  obtain ⟨R, hR, hrun⟩ := Action.except_bind_eq_ok.1 (Action.eq_ok_of_toOption hrun)
  obtain ⟨r, hr, hrun⟩ := Action.except_bind_eq_ok.1 hrun
  obtain ⟨hkeys, hresolved, -⟩ := tableSample.types_exact (by decide) hR hr (Except.ok.inj hrun)
  exact ⟨R, r, hR, hr, by decide, hkeys, hresolved⟩

end TypeInference
