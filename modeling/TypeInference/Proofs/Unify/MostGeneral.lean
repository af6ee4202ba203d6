import Mathlib.Data.Set.Function
import TypeInference.Proofs.Unify.Reachable

/-!
# Unification finds most general unifiers

`T.Solves θ`: the assignment `θ` of types to variables agrees with what the table knows. On types
and values without named layouts, where equality is literal, a run keeps exactly those solutions
that make its pairs equal, and stops with an error exactly if there are none (`Run.solves`).

Each rule of a run is a fact about solutions: a merger keeps those that agree on two variables
(`solves_unite`), a binding those that give a variable the image of its new value (`solves_assign`),
and a class that occurs in a type would have to stand for a type higher than itself.
-/

namespace TypeInference.VarTable

open Ty

/-- The variables of a class have one type, and that of a bound class is the image of its value. -/
structure Solves (T : VarTable) (θ : TyVar → Ty) : Prop where
  agree : ∀ v w, T.root v = T.root w → θ v = θ w
  value : ∀ v t, T.value? v = some t → θ v = t.bind θ

/-- No layout in a value of the table carries a name. -/
def NamelessValues (T : VarTable) : Prop := ∀ v t, T.value? v = some t → t.Nameless

section
variable {T : VarTable} {θ : TyVar → Ty}

theorem Solves.root (hs : T.Solves θ) (h : T.Linked) (v : TyVar) : θ (T.root v) = θ v :=
  hs.agree _ _ (h.root_root v)

theorem Solves.bind_resolve (hs : T.Solves θ) (h : T.Wf) (t : Ty) :
    (T.resolve t).bind θ = t.bind θ := by
  have hvar : ∀ v, (T.resolve (.var v)).bind θ = θ v := fun v => by
    induction v using h.induct with
    | step v ih =>
      cases hv : T.value? v with
      | none =>
        rw [h.resolve_unbound hv]
        exact hs.root h.toLinked v
      | some t =>
        rw [h.resolve_bound hv, hs.value v t hv, resolve_eq_bind, bind_bind]
        exact bind_congr fun w hw => ih t hv w hw
  rw [resolve_eq_bind, bind_bind]
  exact bind_congr fun v _ => hvar v

theorem Solves.bind_leader (hs : T.Solves θ) (h : T.Wf) (t : Ty) :
    (T.leader t).bind θ = t.bind θ := by
  rw [← hs.bind_resolve h, h.resolve_leader, hs.bind_resolve h]

/-- A merger of two unbound classes keeps the solutions that give both one type. -/
theorem solves_unite (h : T.Wf) {v w : TyVar} (hv : v < T.size) (hw : w < T.size)
    (hne : T.root v ≠ T.root w) (hvv : T.value? v = none) (hvw : T.value? w = none) :
    (T.unite v w).Solves θ ↔ T.Solves θ ∧ θ v = θ w := by
  obtain ⟨-, he, hroot⟩ := h.unite hv hw hne hvv hvw
  obtain ⟨-, hval, l, k, hlk, hspec⟩ := h.unite_spec hv hw hne hvv hvw
  constructor
  · intro hs
    refine ⟨⟨fun u x hux => hs.agree u x (he.root_congr hux), fun u t ht => ?_⟩, hs.agree v w hroot⟩
    exact hs.value u t (by rwa [hval])
  · rintro ⟨hs, hvw'⟩
    have hlk' : θ l = θ k := by
      obtain ⟨rfl, rfl⟩ | ⟨rfl, rfl⟩ := hlk <;> simp [hs.root h.toLinked, hvw']
    have hr : ∀ u, θ ((T.unite v w).root u) = θ u := fun u => by
      rw [hspec]
      split
      · rename_i hu
        rw [← hlk', ← hu, hs.root h.toLinked]
      · exact hs.root h.toLinked u
    exact ⟨fun u x hux => by rw [← hr u, hux, hr], fun u t ht => hs.value u t (by rwa [← hval])⟩

/-- A binding keeps the solutions that give the variable the image of its new value. -/
theorem solves_assign (h : T.Wf) {v : TyVar} (hv : v < T.size) (hvv : T.value? v = none) (t : Ty) :
    (T.assign v t).Solves θ ↔ T.Solves θ ∧ θ v = t.bind θ := by
  have hroot := h.root_assign t hv
  have hval := h.value?_assign t hv
  constructor
  · intro hs
    refine ⟨⟨fun u x hux => hs.agree u x (by rwa [hroot, hroot]), fun u s hu => ?_⟩,
      hs.value v t (by rw [hval, if_pos rfl])⟩
    refine hs.value u s ?_
    rw [hval, if_neg fun hr => ?_]
    · exact hu
    · rw [value?_congr hr, hvv] at hu
      cases hu
  · rintro ⟨hs, hvt⟩
    refine ⟨fun u x hux => hs.agree u x (by rwa [hroot, hroot] at hux), fun u s hu => ?_⟩
    rw [hval] at hu
    split at hu
    · rename_i hr
      cases hu
      rw [hs.agree u v hr, hvt]
    · exact hs.value u s hu

/-- Every table is solved by the assignment that resolves each variable. -/
theorem solves_resolve (h : T.Wf) : T.Solves fun v => T.resolve (.var v) where
  agree _ _ hr := h.resolve_congr hr
  value v t hv := by rw [h.resolve_bound hv, resolve_eq_bind]

end

/-! ### Tables with the same solutions -/

section
variable {T T' : VarTable}

/-- Where the table `T'` is solved by what `T` resolves to, classes that `T` leaves unbound are
unbound. -/
theorem Solves.value?_eq_none (hs : T'.Solves fun v => T.resolve (.var v)) (h : T.Wf) (h' : T'.Wf)
    {v : TyVar} (hv : T.value? v = none) : T'.value? v = none := by
  cases ht : T'.value? v with
  | none => rfl
  | some t =>
    have he := hs.value v t ht
    rw [h.resolve_unbound hv] at he
    exact absurd he.symm (bind_ne_var (h'.value_ne_var v t ht) _ _)

/-- Two tables with the same solutions differ by a renaming of their unbound classes. -/
theorem exists_renaming (h : T.Wf) (h' : T'.Wf) (hsize : T'.size = T.size)
    (hs : ∀ θ, T.Solves θ ↔ T'.Solves θ) :
    ∃ ρ : TyVar → TyVar, Set.BijOn ρ { v | T.Unbound v } { v | T'.Unbound v } ∧
      ∀ t, T'.resolve t = (T.resolve t).bind fun v => .var (ρ v) := by
  have hs1 : T'.Solves fun v => T.resolve (.var v) := (hs _).1 (solves_resolve h)
  have hs2 : T.Solves fun v => T'.resolve (.var v) := (hs _).2 (solves_resolve h')
  have hvar : ∀ {v}, T.Unbound v → T.resolve (.var v) = .var v := fun hv => by
    rw [h.resolve_unbound hv.value, hv.root]
  have hvar' : ∀ {v}, T.value? v = none → T'.resolve (.var v) = .var (T'.root v) := fun hv =>
    h'.resolve_unbound (hs1.value?_eq_none h h' hv)
  refine ⟨T'.root, ⟨fun v hv => ?_, fun v hv w hw hr => ?_, fun w hw => ?_⟩, fun t => ?_⟩
  · exact ⟨h'.root_lt (hsize.symm ▸ hv.lt), h'.root_root v,
      by rw [h'.value?_root, hs1.value?_eq_none h h' hv.value]⟩
  · have he : T.resolve (.var v) = T.resolve (.var w) := hs1.agree v w hr
    rw [hvar hv, hvar hw] at he
    exact Ty.var.inj he
  · have hv : T.Unbound (T.root w) := ⟨h.root_lt (hsize ▸ hw.lt), h.root_root w,
      by rw [h.value?_root, hs2.value?_eq_none h' h hw.value]⟩
    refine ⟨T.root w, hv, ?_⟩
    have he : T'.resolve (.var (T.root w)) = T'.resolve (.var w) :=
      hs2.agree _ _ (h.root_root w)
    rw [hvar' hv.value, h'.resolve_unbound hw.value, hw.root] at he
    exact Ty.var.inj he
  · rw [resolve_eq_bind, ← hs2.bind_resolve h]
    exact bind_congr fun v hv => hvar' (h.of_mem_resolve hv).2

end

end TypeInference.VarTable

namespace TypeInference.Unify

open VarTable Ty

variable {o : Origin} {T T' : VarTable} {ps : List (Ty × Ty)} {e : Option TypeError}

/-- A run ends well in a table that `θ` solves exactly if `θ` solves the table it started from and
makes its pairs equal. -/
theorem Run.solves (hr : Run o T ps e T') (h : T.Wf) (hT : T.NamelessValues)
    (hps : ∀ p ∈ ps, p.1.Nameless ∧ p.2.Nameless) (θ : TyVar → Ty) :
    (e = none ∧ T'.Solves θ) ↔ T.Solves θ ∧ ∀ p ∈ ps, p.1.bind θ = p.2.bind θ := by
  have hl : ∀ {T : VarTable} {t : Ty}, T.Wf → T.NamelessValues → t.Nameless →
      (T.leader t).Nameless := fun h hT ht => h.leader_of .var hT ht
  induction hr with
  | done T => simp
  | @parts T T' a b qs ps e hc hr ih =>
    obtain ⟨⟨ha, hb⟩, hps⟩ := List.forall_mem_cons.1 hps
    have hd := confront_eq_parts.1 hc
    have hqs : ∀ q ∈ qs, q.1.Nameless ∧ q.2.Nameless := fun q hq =>
      have ⟨h1, h2⟩ := hd.mem_parts hq
      ⟨(hl h hT ha).of_mem_parts h1, (hl h hT hb).of_mem_parts h2⟩
    refine (ih h hT (List.forall_mem_append.2 ⟨hqs, hps⟩)).trans (and_congr_right fun hs => ?_)
    rw [List.forall_mem_append, List.forall_mem_cons]
    refine and_congr_left fun _ => ?_
    rw [← hd.bind_eq_iff (hl h hT ha) (hl h hT hb), hs.bind_leader h, hs.bind_leader h]
  | @merge T T' a b v w ps e hc hv hw hr ih =>
    obtain ⟨hps, hqs⟩ := List.forall_mem_cons.1 hps
    obtain ⟨ha, hb, hne⟩ := confront_eq_merge.1 hc
    obtain ⟨hrv, hvv⟩ := h.of_leader_eq_var ha
    obtain ⟨hrw, hvw⟩ := h.of_leader_eq_var hb
    have hne' : T.root v ≠ T.root w := by rwa [hrv, hrw]
    obtain ⟨-, hval, -⟩ := h.unite_spec hv hw hne' hvv hvw
    have hT' : (T.unite v w).NamelessValues := fun u t ht => hT u t (hval u ▸ ht)
    refine (ih (unite_of_merge h hc hv hw).1 hT' hqs).trans ?_
    rw [solves_unite h hv hw hne' hvv hvw, List.forall_mem_cons, and_assoc]
    refine and_congr_right fun hs => and_congr_left fun _ => ?_
    rw [← hs.bind_leader h a, ← hs.bind_leader h b, ha, hb]
    rfl
  | @assign T T' a b t v ps e hc hv ht ho hr ih =>
    obtain ⟨⟨hna, hnb⟩, hqs⟩ := List.forall_mem_cons.1 hps
    obtain ⟨⟨-, hvv⟩, -⟩ := unbound_of_assign h hc
    obtain ⟨hab, -⟩ := confront_eq_assign.1 hc
    have hT' : (T.assign v t).NamelessValues := fun u s hs => by
      rw [h.value?_assign t hv] at hs
      split at hs
      · cases hs
        obtain ⟨-, rfl⟩ | ⟨rfl, -⟩ := hab
        · exact hl h hT hnb
        · exact hl h hT hna
      · exact hT u s hs
    refine (ih (assign_of_assign h hc hv ht ho).1 hT' hqs).trans ?_
    rw [solves_assign h hv hvv, List.forall_mem_cons, and_assoc]
    refine and_congr_right fun hs => and_congr_left fun _ => ?_
    rw [← hs.bind_leader h a, ← hs.bind_leader h b]
    obtain ⟨ha, hb⟩ | ⟨ha, hb⟩ := hab
    · rw [ha, hb]
      rfl
    · rw [ha, hb]
      exact eq_comm
  | @occurs T a b t v ps hc ho =>
    refine iff_of_false (by simp) fun ⟨hs, hp⟩ => ?_
    have hab := (List.forall_mem_cons.1 hp).1
    obtain ⟨⟨hrv, hvv⟩, hne⟩ := unbound_of_assign h hc
    have hvt : θ v = (T.resolve t).bind θ := by
      rw [hs.bind_resolve h]
      rw [← hs.bind_leader h a, ← hs.bind_leader h b] at hab
      obtain ⟨⟨ha, hb⟩ | ⟨ha, hb⟩, -⟩ := confront_eq_assign.1 hc
      · rwa [ha, hb] at hab
      · rw [ha, hb] at hab
        exact hab.symm
    -- `v` would stand for a type that it is a proper part of
    have hm := (h.occurs_iff hvv t).1 ho
    rw [hrv] at hm
    have hlt := height_bind_lt (fun w => ?_) θ hm
    · rw [← hvt] at hlt
      exact Nat.lt_irrefl _ hlt
    · rw [resolve_eq_bind]
      exact bind_ne_var hne _ w
  | @clash T a b e ps hc =>
    obtain ⟨⟨hna, hnb⟩, -⟩ := List.forall_mem_cons.1 hps
    refine iff_of_false (by simp) fun ⟨hs, hp⟩ => ?_
    have hab := (List.forall_mem_cons.1 hp).1
    rw [← hs.bind_leader h a, ← hs.bind_leader h b] at hab
    exact bind_ne_of_clash (clash_of_clashError hc) (hl h hT hna) (hl h hT hnb) θ hab

end TypeInference.Unify

namespace TypeInference.VarTable

open Unify Ty

/-- Unification on a reachable table answers. If it succeeds, the solutions of the table left are
exactly the earlier ones that make the two types equal; if it stops with an error, there are none.
-/
theorem unify_most_general {T : VarTable} {a b : Ty} (hT : Reachable T) (ha : T.Minted a)
    (hb : T.Minted b) (hn : T.NamelessValues) (hna : a.Nameless) (hnb : b.Nameless) (o : Origin) :
    (∃ T', (unify a b o).outcome T = (.ok (), T') ∧
        ∀ θ, T'.Solves θ ↔ T.Solves θ ∧ a.bind θ = b.bind θ) ∨
      ∃ e T', (unify a b o).outcome T = (.error (.error e), T') ∧
        ∀ θ, T.Solves θ → a.bind θ ≠ b.bind θ := by
  have h := hT.wf
  have hab : ∀ p ∈ [(a, b)], p.1.Nameless ∧ p.2.Nameless := List.forall_mem_singleton.2 ⟨hna, hnb⟩
  obtain ⟨T', hu, hr⟩ | ⟨e, T', hu, hr⟩ := h.unify_run ha hb o
  · exact .inl ⟨T', hu, fun θ => by simpa using hr.solves h hn hab θ⟩
  · exact .inr ⟨e, T', hu, fun θ hs he => by simpa using (hr.solves h hn hab θ).2 ⟨hs, by simpa⟩⟩

/-- A layout against a bound variable fixes its field; a cycle through the binding has no solution.
-/
theorem unify_most_general_layout :
    let T : VarTable := ⟨#[.root 0 (some (.struct none [("x", .var 1)])), .root 0 none]⟩
    let T' : VarTable := ⟨#[.root 0 (some (.struct none [("x", .var 1)])), .root 0 (some .int)]⟩
    let a : Ty := .ptr (.var 0)
    let b : Ty := .ptr (.struct none [("x", .int)])
    (∀ θ, T'.Solves θ ↔ T.Solves θ ∧ a.bind θ = b.bind θ) ∧
      ∀ θ, T.Solves θ → (Ty.var 1).bind θ ≠ a.bind θ := by
  intro T T' a b
  have hx : ∀ t : Ty, t.Nameless → (Ty.struct none [("x", t)]).Nameless := fun t ht =>
    .struct (by simpa using ht)
  have hT : Reachable T := .tail (.tail (.tail .refl (.mint _)) (.mint _))
    (.unify (.var 0) (.struct none [("x", .var 1)]) .builtin ⟨rfl, nofun⟩)
  have hn : T.NamelessValues := fun v t hv => by
    match v, lt_size_of_value? hv with
    | 0, _ => cases hv; exact hx _ (.var 1)
    | 1, _ => cases hv
  constructor
  · obtain ⟨U, hu, hs⟩ | ⟨e, U, hu, -⟩ := unify_most_general hT (a := a) (b := b) (by decide)
      (by decide) hn (.ptr (.var 0)) (.ptr (hx _ (.con _))) .builtin
    · cases hu
      exact hs
    · cases hu
  · obtain ⟨U, hu, -⟩ | ⟨e, U, hu, hs⟩ := unify_most_general hT (a := .var 1) (b := a) (by decide)
      (by decide) hn (.var 1) (.ptr (.var 0)) .builtin
    · cases hu
    · exact hs

end TypeInference.VarTable
