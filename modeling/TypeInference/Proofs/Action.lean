import TypeInference.Action

/-!
# Outcomes of actions

`Action.Ends` is what an action started in a state is known to end with: a condition on its value
and the state left, one on a type error and the state left, one on a fault. `Ends.bind` and
`Ends.mono` put the conditions of a long action together from those of its steps, and there is one
lemma for each operation that actions are written with.
-/

namespace TypeInference.Action

variable {σ τ α β : Type}

theorem outcome_bind (x : Action σ α) (f : α → Action σ β) (s : σ) :
    (x >>= f).outcome s = match x.outcome s with
      | (.ok a, t) => (f a).outcome t
      | (.error e, t) => (.error e, t) := by
  unfold outcome ExceptT.run
  show ExceptT.bindCont f (x s).1 (x s).2 = _
  rcases x s with ⟨_ | _, t⟩ <;> rfl

theorem outcome_get_bind (f : σ → Action σ α) (s : σ) :
    (get >>= f).outcome s = (f s).outcome s := rfl

/-- A sequence that succeeds, taken apart. -/
theorem outcome_bind_eq_ok {x : Action σ α} {f : α → Action σ β} {s u : σ} {b : β} :
    (x >>= f).outcome s = (.ok b, u) ↔
      ∃ a t, x.outcome s = (.ok a, t) ∧ (f a).outcome t = (.ok b, u) := by
  rw [outcome_bind]
  rcases x.outcome s with ⟨e | a, t⟩
  · exact iff_of_false nofun fun ⟨_, _, h, _⟩ => by cases h
  · exact ⟨fun h => ⟨a, t, rfl, h⟩, fun ⟨_, _, h, hf⟩ => by cases h; exact hf⟩

/-! ## What an action ends with -/

/-- Started in `s`, the action ends with a value and a state as in `Q`, with a type error and a
state as in `E`, or with a fault as in `F`. -/
def Ends (x : Action σ α) (s : σ) (Q : α → σ → Prop) (E : TypeError → σ → Prop)
    (F : Fault → Prop) : Prop :=
  match x.outcome s with
  | (.ok a, t) => Q a t
  | (.error (.error e), t) => E e t
  | (.error (.fault f), _) => F f

section
variable {s : σ} {Q Q' : α → σ → Prop} {R : β → σ → Prop} {E E' : TypeError → σ → Prop}
  {F F' : Fault → Prop} {x : Action σ α}

theorem Ends.mono (h : x.Ends s Q E F) (hQ : ∀ a t, Q a t → Q' a t) (hE : ∀ e t, E e t → E' e t)
    (hF : ∀ f, F f → F' f) : x.Ends s Q' E' F' := by
  unfold Ends at *
  split <;> simp_all

theorem Ends.bind {f : α → Action σ β} (h : x.Ends s Q E F)
    (hf : ∀ a t, Q a t → (f a).Ends t R E F) : (x >>= f).Ends s R E F := by
  unfold Ends at *
  rw [outcome_bind]
  rcases hx : x.outcome s with ⟨(e | f) | a, t⟩
  · simpa [hx] using h
  · simpa [hx] using h
  · rw [hx] at h
    exact hf a t h

theorem Ends.congr {y : Action σ α} (h : y.Ends s Q E F) (hx : x.outcome s = y.outcome s) :
    x.Ends s Q E F := by
  unfold Ends at *
  rwa [hx]

/-- What an action ends with, from two points of view. -/
theorem Ends.and (h : x.Ends s Q E F) (h' : x.Ends s Q' E' F') :
    x.Ends s (fun a t => Q a t ∧ Q' a t) (fun e t => E e t ∧ E' e t) fun f => F f ∧ F' f := by
  unfold Ends at *
  split <;> simp_all

/-- What an action ends with, together with its outcome. -/
theorem Ends.withOutcome (h : x.Ends s Q E F) :
    x.Ends s (fun a t => x.outcome s = (.ok a, t) ∧ Q a t) E F := by
  unfold Ends at *
  split <;> simp_all

theorem ends_anyhow (x : Action σ α) (s : σ) :
    x.Ends s (fun _ _ => True) (fun _ _ => True) fun _ => True := by
  unfold Ends
  split <;> trivial

theorem ends_pure {a : α} (h : Q a s) : (pure a : Action σ α).Ends s Q E F := h

theorem ends_fail {e : TypeError} (h : E e s) : (fail e : Action σ α).Ends s Q E F := h

theorem ends_abort {f : Fault} (h : F f) : (abort f : Action σ α).Ends s Q E F := h

theorem ends_set {Q : PUnit → σ → Prop} {t : σ} (h : Q ⟨⟩ t) :
    (set t : Action σ PUnit).Ends s Q E F := h

theorem ends_modify {Q : PUnit → σ → Prop} {f : σ → σ} (h : Q ⟨⟩ (f s)) :
    (modify f : Action σ PUnit).Ends s Q E F := h

theorem ends_require {r : Except Fault α} (hQ : ∀ a, r = .ok a → Q a s)
    (hF : ∀ f, r = .error f → F f) : (require r : Action σ α).Ends s Q E F := by
  cases r with
  | ok a => exact hQ a rfl
  | error f => exact hF f rfl

theorem ends_get_bind {f : σ → Action σ β} (h : (f s).Ends s R E F) :
    (get >>= f).Ends s R E F := h

theorem ends_modify_bind {f : σ → σ} {g : PUnit → Action σ β} (h : (g ⟨⟩).Ends (f s) R E F) :
    (modify f >>= g).Ends s R E F := h

theorem ends_require_bind {r : Except Fault α} {f : α → Action σ β}
    (hQ : ∀ a, r = .ok a → (f a).Ends s R E F) (hF : ∀ g, r = .error g → F g) :
    (require r >>= f).Ends s R E F := by
  cases r with
  | ok a => exact hQ a rfl
  | error g => exact hF g rfl

/-- An action that fails for one reason only either ends well or fails for that reason. -/
theorem Ends.ok_or {P : Prop} (h : x.Ends s Q (fun _ _ => P) fun _ => P) :
    (∃ a t, x.outcome s = (.ok a, t) ∧ Q a t) ∨ P := by
  unfold Ends at h
  rcases hx : x.outcome s with ⟨(e | f) | a, t⟩ <;> rw [hx] at h
  · exact .inr h
  · exact .inr h
  · exact .inl ⟨a, t, rfl, h⟩

theorem Ends.ne_fault (h : x.Ends s Q E fun _ => False) (f : Fault) :
    (x.outcome s).1 ≠ .error (.fault f) := by
  unfold Ends at h
  rcases hx : x.outcome s with ⟨(e | g) | a, t⟩ <;> rw [hx] at h
  · nofun
  · exact h.elim
  · nofun

/-- The value an action returns, from what it is known to end with. -/
theorem Ends.of_ok {a : α} {t : σ} (h : x.Ends s Q E F) (hx : x.outcome s = (.ok a, t)) :
    Q a t := by
  simpa [Ends, hx] using h

theorem Ends.of_error {e : TypeError} {t : σ} (h : x.Ends s Q E F)
    (hx : x.outcome s = (.error (.error e), t)) : E e t := by
  simpa [Ends, hx] using h

end

/-- Started in `s`, the action comes to its end in `s'`, with a value or with a type error. -/
def Answers (x : Action σ α) (s s' : σ) : Prop :=
  (x.outcome s).2 = s' ∧ ∀ f, (x.outcome s).1 ≠ .error (.fault f)

theorem Ends.of_answers {x : Action σ α} {s s' : σ} {Q : σ → Prop} {F : Fault → Prop}
    (h : x.Ends s (fun _ => Q) (fun _ => Q) F) (ha : x.Answers s s') : Q s' := by
  obtain ⟨rfl, hf⟩ := ha
  unfold Ends at h
  rcases hx : x.outcome s with ⟨(e | f) | a, t⟩ <;> rw [hx] at h hf
  · exact h
  · exact absurd rfl (hf f)
  · exact h

theorem answers_of_ok {x : Action σ α} {s s' : σ} {a : α} (h : x.outcome s = (.ok a, s')) :
    x.Answers s s' := by
  refine ⟨by rw [h], fun f hf => ?_⟩
  rw [h] at hf
  cases hf

theorem answers_of_error {x : Action σ α} {s s' : σ} {e : TypeError}
    (h : x.outcome s = (.error (.error e), s')) : x.Answers s s' := by
  refine ⟨by rw [h], fun f hf => ?_⟩
  rw [h] at hf
  cases hf

theorem eq_ok_of_toOption {x : Except Fault α} {a : α} (h : x.toOption = some a) : x = .ok a := by
  cases x with
  | error f => cases h
  | ok b => exact congrArg _ (Option.some.inj h)

/-- A sequence of checked computations that succeeds, taken apart. -/
theorem except_bind_eq_ok {x : Except Fault α} {f : α → Except Fault β} {b : β} :
    x >>= f = .ok b ↔ ∃ a, x = .ok a ∧ f a = .ok b := by
  cases x with
  | error e => exact iff_of_false nofun fun ⟨_, h, _⟩ => by cases h
  | ok a => exact ⟨fun h => ⟨a, rfl, h⟩, fun ⟨_, h, hf⟩ => by cases h; exact hf⟩

/-- Checked computations over a list that all succeed, and their values. -/
theorem except_mapM_eq_ok {f : α → Except Fault β} : ∀ {as : List α} {bs : List β},
    as.mapM f = .ok bs → (∀ a ∈ as, ∃ b ∈ bs, f a = .ok b) ∧ ∀ b ∈ bs, ∃ a ∈ as, f a = .ok b
  | [], bs, h => by
    obtain rfl := Except.ok.inj h
    exact ⟨nofun, nofun⟩
  | a :: as, bs, h => by
    rw [List.mapM_cons] at h
    obtain ⟨b, hb, h⟩ := except_bind_eq_ok.1 h
    obtain ⟨bs', hbs, h⟩ := except_bind_eq_ok.1 h
    obtain rfl := Except.ok.inj h
    obtain ⟨h1, h2⟩ := except_mapM_eq_ok hbs
    refine ⟨List.forall_mem_cons.2 ⟨⟨b, List.mem_cons_self, hb⟩, fun a' ha => ?_⟩,
      List.forall_mem_cons.2 ⟨⟨a, List.mem_cons_self, hb⟩, fun b' hb => ?_⟩⟩
    · obtain ⟨b', hb', hf⟩ := h1 a' ha
      exact ⟨b', List.mem_cons_of_mem _ hb', hf⟩
    · obtain ⟨a', ha', hf⟩ := h2 b' hb
      exact ⟨a', List.mem_cons_of_mem _ ha', hf⟩

/-- Checked computations whose values are known, over a list. -/
theorem except_mapM_eq_map {f : α → Except Fault β} {g : α → β} {P : α → Prop}
    (hf : ∀ a b, f a = .ok b → b = g a ∧ P a) : ∀ {as : List α} {bs : List β},
    as.mapM f = .ok bs → bs = as.map g ∧ ∀ a ∈ as, P a
  | [], bs, h => by
    obtain rfl := Except.ok.inj h
    exact ⟨rfl, nofun⟩
  | a :: as, bs, h => by
    rw [List.mapM_cons] at h
    obtain ⟨b, hb, h⟩ := except_bind_eq_ok.1 h
    obtain ⟨bs', hbs, h⟩ := except_bind_eq_ok.1 h
    obtain rfl := Except.ok.inj h
    obtain ⟨rfl, ha⟩ := hf a b hb
    obtain ⟨rfl, has⟩ := except_mapM_eq_map hf hbs
    exact ⟨rfl, List.forall_mem_cons.2 ⟨ha, has⟩⟩

theorem except_mapM_ok {f : α → Except Fault β} : ∀ {l : List α},
    (∀ a ∈ l, ∃ b, f a = .ok b) → ∃ bs, l.mapM f = .ok bs
  | [], _ => ⟨[], rfl⟩
  | a :: as, h => by
    obtain ⟨⟨b, hb⟩, has⟩ := List.forall_mem_cons.1 h
    obtain ⟨bs, hbs⟩ := except_mapM_ok has
    exact ⟨b :: bs, by rw [List.mapM_cons, hb, hbs]; rfl⟩

end TypeInference.Action
