import TypeInference.Proofs.Text
import TypeInference.Proofs.Ty.Parts
import TypeInference.Ty.Text

/-!
# The written form of a type can be read back

A type is `Worded` if it is written with words and punctuation only: no variable is left, no layout
has a name, and constructors and fields are called by words. In the written form a type is followed
by nothing, by a comma, by a closing parenthesis or by a blank and a closing brace (`Follows`), and
no such end can be taken for a part of the type: two worded types that are written alike up to
what follows them are equal, and so is what follows (`Worded.distinct`).

Every type that is written through names of its variables is written like the type in which these
names stand as constructors (`textWith_spell`), and that type tells which type it was spelled from
(`eq_of_spell`).
-/

namespace TypeInference

/-! ## Words -/

/-- Whether a character counts as a letter; beyond ASCII every character does. -/
def isLetter (c : Char) : Bool := c.isAlpha || 128 ≤ c.toNat

/-- A letter or an underscore, followed by letters, digits and underscores. -/
def isIdentifier (s : String) : Bool :=
  match s.toList with
  | [] => false
  | c :: cs => (isLetter c || c == '_') && cs.all fun d => isLetter d || d.isDigit || d == '_'

/-- Whether a character may stand in an identifier or in the written form of a variable. -/
def isWordChar (c : Char) : Bool := isLetter c || c.isDigit || c == '_' || c == '?'

/-- At least one character, and nothing that punctuates a type. -/
structure IsWord (s : String) : Prop where
  ne_nil : s.toList ≠ []
  chars : ∀ c ∈ s.toList, isWordChar c

theorem isWord_of_isIdentifier {s : String} (h : isIdentifier s) :
    IsWord s ∧ ∀ cs, s.toList ≠ '?' :: cs := by
  unfold isIdentifier at h
  split at h
  · cases h
  · rename_i c cs hs
    simp only [Bool.and_eq_true, List.all_eq_true] at h
    have hc : isLetter c ∨ c = '_' := by simpa using h.1
    refine ⟨⟨by simp [hs], ?_⟩, ?_⟩
    · rw [hs]
      refine List.forall_mem_cons.2 ⟨?_, fun d hd => ?_⟩
      · obtain hc | rfl := hc
        · simp [isWordChar, hc]
        · rfl
      · have hd := h.2 d hd
        unfold isWordChar
        rw [hd, Bool.true_or]
    · rintro ds hds
      obtain ⟨rfl, -⟩ := List.cons.inj (hs.symm.trans hds)
      obtain hc | hc := hc
      · exact absurd hc (by decide)
      · exact absurd hc (by decide)

theorem IsWord.exists_cons {s : String} (h : IsWord s) :
    ∃ c cs, s.toList = c :: cs ∧ isWordChar c := by
  obtain ⟨c, cs, hs⟩ := List.exists_cons_of_ne_nil h.ne_nil
  exact ⟨c, cs, hs, h.chars c (by simp [hs])⟩

namespace Ty

/-! ## Worded types -/

/-- Words and punctuation only (module doc). -/
inductive Worded : Ty → Prop
  | con {n : String} : IsWord n → Worded (.con n)
  | ptr {t : Ty} : Worded t → Worded (.ptr t)
  | fn {ps : List Ty} {r : Ty} : (∀ p ∈ ps, Worded p) → Worded r → Worded (.fn ps r)
  | struct {fs : List (String × Ty)} : (∀ f ∈ fs, IsWord f.1) → (∀ f ∈ fs, Worded f.2) →
      Worded (.struct none fs)

/-- The characters of a type, of parameters and of fields. -/
def chars (t : Ty) : List Char := t.text.toList

def paramChars (sep : String) (ts : List Ty) : List Char := (textParams varText sep ts).toList

def fieldChars (sep : String) (fs : List (String × Ty)) : List Char :=
  (textFields varText sep fs).toList

/-- What may follow a type. -/
inductive Follows : List Char → Prop
  | nil : Follows []
  | comma (xs : List Char) : Follows (',' :: xs)
  | paren (xs : List Char) : Follows (')' :: xs)
  | brace (xs : List Char) : Follows (' ' :: '}' :: xs)

theorem Follows.stop {xs : List Char} (h : Follows xs) : ∀ c ∈ xs.head?, isWordChar c = false := by
  cases h with
  | nil => nofun
  | comma _ | paren _ | brace _ => exact stop_cons rfl _

section
variable {t u : Ty} {ts : List Ty} {fs : List (String × Ty)} {sep : String} {xs ys : List Char}

theorem chars_con (n : String) : (con n).chars = n.toList := rfl

theorem chars_ptr (t : Ty) : (ptr t).chars = '*' :: t.chars := by
  simp [chars, text, textWith]

theorem chars_fn (ps : List Ty) (r : Ty) (xs : List Char) : (fn ps r).chars ++ xs =
    '(' :: (paramChars "" ps ++ ')' :: ([' ', '-', '>', ' '] ++ (r.chars ++ xs))) := by
  simp [chars, paramChars, text, textWith]

theorem chars_struct (fs : List (String × Ty)) (xs : List Char) : (struct none fs).chars ++ xs =
    ['s', 't', 'r', 'u', 'c', 't'] ++ ' ' :: '{' :: (fieldChars " " fs ++ ' ' :: '}' :: xs) := by
  simp [chars, fieldChars, text, textWith]

theorem paramChars_cons (sep : String) (t : Ty) (ts : List Ty) (xs : List Char) :
    paramChars sep (t :: ts) ++ xs = sep.toList ++ (t.chars ++ (paramChars ", " ts ++ xs)) := by
  simp [chars, paramChars, text, textParams]

theorem fieldChars_cons (sep : String) (f : String × Ty) (fs : List (String × Ty))
    (xs : List Char) : fieldChars sep (f :: fs) ++ xs =
      sep.toList ++ (f.1.toList ++ ':' :: ' ' :: (f.2.chars ++ (fieldChars ", " fs ++ xs))) := by
  simp [chars, fieldChars, text, textFields]

/-- A parameter is followed by the next one or by the end of the list. -/
theorem follows_params (ts : List Ty) (xs : List Char) :
    Follows (paramChars ", " ts ++ ')' :: xs) := by
  cases ts with
  | nil => exact .paren xs
  | cons t ts =>
    rw [paramChars_cons]
    exact .comma _

theorem follows_fields (fs : List (String × Ty)) (xs : List Char) :
    Follows (fieldChars ", " fs ++ ' ' :: '}' :: xs) := by
  cases fs with
  | nil => exact .brace xs
  | cons f fs =>
    rw [fieldChars_cons]
    exact .comma _

/-- A type does not begin with a character that may end the list it stands in. -/
theorem Worded.ne_paren (h : Worded t) : t.chars ++ xs ≠ ')' :: ys := by
  intro he
  cases h with
  | con hn =>
    obtain ⟨c, cs, hs, hc⟩ := hn.exists_cons
    rw [chars_con, hs] at he
    obtain ⟨rfl, -⟩ := List.cons.inj he
    exact absurd hc (by decide)
  | ptr _ => exact absurd he (by simp [chars_ptr])
  | fn _ _ => exact absurd he (by simp [chars_fn])
  | struct _ _ => exact absurd he (by simp [chars_struct])

/-- What `t` is cannot be mistaken, whatever follows it. -/
def Distinct (t : Ty) : Prop :=
  ∀ {u xs ys}, Worded u → Follows xs → Follows ys → t.chars ++ xs = u.chars ++ ys → t = u ∧ xs = ys

/-- Lists of parameters that are written alike are equal; before the first one stands nothing,
before the others a comma. -/
theorem params_inj : ∀ {ps qs : List Ty} {sep : String} {xs ys : List Char},
    (∀ p ∈ ps, Distinct p) → (∀ p ∈ ps, Worded p) → (∀ q ∈ qs, Worded q) →
    sep = "" ∨ sep = ", " →
    paramChars sep ps ++ ')' :: xs = paramChars sep qs ++ ')' :: ys → ps = qs ∧ xs = ys
  | [], [], _, _, _, _, _, _, _, h => ⟨rfl, (List.cons.inj h).2⟩
  | [], q :: qs, sep, xs, ys, _, _, hqs, hsep, h => by
    rw [paramChars_cons] at h
    obtain rfl | rfl := hsep
    · exact absurd h.symm (hqs q List.mem_cons_self).ne_paren
    · exact absurd h (by simp [paramChars, textParams])
  | p :: ps, [], sep, xs, ys, _, hps, _, hsep, h => by
    rw [paramChars_cons] at h
    obtain rfl | rfl := hsep
    · exact absurd h (hps p List.mem_cons_self).ne_paren
    · exact absurd h (by simp [paramChars, textParams])
  | p :: ps, q :: qs, sep, xs, ys, hd, hps, hqs, _, h => by
    rw [paramChars_cons, paramChars_cons] at h
    obtain ⟨hp, hd⟩ := List.forall_mem_cons.1 hd
    obtain ⟨hq, hqs'⟩ := List.forall_mem_cons.1 hqs
    obtain ⟨rfl, h'⟩ := hp hq (follows_params ps xs) (follows_params qs ys)
      (List.append_cancel_left h)
    obtain ⟨rfl, hxy⟩ := params_inj hd (List.forall_mem_cons.1 hps).2 hqs' (.inr rfl) h'
    exact ⟨rfl, hxy⟩

/-- A list of fields does not end where a field begins. -/
theorem fields_ne {f : String × Ty} (hf : IsWord f.1) (hsep : sep = " " ∨ sep = ", ") :
    ' ' :: '}' :: xs ≠ fieldChars sep (f :: fs) ++ ys := by
  intro h
  rw [fieldChars_cons] at h
  obtain rfl | rfl := hsep
  · obtain ⟨c, cs, hs, hc⟩ := hf.exists_cons
    rw [hs] at h
    obtain ⟨rfl, -⟩ := List.cons.inj (List.cons.inj h).2
    exact absurd hc (by decide)
  · exact absurd h (by simp)

theorem fields_inj : ∀ {fs gs : List (String × Ty)} {sep : String} {xs ys : List Char},
    (∀ f ∈ fs, Distinct f.2) → (∀ f ∈ fs, IsWord f.1) → (∀ g ∈ gs, IsWord g.1) →
    (∀ g ∈ gs, Worded g.2) → sep = " " ∨ sep = ", " →
    fieldChars sep fs ++ ' ' :: '}' :: xs = fieldChars sep gs ++ ' ' :: '}' :: ys →
    fs = gs ∧ xs = ys
  | [], [], _, _, _, _, _, _, _, _, h => ⟨rfl, (List.cons.inj (List.cons.inj h).2).2⟩
  | [], g :: gs, _, _, _, _, _, hgs, _, hsep, h =>
    absurd h (fields_ne (hgs g List.mem_cons_self) hsep)
  | f :: fs, [], _, _, _, _, hfs, _, _, hsep, h =>
    absurd h.symm (fields_ne (hfs f List.mem_cons_self) hsep)
  | (m, t) :: fs, (n, u) :: gs, sep, xs, ys, hd, hfs, hgs, hw, _, h => by
    rw [fieldChars_cons, fieldChars_cons] at h
    obtain ⟨ht, hd⟩ := List.forall_mem_cons.1 hd
    obtain ⟨hm, hfs⟩ := List.forall_mem_cons.1 hfs
    obtain ⟨hn, hgs'⟩ := List.forall_mem_cons.1 hgs
    obtain ⟨hu, hw'⟩ := List.forall_mem_cons.1 hw
    obtain ⟨hmn, h⟩ := append_inj_of_stop hm.chars hn.chars (stop_cons rfl _) (stop_cons rfl _)
      (List.append_cancel_left h)
    obtain rfl := String.toList_inj.1 hmn
    obtain ⟨rfl, h'⟩ := ht hu (follows_fields fs xs) (follows_fields gs ys)
      (List.cons.inj (List.cons.inj h).2).2
    obtain ⟨rfl, hxy⟩ := fields_inj hd hfs hgs' hw' (.inr rfl) h'
    exact ⟨rfl, hxy⟩

/-- A name is followed by what may follow a type, the word before an opening brace is not. -/
theorem con_ne_struct {n : String} (hn : IsWord n) (hx : Follows xs) :
    n.toList ++ xs ≠ (struct none fs).chars ++ ys := by
  intro h
  rw [chars_struct] at h
  obtain ⟨-, rfl⟩ :=
    append_inj_of_stop hn.chars (List.all_eq_true.1 rfl) hx.stop (stop_cons rfl _) h
  cases hx

/-- A name begins with a character of a word. -/
theorem con_ne_of_head {n : String} (hn : IsWord n) {c : Char} (hc : isWordChar c = false) :
    n.toList ++ xs ≠ c :: ys := by
  obtain ⟨d, ds, hs, hd⟩ := hn.exists_cons
  rw [hs]
  rintro ⟨⟩
  rw [hc] at hd
  cases hd

/-- Worded types that are written alike are equal, and what follows them is. -/
theorem Worded.distinct (ht : Worded t) : Distinct t := by
  induction ht with
  | con hn =>
    intro u xs ys hu hx hy h
    rw [chars_con] at h
    cases hu with
    | con hm =>
      obtain ⟨hnm, hxy⟩ := append_inj_of_stop hn.chars hm.chars hx.stop hy.stop h
      exact ⟨congrArg Ty.con (String.toList_inj.1 hnm), hxy⟩
    | ptr _ =>
      rw [chars_ptr] at h
      exact absurd h (con_ne_of_head hn rfl)
    | fn _ _ =>
      rw [chars_fn] at h
      exact absurd h (con_ne_of_head hn rfl)
    | struct _ _ => exact absurd h (con_ne_struct hn hx)
  | ptr _ ih =>
    intro u xs ys hu hx hy h
    rw [chars_ptr] at h
    cases hu with
    | con hm => exact absurd h.symm (con_ne_of_head hm rfl)
    | ptr hu =>
      rw [chars_ptr] at h
      obtain ⟨rfl, hxy⟩ := ih hu hx hy (List.cons.inj h).2
      exact ⟨rfl, hxy⟩
    | fn _ _ => exact absurd h (by simp [chars_fn])
    | struct _ _ => exact absurd h (by simp [chars_struct])
  | fn hps _ ihp ihr =>
    intro u xs ys hu hx hy h
    rw [chars_fn] at h
    cases hu with
    | con hm => exact absurd h.symm (con_ne_of_head hm rfl)
    | ptr _ => exact absurd h (by simp [chars_ptr])
    | fn hqs hs =>
      rw [chars_fn] at h
      obtain ⟨rfl, h'⟩ := params_inj ihp hps hqs (.inl rfl) (List.cons.inj h).2
      obtain ⟨rfl, hxy⟩ := ihr hs hx hy (List.append_cancel_left h')
      exact ⟨rfl, hxy⟩
    | struct _ _ => exact absurd h (by simp [chars_struct])
  | struct hn _ ih =>
    intro u xs ys hu hx hy h
    cases hu with
    | con hm => exact absurd h.symm (con_ne_struct hm hy)
    | ptr _ => exact absurd h (by simp [chars_struct, chars_ptr])
    | fn _ _ => exact absurd h (by simp [chars_struct, chars_fn])
    | struct hm hgs =>
      rw [chars_struct, chars_struct] at h
      have h := (List.cons.inj (List.cons.inj (List.append_cancel_left h)).2).2
      obtain ⟨rfl, hxy⟩ := fields_inj ih hn hm hgs (.inl rfl) h
      exact ⟨rfl, hxy⟩

theorem Worded.eq_of_text (ht : Worded t) (hu : Worded u) (h : t.text = u.text) : t = u :=
  (ht.distinct hu .nil .nil (by rw [chars, chars, h])).1

end

/-! ## Names of variables as words -/

/-- A type with constructors called by `name` in the place of its variables. -/
def spell (name : TyVar → String) (t : Ty) : Ty := t.bind fun v => .con (name v)

theorem textParams_map {name name' : TyVar → String} {f : Ty → Ty} :
    ∀ {ts : List Ty} (sep : String),
    (∀ t ∈ ts, (f t).textWith name' = t.textWith name) →
    textParams name' sep (ts.map f) = textParams name sep ts
  | [], _, _ => rfl
  | t :: ts, sep, h => by
    obtain ⟨ht, hts⟩ := List.forall_mem_cons.1 h
    rw [List.map_cons, textParams, textParams, ht, textParams_map ", " hts]

theorem textFields_map {name name' : TyVar → String} {f : Ty → Ty} :
    ∀ {fs : List (String × Ty)} (sep : String),
    (∀ p ∈ fs, (f p.2).textWith name' = p.2.textWith name) →
    textFields name' sep (fs.map fun p => (p.1, f p.2)) = textFields name sep fs
  | [], _, _ => rfl
  | (n, t) :: fs, sep, h => by
    obtain ⟨ht, hfs⟩ := List.forall_mem_cons.1 h
    rw [List.map_cons, textFields, textFields, textFields_map ", " hfs, ht]

/-- Names of variables are written as they would be as constructors. -/
theorem textWith_spell (name name' : TyVar → String) (t : Ty) :
    (t.spell name).textWith name' = t.textWith name := by
  unfold spell
  induction t with
  | var v => rfl
  | con n => rfl
  | ptr t ih => rw [bind, textWith, ih, textWith]
  | fn ps r ihp ihr => rw [bind, bindAll_eq_map, textWith, textParams_map "" ihp, ihr, textWith]
  | struct n fs ih =>
    rw [bind, bindFields_eq_map]
    cases n with
    | none => rw [textWith, textFields_map " " ih, textWith]
    | some n => rfl

/-- Identifiers for constructors and fields, no constructor among `reserved`, and no layout with a
name. -/
inductive Legible (reserved : List String) : Ty → Prop
  | var (v : TyVar) : Legible reserved (.var v)
  | con {n : String} : isIdentifier n → n ∉ reserved → Legible reserved (.con n)
  | ptr {t : Ty} : Legible reserved t → Legible reserved (.ptr t)
  | fn {ps : List Ty} {r : Ty} : (∀ p ∈ ps, Legible reserved p) → Legible reserved r →
      Legible reserved (.fn ps r)
  | struct {fs : List (String × Ty)} : (∀ f ∈ fs, isIdentifier f.1) →
      (∀ f ∈ fs, Legible reserved f.2) → Legible reserved (.struct none fs)

theorem Legible.spell {reserved : List String} {name : TyVar → String} {t : Ty}
    (ht : Legible reserved t) (hname : ∀ v, IsWord (name v)) : Worded (t.spell name) := by
  unfold Ty.spell
  induction ht with
  | var v => exact .con (hname v)
  | con hn _ => exact .con (isWord_of_isIdentifier hn).1
  | ptr _ ih => exact .ptr ih
  | fn _ _ ihp ihr =>
    rw [bind, bindAll_eq_map]
    exact .fn (List.forall_mem_map.2 ihp) ihr
  | struct hn _ ih =>
    rw [bind, bindFields_eq_map]
    exact .struct (List.forall_mem_map.2 fun f hf => (isWord_of_isIdentifier (hn f hf)).1)
      (List.forall_mem_map.2 ih)

/-- Legible types that are written alike are spelled alike. -/
theorem spell_eq_of_textWith {ns ms : List String} {f g : TyVar → String} {t u : Ty}
    (ht : Legible ns t) (hu : Legible ms u) (hf : ∀ v, IsWord (f v)) (hg : ∀ v, IsWord (g v))
    (h : t.textWith f = u.textWith g) : t.spell f = u.spell g := by
  refine (ht.spell hf).eq_of_text (hu.spell hg) ?_
  rw [text, text, textWith_spell, textWith_spell, h]

theorem map_eq_of_map_eq {α β : Type} {f g : α → β} {ρ : α → α} : ∀ {as bs : List α},
    as.map f = bs.map g → (∀ a ∈ as, ∀ b ∈ bs, f a = g b → ρ a = b) → as.map ρ = bs
  | [], [], _, _ => rfl
  | a :: as, b :: bs, h, hρ => by
    obtain ⟨hab, h⟩ := List.cons.inj h
    rw [List.map_cons, hρ a List.mem_cons_self b List.mem_cons_self hab,
      map_eq_of_map_eq h fun a ha b hb => hρ a (List.mem_cons_of_mem _ ha) b
        (List.mem_cons_of_mem _ hb)]

/-- Names that no constructor has and that tell variables apart, up to the replacement `ρ`, tell
types apart. -/
theorem eq_of_spell {ns ms : List String} {f g : TyVar → String} {ρ : TyVar → Ty} {t u : Ty}
    (ht : Legible ns t) (hu : Legible ms u) (hvar : ∀ v w, f v = g w → ρ v = .var w)
    (hf : ∀ v n, isIdentifier n → n ∉ ms → f v ≠ n)
    (hg : ∀ w n, isIdentifier n → n ∉ ns → n ≠ g w) (h : t.spell f = u.spell g) :
    t.bind ρ = u := by
  unfold spell at h
  induction ht generalizing u with
  | var v =>
    cases hu with
    | var w => exact hvar v w (con.inj h)
    | con hn hm => exact absurd (con.inj h) (hf v _ hn hm)
    | _ => cases h
  | con hn hm =>
    cases hu with
    | var w => exact absurd (con.inj h) (hg w _ hn hm)
    | con _ _ => exact h
    | _ => cases h
  | ptr _ ih =>
    cases hu with
    | ptr hu => exact congrArg ptr (ih hu (ptr.inj h))
    | _ => cases h
  | fn _ _ ihp ihr =>
    cases hu with
    | fn hqs hs =>
      simp only [bind, bindAll_eq_map] at h ⊢
      obtain ⟨hps, hr⟩ := fn.inj h
      rw [ihr hs hr, map_eq_of_map_eq hps fun p hp q hq => ihp p hp (hqs q hq)]
    | _ => cases h
  | struct _ _ ih =>
    cases hu with
    | struct _ hgs =>
      simp only [bind, bindFields_eq_map] at h ⊢
      rw [map_eq_of_map_eq (struct.inj h).2 fun p hp q hq hpq => ?_]
      obtain ⟨hn, ht⟩ := Prod.mk.inj hpq
      exact Prod.ext hn (ih p hp (hgs q hq) ht)
    | _ => cases h

end Ty

end TypeInference
