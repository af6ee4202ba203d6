import TypeInference.Proofs.Ty.Words
import TypeInference.Scheme

/-!
# The written form of a scheme can be read back

The letters of the quantified variables are pairwise different, are no variable's own form and hold
no full stop. The list of letters therefore ends at the first full stop of a written scheme, its
length tells how many there are, and the type behind it can be read back up to the choice of the
quantified variables (`text_determines`).
-/

namespace TypeInference

namespace Ty

theorem toList_varText (v : TyVar) : (varText v).toList = '?' :: (toString v).toList := by
  simp [varText]

theorem varText_injective {v w : TyVar} (h : varText v = varText w) : v = w := by
  have h := congrArg String.toList h
  rw [toList_varText, toList_varText] at h
  exact toString_toList_injective (List.cons.inj h).2

theorem isWordChar_of_isDigit {c : Char} (h : c.isDigit) : isWordChar c := by
  simp [isWordChar, h]

theorem isWord_varText (v : TyVar) : IsWord (varText v) := by
  refine ⟨by simp [toList_varText], fun c hc => ?_⟩
  rw [toList_varText] at hc
  obtain rfl | hc := List.mem_cons.1 hc
  · rfl
  · exact isWordChar_of_isDigit (isDigit_of_mem_toString hc)

/-- A variable is not written as an identifier. -/
theorem varText_ne_of_isIdentifier {v : TyVar} {n : String} (hn : isIdentifier n) :
    varText v ≠ n := by
  rintro rfl
  exact (isWord_of_isIdentifier hn).2 _ (toList_varText v)

/-- Types that are written alike are equal. -/
theorem eq_of_text {t u : Ty} (ht : Legible [] t) (hu : Legible [] u) (h : t.text = u.text) :
    t = u := by
  have hs : t.spell varText = u.spell varText :=
    spell_eq_of_textWith ht hu isWord_varText isWord_varText h
  rw [← bind_var t]
  exact eq_of_spell ht hu (fun v w hvw => congrArg Ty.var (varText_injective hvw))
    (fun _ _ hn _ => varText_ne_of_isIdentifier hn)
    (fun _ _ hn _ => (varText_ne_of_isIdentifier hn).symm) hs

end Ty

namespace Scheme

/-! ## Letters -/

/-- What follows the first character of a letter. -/
def letterDigits (n : Nat) : List Char := if n = 0 then [] else Nat.toDigits 10 n

theorem toList_letter (i : Nat) :
    (letter i).toList = Char.ofNat (97 + i % 26) :: letterDigits (i / 26) := by
  unfold letter letterDigits
  split <;> simp

/-- The first character of a letter is one of the alphabet. -/
theorem letterChar : ∀ r < 26,
    (Char.ofNat (97 + r)).toNat = 97 + r ∧ (Char.ofNat (97 + r)).isAlpha := by decide

theorem ofDigitChars_letterDigits (n : Nat) : Nat.ofDigitChars 10 (letterDigits n) 0 = n := by
  unfold letterDigits
  split
  · next h => rw [h]; rfl
  · simp

theorem letter_injective {i j : Nat} (h : letter i = letter j) : i = j := by
  have h := congrArg String.toList h
  rw [toList_letter, toList_letter] at h
  obtain ⟨hc, hd⟩ := List.cons.inj h
  -- the character tells the remainder by 26, the digits the quotient
  have hmod := congrArg Char.toNat hc
  rw [(letterChar _ (Nat.mod_lt i (by decide))).1,
    (letterChar _ (Nat.mod_lt j (by decide))).1] at hmod
  have hdiv := congrArg (fun ds => Nat.ofDigitChars 10 ds 0) hd
  simp only [ofDigitChars_letterDigits] at hdiv
  omega

theorem isWord_letter (i : Nat) : IsWord (letter i) := by
  refine ⟨by simp [toList_letter], fun c hc => ?_⟩
  rw [toList_letter] at hc
  obtain rfl | hc := List.mem_cons.1 hc
  · have hc := (letterChar _ (Nat.mod_lt i (by decide))).2
    simp [isWordChar, isLetter, hc]
  · unfold letterDigits at hc
    split at hc
    · cases hc
    · exact Ty.isWordChar_of_isDigit (Nat.isDigit_of_mem_toDigits (by decide) (by decide) hc)

theorem letter_ne_varText (i : Nat) (v : TyVar) : letter i ≠ Ty.varText v := by
  intro h
  have h := congrArg String.toList h
  rw [toList_letter, Ty.toList_varText] at h
  have hc := congrArg Char.toNat (List.cons.inj h).1
  rw [(letterChar _ (Nat.mod_lt i (by decide))).1, show Char.toNat '?' = 63 from rfl] at hc
  omega

/-- The letters of the quantified variables. -/
def letters (s : Scheme) : List String := (List.range s.vars.length).map letter

theorem toList_lettersText (s : Scheme) : s.lettersText.toList =
    (List.range s.vars.length).flatMap fun i => ' ' :: (letter i).toList := by
  simp [lettersText, String.toList_join, List.flatMap_map]

/-- Letters hold no full stop. -/
theorem lettersText_ne_stop (s : Scheme) : ∀ c ∈ s.lettersText.toList, c ≠ '.' := by
  rintro c hc rfl
  rw [toList_lettersText] at hc
  obtain ⟨i, -, hc⟩ := List.mem_flatMap.1 hc
  obtain hc | hc := List.mem_cons.1 hc
  · exact absurd hc (by decide)
  · exact absurd ((isWord_letter i).chars _ hc) (by decide)

/-- More letters make a longer list. -/
theorem length_letters_lt {m n : Nat} (h : m < n) :
    ((List.range m).flatMap fun i => ' ' :: (letter i).toList).length <
      ((List.range n).flatMap fun i => ' ' :: (letter i).toList).length := by
  induction h with
  | refl => simp [List.range_succ]
  | step _ ih =>
    rw [List.range_succ, List.flatMap_append, List.length_append]
    exact Nat.lt_add_right _ ih

theorem length_eq_of_lettersText {s s' : Scheme} (h : s.lettersText = s'.lettersText) :
    s.vars.length = s'.vars.length := by
  have h := congrArg (fun x => x.toList.length) h
  simp only [toList_lettersText] at h
  obtain hlt | heq | hgt := Nat.lt_trichotomy s.vars.length s'.vars.length
  · exact absurd h (Nat.ne_of_lt (length_letters_lt hlt))
  · exact heq
  · exact absurd h (Nat.ne_of_gt (length_letters_lt hgt))

/-! ## The type behind the letters -/

/-- What a variable of a scheme is written as. -/
theorem varText_cases (s : Scheme) (v : TyVar) :
    (∃ i, s.vars.idxOf? v = some i ∧ s.vars[i]? = some v ∧ s.varText v = letter i) ∨
      s.vars.idxOf? v = none ∧ s.varText v = Ty.varText v := by
  unfold varText
  cases h : s.vars.idxOf? v with
  | some i =>
    obtain ⟨hi, hv, -⟩ := List.idxOf?_eq_some_iff.1 h
    exact .inl ⟨i, rfl, List.getElem?_eq_some_iff.2 ⟨hi, hv⟩, rfl⟩
  | none => exact .inr ⟨rfl, rfl⟩

theorem isWord_varText (s : Scheme) (v : TyVar) : IsWord (s.varText v) := by
  obtain ⟨i, -, -, h⟩ | ⟨-, h⟩ := s.varText_cases v
  · rw [h]
    exact isWord_letter i
  · rw [h]
    exact Ty.isWord_varText v

/-- A variable of a scheme is not written like a constructor that has no letter for a name. -/
theorem varText_ne (s : Scheme) {v : TyVar} {n : String} (hn : isIdentifier n)
    (hl : n ∉ s.letters) : s.varText v ≠ n := by
  rintro rfl
  obtain ⟨i, -, hi, h⟩ | ⟨-, h⟩ := s.varText_cases v
  · have hi := (List.getElem?_eq_some_iff.1 hi).1
    exact hl (List.mem_map.2 ⟨i, List.mem_range.2 hi, h.symm⟩)
  · exact Ty.varText_ne_of_isIdentifier hn h.symm

/-- The `i`-th of `vs` becomes the `i`-th of `ws`. -/
def counterpart (vs ws : List TyVar) (v : TyVar) : Ty :=
  match vs.idxOf? v with
  | some i => .var (ws.getD i v)
  | none => .var v

/-- Variables that are written alike are corresponding ones. -/
theorem counterpart_eq_of_varText {s s' : Scheme} {v w : TyVar} (h : s.varText v = s'.varText w) :
    counterpart s.vars s'.vars v = .var w := by
  obtain ⟨i, hv, -, ht⟩ | ⟨hv, ht⟩ := s.varText_cases v <;>
    obtain ⟨j, -, hw, ht'⟩ | ⟨-, ht'⟩ := s'.varText_cases w <;>
    rw [ht, ht'] at h <;> simp only [counterpart, hv]
  · obtain rfl := letter_injective h
    rw [List.getD_eq_getElem?_getD, hw, Option.getD_some]
  · exact absurd h (letter_ne_varText i w)
  · exact absurd h.symm (letter_ne_varText j v)
  · exact congrArg Ty.var (Ty.varText_injective h)

theorem eq_of_textWith {s s' : Scheme} (hs : s.ty.Legible s.letters)
    (hs' : s'.ty.Legible s'.letters)
    (hlen : s.vars.length = s'.vars.length)
    (h : s.ty.textWith s.varText = s'.ty.textWith s'.varText) :
    s.ty.bind (counterpart s.vars s'.vars) = s'.ty := by
  have hl : s.letters = s'.letters := by rw [letters, letters, hlen]
  exact Ty.eq_of_spell hs hs' (fun _ _ hvw => counterpart_eq_of_varText hvw)
    (fun _ _ hn hm => s.varText_ne hn (hl ▸ hm))
    (fun _ _ hn hm => (s'.varText_ne hn (hl ▸ hm)).symm)
    (Ty.spell_eq_of_textWith hs hs' s.isWord_varText s'.isWord_varText h)

theorem vars_eq_nil_of_isMono {s : Scheme} (h : s.isMono) : s.vars = [] :=
  List.isEmpty_iff.1 h

theorem varText_eq_of_isMono {s : Scheme} (h : s.isMono) : s.varText = Ty.varText := by
  funext v
  simp [varText, vars_eq_nil_of_isMono h]

theorem toList_text {s : Scheme} (h : ¬ s.isMono) : s.text.toList =
    ['f', 'o', 'r', 'a', 'l', 'l'] ++ (s.lettersText.toList ++
      '.' :: ' ' :: (s.ty.textWith s.varText).toList) := by
  simp [text, h]

theorem toList_lettersText_of_not_isMono {s : Scheme} (h : ¬ s.isMono) :
    ∃ cs, s.lettersText.toList = ' ' :: cs := by
  obtain ⟨n, hn⟩ : ∃ n, s.vars.length = n + 1 :=
    Nat.exists_eq_succ_of_ne_zero fun h0 => h (List.isEmpty_iff.2 (List.length_eq_zero_iff.1 h0))
  rw [toList_lettersText, hn, List.range_succ_eq_map]
  exact ⟨_, rfl⟩

/-- No type is written like a scheme with quantified variables: no word goes on with a blank. -/
theorem text_ne_of_isMono {s s' : Scheme} (hty : s.ty.Legible s.letters) (hs : s.isMono)
    (hs' : ¬ s'.isMono) : s.text ≠ s'.text := by
  intro h
  obtain ⟨cs, hcs⟩ := toList_lettersText_of_not_isMono hs'
  rw [text, if_pos hs] at h
  have h : s.ty.chars = s'.text.toList := congrArg String.toList h
  rw [toList_text hs', hcs] at h
  -- only a type that is a single word begins like the list of letters
  generalize s.ty = t at h hty
  cases hty with
  | var v =>
    rw [Ty.chars, Ty.text, Ty.textWith, Ty.toList_varText] at h
    exact absurd (List.cons.inj h).1 (by decide)
  | con hn _ =>
    have hn := (isWord_of_isIdentifier hn).1
    rw [Ty.chars_con, ← List.append_nil (String.toList _)] at h
    have := append_inj_of_stop hn.chars (List.all_eq_true.1 rfl) (by simp) (stop_cons rfl _) h
    exact absurd this.2 (by simp)
  | ptr _ => exact absurd h (by simp [Ty.chars_ptr])
  | fn _ _ => exact absurd h (by rw [← List.append_nil (Ty.chars _), Ty.chars_fn]; simp)
  | struct _ _ => exact absurd h (by rw [← List.append_nil (Ty.chars _), Ty.chars_struct]; simp)

/-- A written scheme tells how many variables it quantifies and how its type is written. -/
theorem text_parts {s s' : Scheme} (hs : s.ty.Legible s.letters)
    (hs' : s'.ty.Legible s'.letters) (h : s.text = s'.text) :
    s.vars.length = s'.vars.length ∧ s.ty.textWith s.varText = s'.ty.textWith s'.varText := by
  by_cases hm : s.isMono <;> by_cases hm' : s'.isMono
  · rw [vars_eq_nil_of_isMono hm, vars_eq_nil_of_isMono hm', varText_eq_of_isMono hm,
      varText_eq_of_isMono hm']
    rw [text, text, if_pos hm, if_pos hm'] at h
    exact ⟨rfl, h⟩
  · exact absurd h (text_ne_of_isMono hs hm hm')
  · exact absurd h.symm (text_ne_of_isMono hs' hm' hm)
  · have h := congrArg String.toList h
    rw [toList_text hm, toList_text hm'] at h
    obtain ⟨hl, ht⟩ := append_inj_of_stop (p := (· ≠ '.')) (by simpa using s.lettersText_ne_stop)
      (by simpa using s'.lettersText_ne_stop) (by simp) (by simp) (List.append_cancel_left h)
    exact ⟨length_eq_of_lettersText (String.toList_inj.1 hl),
      String.toList_inj.1 (List.cons.inj (List.cons.inj ht).2).2⟩

/-- **Printed types are unambiguous.** Types that are written alike are equal. Schemes that are
written alike, none of them with a constructor called by one of its letters, quantify the same
number of variables, and their types are the same once each quantified variable of the one is
replaced by the corresponding one of the other; that no variable is quantified twice is not
needed. -/
theorem text_determines :
    (∀ t u : Ty, t.Legible [] → u.Legible [] → t.text = u.text → t = u) ∧
      ∀ s s' : Scheme, s.ty.Legible s.letters → s'.ty.Legible s'.letters → s.text = s'.text →
        s.vars.length = s'.vars.length ∧ s.ty.bind (counterpart s.vars s'.vars) = s'.ty := by
  refine ⟨fun t u => Ty.eq_of_text, fun s s' hs hs' h => ?_⟩
  obtain ⟨hlen, htext⟩ := text_parts hs hs' h
  exact ⟨hlen, eq_of_textWith hs hs' hlen htext⟩

/-- A pointer to a function is not written like a function that returns a pointer, and two schemes
of one function, whose third parameter is not quantified, are the same up to the variables. -/
theorem counterpart_of_text :
    Ty.text (.ptr (.fn [] (.con "int"))) ≠ Ty.text (.fn [] (.ptr (.con "int"))) ∧
      Scheme.text ⟨[7, 2], .fn [.var 7, .ptr (.var 2), .var 3] (.var 7)⟩ =
        "forall a b. (a, *b, ?3) -> a" ∧
      Ty.bind (counterpart [7, 2] [0, 1]) (.fn [.var 7, .ptr (.var 2), .var 3] (.var 7)) =
        .fn [.var 0, .ptr (.var 1), .var 3] (.var 0) := by
  have int : Ty.Legible [] (.con "int") := .con (by decide) (by decide)
  have thunk : ∀ {t : Ty}, t.Legible [] → Ty.Legible [] (.fn [] t) :=
    .fn (List.forall_mem_nil _)
  have sample : ∀ (ls : List String) (v w : TyVar),
      Ty.Legible ls (.fn [.var v, .ptr (.var w), .var 3] (.var v)) := fun ls v w =>
    .fn (List.forall_mem_cons.2 ⟨.var v, List.forall_mem_cons.2 ⟨.ptr (.var w),
      List.forall_mem_singleton.2 (.var 3)⟩⟩) (.var v)
  refine ⟨fun h => ?_, by decide, ?_⟩
  · exact absurd (text_determines.1 _ _ (.ptr (thunk int)) (thunk (.ptr int)) h) (by simp)
  · exact (text_determines.2 ⟨[7, 2], .fn [.var 7, .ptr (.var 2), .var 3] (.var 7)⟩
      ⟨[0, 1], .fn [.var 0, .ptr (.var 1), .var 3] (.var 0)⟩ (sample _ 7 2) (sample _ 0 1)
      (by decide)).2

end Scheme

end TypeInference
