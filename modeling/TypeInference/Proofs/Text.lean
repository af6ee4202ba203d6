/-!
# Cutting text

A text that is made of parts can be taken apart again where a part stops at a character that it does
not hold (`append_inj_of_stop`). A number is written with digits, and what it is can be read off
them.
-/

namespace TypeInference

/-- A text is cut in one way at the first character that does not satisfy `p`. -/
theorem append_inj_of_stop {p : Char → Bool} {as bs xs ys : List Char} (ha : ∀ c ∈ as, p c)
    (hb : ∀ c ∈ bs, p c) (hx : ∀ c ∈ xs.head?, p c = false) (hy : ∀ c ∈ ys.head?, p c = false)
    (h : as ++ xs = bs ++ ys) : as = bs ∧ xs = ys := by
  induction as generalizing bs with
  | nil =>
    cases bs with
    | nil => exact ⟨rfl, h⟩
    | cons b bs =>
      obtain rfl : xs = b :: (bs ++ ys) := h
      exact absurd (hb b List.mem_cons_self) (by simp [hx b rfl])
  | cons a as ih =>
    cases bs with
    | nil =>
      obtain rfl : a :: (as ++ xs) = ys := h
      exact absurd (ha a List.mem_cons_self) (by simp [hy a rfl])
    | cons b bs =>
      obtain ⟨rfl, h'⟩ := List.cons.inj h
      obtain ⟨rfl, hxy⟩ := ih (fun c hc => ha c (List.mem_cons_of_mem _ hc))
        (fun c hc => hb c (List.mem_cons_of_mem _ hc)) h'
      exact ⟨rfl, hxy⟩

/-- A text that begins with a character that does not satisfy `p`. -/
theorem stop_cons {p : Char → Bool} {c : Char} (h : p c = false) (cs : List Char) :
    ∀ d ∈ (c :: cs).head?, p d = false := by
  rintro d ⟨⟩
  exact h

theorem isDigit_of_mem_toString {n : Nat} {c : Char} (h : c ∈ (toString n).toList) :
    c.isDigit := by
  rw [Nat.toString_eq_ofList_toDigits, String.toList_ofList] at h
  exact Nat.isDigit_of_mem_toDigits (by decide) (by decide) h

theorem toString_toList_injective {m n : Nat} (h : (toString m).toList = (toString n).toList) :
    m = n := by
  rw [Nat.toString_eq_ofList_toDigits, Nat.toString_eq_ofList_toDigits] at h
  simpa using congrArg (fun ds => Nat.ofDigitChars 10 ds 0) h

end TypeInference
