/-
# Blank characters

The blanks of running text are the characters with the Unicode property
`White_Space`.  They are trimmed from numbers and code texts, and a comment that
already begins or ends with one is not padded again.

The structure of a document knows only four of them; that smaller set is
`Markup.isSpace`.
-/

namespace SymbolFont.Text

/-- The characters with the property `White_Space`. -/
def isBlank (c : Char) : Bool :=
  let n := c.toNat
  (9 ≤ n && n ≤ 13) || n == 0x20 || n == 0x85 || n == 0xA0 || n == 0x1680 ||
    (0x2000 ≤ n && n ≤ 0x200A) || n == 0x2028 || n == 0x2029 || n == 0x202F ||
    n == 0x205F || n == 0x3000

/-- No blank stands between the space and the end of ASCII. -/
theorem isBlank_eq_false_of_ascii {c : Char} (above : 0x20 < c.toNat) (below : c.toNat < 0x80) :
    isBlank c = false := by
  simp [isBlank]
  omega

/-- Remove the blanks at both ends. -/
def trim (cs : List Char) : List Char :=
  ((cs.dropWhile isBlank).reverse.dropWhile isBlank).reverse

/-- What is trimmed off is blank. -/
theorem exists_eq_append_trim (cs : List Char) :
    ∃ lead trail, cs = lead ++ trim cs ++ trail ∧ ∀ c ∈ lead ++ trail, isBlank c = true := by
  refine ⟨cs.takeWhile isBlank,
    ((cs.dropWhile isBlank).reverse.takeWhile isBlank).reverse, ?_, ?_⟩
  · rw [trim, List.append_assoc, ← List.reverse_append, List.takeWhile_append_dropWhile,
      List.reverse_reverse, List.takeWhile_append_dropWhile]
  · intro c mem
    rcases List.mem_append.mp mem with front | back
    · exact List.all_eq_true.mp (List.all_takeWhile) c front
    · exact List.all_eq_true.mp (List.all_takeWhile) c (List.mem_reverse.mp back)

/-- Blanks around a text without blanks are trimmed off. -/
theorem trim_padded {lead core trail : List Char} (blank : ∀ c ∈ lead ++ trail, isBlank c = true)
    (solid : ∀ c ∈ core, isBlank c = false) : trim (lead ++ core ++ trail) = core := by
  have front : ∀ c ∈ lead, isBlank c = true := fun c mem =>
    blank c (List.mem_append_left trail mem)
  have back : ∀ c ∈ trail.reverse, isBlank c = true := fun c mem =>
    blank c (List.mem_append_right lead (List.mem_reverse.mp mem))
  have kept {c : Char} {cs : List Char} (solid : isBlank c = false) :
      (c :: cs).dropWhile isBlank = c :: cs :=
    List.dropWhile_cons_of_neg (by simp [solid])
  rw [trim, List.append_assoc, List.dropWhile_append_of_pos front]
  cases core with
  | nil =>
      have trail_blank : ∀ c ∈ trail, isBlank c = true := fun c mem =>
        back c (List.mem_reverse.mpr mem)
      have nothing : (trail ++ []).dropWhile isBlank = ([] : List Char).dropWhile isBlank :=
        List.dropWhile_append_of_pos trail_blank
      rw [List.append_nil] at nothing
      rw [List.nil_append, nothing]
      rfl
  | cons c cs =>
      -- The last character of the text is met first from behind.
      obtain ⟨last, others, reversed⟩ := List.exists_cons_of_ne_nil
        (List.reverse_ne_nil_iff.mpr (List.cons_ne_nil c cs))
      have last_solid : isBlank last = false :=
        solid last (List.mem_reverse.mp (reversed ▸ List.mem_cons_self))
      rw [List.cons_append, kept (solid c List.mem_cons_self), ← List.cons_append,
        List.reverse_append, List.dropWhile_append_of_pos back, reversed, kept last_solid,
        ← reversed, List.reverse_reverse]

end SymbolFont.Text
