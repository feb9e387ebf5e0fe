import UnifiedConfig.Config.Show
import UnifiedConfig.Proofs.Fragments

/-!
# Values in quotes

The values of a setting are shown in quotes with a blank between them. Each of them is a word then,
made of texts in single quotes with an escaped quote between every two, and the line of a setting
can be told from all others.

The line is cut at a `=`, and a value may hold that sign too. But whatever follows a `=` in quotes
ends the quotes before it, where a list of values would have to begin them.

* `fragments_quoted`: what the fragments of a text in quotes are.
* `words_quotedLine`: texts in quotes are read back.
* `quotedLine_ne_append`: no list of texts in quotes ends in a `=` and another such list.
* `words_of_showAt`: the line of a setting tells its values.
-/

namespace UnifiedConfig

open Text

namespace Text

/-! ## Reading back -/

/-- A text in quotes, where a part of it has been put down already. -/
theorem fragments_quoted_from {v : List Char} (h : '\'' ∉ v) (s : List Char) :
    Fragments ('\'' :: (v ++ (s.flatMap quotedChar ++ ['\'']))) (v ++ s) := by
  induction s generalizing v with
  | nil => simpa using Fragments.cons (.single h) .nil
  | cons c s ih =>
    by_cases hc : c = '\''
    · -- The quotes are closed, the quote stands after a backslash, and new quotes begin.
      have hrest := Fragments.cons (.escaped '\'') (ih (v := []) (by simp))
      simpa [quotedChar, hc] using Fragments.cons (.single h) hrest
    · have hmore := ih (v := v ++ [c]) (by simp [h, Ne.symm hc])
      simpa [quotedChar, hc] using hmore

/-- A text in quotes denotes the text. -/
theorem fragments_quoted (s : List Char) : Fragments (quoted s) s := by
  simpa [quoted] using fragments_quoted_from (v := []) (by simp) s

theorem isWord_quoted (s : List Char) : IsWord (quoted s) s where
  fragments := fragments_quoted s
  ne_nil := by simp [quoted]
  hash := by simp [quoted]

/-- Texts in quotes with a blank between them. -/
def quotedLine (ss : List (List Char)) : List Char :=
  [' '].intercalate (ss.map quoted)

theorem quotedLine_cons_cons (s t : List Char) (more : List (List Char)) :
    quotedLine (s :: t :: more) = quoted s ++ ' ' :: quotedLine (t :: more) := by
  simp [quotedLine]

theorem IsReading.blank_cons {c : Char} {line : List Char} {ws : List (List Char)}
    (hc : isBlank c = true) (h : IsReading line ws) : IsReading (c :: line) ws := by
  have hmore {blanks : List Char} (hblanks : IsBlanks blanks) : IsBlanks (c :: blanks) := by
    simpa [IsBlanks, hc] using hblanks
  cases h with
  | blank hblanks => exact .blank (hmore hblanks)
  | comment hblanks rest => exact .comment (hmore hblanks) rest
  | word hblanks hword hend h => exact .word (hmore hblanks) hword hend h

/-- Texts in quotes are the words of their line. -/
theorem isReading_quotedLine (ss : List (List Char)) : IsReading (quotedLine ss) ss := by
  have hnone : IsBlanks [] := by simp [IsBlanks]
  induction ss with
  | nil => exact .blank (by simp [IsBlanks, quotedLine])
  | cons s more ih =>
    cases more with
    | nil =>
      have hlast := IsReading.word hnone (isWord_quoted s) (by simp [EndsWord]) (.blank hnone)
      simpa [quotedLine] using hlast
    | cons t more =>
      rw [quotedLine_cons_cons]
      have hmore := ih.blank_cons isBlank_space
      have hfirst := IsReading.word hnone (isWord_quoted s) (by simp [EndsWord, isBlank_space]) hmore
      simpa using hfirst

theorem words_quotedLine (ss : List (List Char)) : words (quotedLine ss) = .ok ss :=
  words_of_isReading (isReading_quotedLine ss)

theorem quotedLine_inj {ss ts : List (List Char)} : quotedLine ss = quotedLine ts ↔ ss = ts := by
  refine ⟨fun h => ?_, fun h => h ▸ rfl⟩
  have hread := words_quotedLine ss
  rw [h, words_quotedLine] at hread
  exact (Except.ok.inj hread).symm

/-! ## Telling the values -/

/-- What is left of texts in quotes inside of one of them: the rest of that text, and the texts
after it. -/
def quotedRest : List Char → List (List Char) → List Char
  | [], [] => ['\'']
  | [], t :: more => '\'' :: ' ' :: '\'' :: quotedRest t more
  | c :: s, more => quotedChar c ++ quotedRest s more
termination_by s more => (more.length, s.length)

theorem quotedLine_eq_cons (s : List Char) (more : List (List Char)) :
    quotedLine (s :: more) = '\'' :: quotedRest s more := by
  have hrest (s : List Char) (more : List (List Char)) : quotedRest s more =
      s.flatMap quotedChar ++ quotedRest [] more := by
    induction s with
    | nil => rfl
    | cons c s ih => rw [quotedRest, ih]; simp
  induction more generalizing s with
  | nil => simp [quotedLine, quoted, hrest s, quotedRest]
  | cons t more ih => simp [quotedLine_cons_cons, ih, quoted, hrest s, quotedRest]

/-- A character other than a quote belongs to the text. -/
theorem exists_of_quotedRest_eq_cons {c : Char} {s r : List Char} {more : List (List Char)}
    (hc : c ≠ '\'') (h : quotedRest s more = c :: r) : ∃ t, s = c :: t ∧ quotedRest t more = r := by
  cases s with
  | nil => cases more <;> simp [quotedRest, Ne.symm hc] at h
  | cons d s =>
    by_cases hd : d = '\''
    · simp [quotedRest, quotedChar, hd, Ne.symm hc] at h
    · simp only [quotedRest, quotedChar, if_neg hd, List.singleton_append, List.cons.injEq] at h
      exact ⟨s, by rw [h.1], h.2⟩

/-- No two quotes come one right after the other, unless a backslash is before them. -/
theorem quotedRest_ne_quotes (s r : List Char) (more : List (List Char)) :
    quotedRest s more ≠ '\'' :: '\'' :: r := by
  cases s with
  | nil => cases more <;> simp [quotedRest]
  | cons c s => by_cases hc : c = '\'' <;> simp [quotedRest, quotedChar, hc]

theorem quotedRest_ne_nil (s : List Char) (more : List (List Char)) : quotedRest s more ≠ [] := by
  cases s with
  | nil => cases more <;> simp [quotedRest]
  | cons c s => by_cases hc : c = '\'' <;> simp [quotedRest, quotedChar, hc]

/-- A text cannot be both inside of quotes and before them. -/
theorem quotedRest_ne_cons (s t : List Char) (more others : List (List Char)) :
    quotedRest s more ≠ '\'' :: quotedRest t others := by
  -- The induction is on the length, as the two sides change places.
  induction hn : (quotedRest s more).length using Nat.strongRecOn generalizing s t more others with
  | _ n ih =>
    intro h
    cases s with
    | nil =>
      cases more with
      | nil => exact quotedRest_ne_nil t others (by simpa [quotedRest] using h.symm)
      | cons u more =>
        rw [quotedRest] at h hn
        obtain ⟨t, rfl, ht⟩ :=
          exists_of_quotedRest_eq_cons (by decide) (List.cons.inj h).2.symm
        refine ih (quotedRest t others).length ?_ t u others more rfl ht
        rw [ht, ← hn]
        simp
    | cons c s =>
      by_cases hc : c = '\''
      · -- An escaped quote is read as a backslash, and then the quotes cannot go on.
        simp only [quotedRest, quotedChar, if_pos hc, List.cons_append, List.nil_append,
          List.cons.injEq, true_and] at h
        obtain ⟨t, -, ht⟩ := exists_of_quotedRest_eq_cons (by decide) h.symm
        exact quotedRest_ne_quotes _ _ _ ht
      · simp [quotedRest, quotedChar, hc] at h

/-- What comes after a `=` in a list of texts in quotes is inside of one of them. -/
theorem exists_quotedRest_of_suffix {r s : List Char} {more : List (List Char)}
    (h : ('=' :: r) <:+ quotedRest s more) : ∃ t rest, r = quotedRest t rest := by
  fun_induction quotedRest s more with
  | case1 => simp [List.suffix_cons_iff] at h
  | case2 t more ih =>
    simp only [List.suffix_cons_iff, List.cons.injEq] at h
    exact ih (by simpa using h)
  | case3 c s more ih =>
    by_cases hc : c = '\''
    · simp only [quotedChar, if_pos hc, List.cons_append, List.nil_append,
        List.suffix_cons_iff, List.cons.injEq] at h
      exact ih (by simpa using h)
    · simp only [quotedChar, if_neg hc, List.cons_append, List.nil_append,
        List.suffix_cons_iff, List.cons.injEq] at h
      rcases h with ⟨-, hr⟩ | h
      · exact ⟨s, more, hr⟩
      · exact ih h

/-- No list of texts in quotes ends in a `=` and another such list. -/
theorem quotedLine_ne_append (a : List Char) (ss ts : List (List Char)) :
    quotedLine ss ≠ a ++ '=' :: quotedLine ts := by
  intro h
  cases ss with
  | nil => simp [quotedLine] at h
  | cons s more =>
    rw [quotedLine_eq_cons] at h
    have hsuffix : ('=' :: quotedLine ts) <:+ quotedRest s more := by
      have hall : ('=' :: quotedLine ts) <:+ '\'' :: quotedRest s more := ⟨a, h.symm⟩
      simpa [List.suffix_cons_iff] using hall
    obtain ⟨t, rest, heq⟩ := exists_quotedRest_of_suffix hsuffix
    cases ts with
    | nil => exact quotedRest_ne_nil t rest (by simpa [quotedLine] using heq.symm)
    | cons u others =>
      rw [quotedLine_eq_cons] at heq
      exact quotedRest_ne_cons t u rest others heq.symm

/-- Texts in quotes are told from what is before a `=` and them. -/
theorem append_quotedLine_inj {x y : List Char} {ss ts : List (List Char)} :
    x ++ '=' :: quotedLine ss = y ++ '=' :: quotedLine ts ↔ x = y ∧ ss = ts := by
  constructor
  · intro h
    -- One of the two lists would end in a `=` and the other.
    rcases List.append_eq_append_iff.1 h with ⟨a, hx, hlines⟩ | ⟨a, hy, hlines⟩
    · cases a with
      | nil => simpa [quotedLine_inj, eq_comm] using And.intro hx hlines
      | cons c a => exact absurd (List.cons.inj hlines).2 (quotedLine_ne_append a ss ts)
    · cases a with
      | nil => simpa [quotedLine_inj, eq_comm] using And.intro hy hlines
      | cons c a => exact absurd (List.cons.inj hlines).2 (quotedLine_ne_append a ts ss)
  · rintro ⟨rfl, rfl⟩
    rfl

end Text

/-! ## Lines of settings -/

namespace Setting

theorem toList_quotedValues (o : Setting) :
    o.quotedValues.toList = quotedLine (o.values.map String.toList) := by
  simp [quotedValues, quotedLine, Function.comp_def]

theorem toList_showAt (address : String) (o : Setting) : (o.showAt address).toList =
    (address ++ "." ++ o.name).toList ++ '=' :: quotedLine (o.values.map String.toList) ++
      ['\n'] := by
  simp [showAt, toString, toList_quotedValues]

/-- The values of a setting are told by its line, whatever address is before them. -/
theorem showAt_eq_iff {o p : Setting} {address other : String} :
    o.showAt address = p.showAt other ↔
      address ++ "." ++ o.name = other ++ "." ++ p.name ∧ o.values = p.values := by
  have hvalues : o.values.map String.toList = p.values.map String.toList ↔ o.values = p.values :=
    List.map_inj_right fun _ _ => String.toList_inj.1
  rw [← String.toList_inj, toList_showAt, toList_showAt, List.append_cancel_right_eq,
    append_quotedLine_inj, String.toList_inj, hvalues]

/-- The line of a setting is its address, a `=`, and a text whose words are the values. Two lines
are the same only if the values are. -/
theorem words_of_showAt (o : Setting) (address : String) :
    (∃ text : String, o.showAt address = s!"{address}.{o.name}={text}\n" ∧
      words text.toList = .ok (o.values.map String.toList)) ∧
    ∀ (p : Setting) (other : String), o.showAt address = p.showAt other ↔
      address ++ "." ++ o.name = other ++ "." ++ p.name ∧ o.values = p.values := by
  refine ⟨⟨o.quotedValues, rfl, ?_⟩, fun _ _ => showAt_eq_iff⟩
  rw [toList_quotedValues]
  exact words_quotedLine _

-- A value with quotes at its ends, beside an empty one.
example : ({ name := "o", kind := .list, values := ["'a'='b'", ""] } : Setting).showAt "c.s" =
    "c.s.o=''\\''a'\\''='\\''b'\\''' ''\n" := by decide +kernel

end Setting

end UnifiedConfig
