import UnifiedConfig.Text.Words

/-!
# What the words of a line are made of

Two kinds of text can be written on a line so that they are read back as they are: a plain word,
which stands as it is, and a text without a single quote, which stands between single quotes.

* `words_plain`, `words_quoted`: a plain word and a quoted text are read back.
* `flatten_sublist_of_wordsFrom`: reading only ever drops characters, so the words of a line are
  made of its characters, in their order.
* `isPlain_of_flatten_eq`: a text that is read without dropping anything is plain.
* `isPlain_of_words_withQuoted`: if a text, a blank and a text in single quotes are read back as the
  two texts, the first is plain and no single quote is in the second.

The last one counts what is dropped. The blank and the two quotes that were put there are more than
the two texts hold, so nothing but one blank and two single quotes is dropped. No double quote and
no backslash then has its special meaning anywhere on the line, and without these every single quote
is dropped.
-/

namespace UnifiedConfig

theorem map_eq_ok_iff {ε α β : Type} {x : Except ε α} {f : α → β} {b : β} :
    x.map f = .ok b ↔ ∃ a, x = .ok a ∧ f a = b := by
  cases x <;> simp [Except.map]

namespace Text

/-- Whether a character stands for itself wherever it is in a word: it is no blank, no quote and no
backslash. -/
def isBare (c : Char) : Bool :=
  !isBlank c && c ≠ '\'' && c ≠ '"' && c ≠ '\\'

/-- A word that can be written as it is: not empty, of bare characters, and with no `#` to begin
it. -/
def IsPlain (w : List Char) : Prop :=
  w ≠ [] ∧ (∀ c ∈ w, isBare c) ∧ w.head? ≠ some '#'

/-- A text that can be written between single quotes on one line. -/
def IsQuotable (v : List Char) : Prop :=
  '\'' ∉ v ∧ '\n' ∉ v

/-- A text, a blank, and a text in single quotes. -/
def withQuoted (w v : List Char) : List Char :=
  w ++ ' ' :: '\'' :: (v ++ ['\''])

instance (w : List Char) : Decidable (IsPlain w) :=
  decidable_of_iff ((!w.isEmpty && w.all isBare && w.head? != some '#') = true)
    (by simp [IsPlain, and_assoc])

instance (v : List Char) : Decidable (IsQuotable v) :=
  decidable_of_iff ((!v.contains '\'' && !v.contains '\n') = true) (by simp [IsQuotable])

theorem isBare_iff {c : Char} :
    isBare c ↔ isBlank c = false ∧ c ≠ '\'' ∧ c ≠ '"' ∧ c ≠ '\\' := by
  simp [isBare, and_assoc]

theorem isBlank_space : isBlank ' ' = true := by decide

/-- No plain word holds a blank, a quote or a backslash. -/
theorem IsPlain.notMem {w : List Char} (h : IsPlain w) {c : Char} (hc : isBare c = false) :
    c ∉ w := by
  intro hmem
  have hbare := h.2.1 c hmem
  rw [hc] at hbare
  cases hbare

/-! ## Writing words -/

theorem wordsFrom_skip {mode next : Mode} {c : Char} (h : mode.move c = .skip next)
    (rest : List Char) : wordsFrom mode (c :: rest) = wordsFrom next rest := by
  simp [wordsFrom, h]

theorem wordsFrom_take {mode next : Mode} {c : Char} (h : mode.move c = .take next)
    (rest : List Char) :
    wordsFrom mode (c :: rest) = (wordsFrom next rest).map (extendFirst c) := by
  simp [wordsFrom, h]

theorem fragment_bare {c : Char} (h : isBare c) : fragment c = .take .bare := by
  have hc := isBare_iff.1 h
  simp [fragment, hc]

theorem move_bare {c : Char} (h : isBare c) : Mode.move .bare c = .take .bare := by
  have hc := isBare_iff.1 h
  simp [Mode.move, hc.1, fragment_bare h]

theorem wordsFrom_bare {w : List Char} (h : ∀ c ∈ w, isBare c) (rest : List Char) :
    wordsFrom .bare (w ++ ' ' :: rest) = (words rest).map (w :: ·) := by
  induction w with
  | nil => simp [wordsFrom, Mode.move, isBlank_space, words]
  | cons c w ih =>
    have ih := ih fun d hd => h d (by simp [hd])
    rw [List.cons_append, wordsFrom_take (move_bare (h c (by simp))), ih]
    cases words rest <;> simp [Except.map, extendFirst]

theorem wordsFrom_bare_end {w : List Char} (h : ∀ c ∈ w, isBare c) :
    wordsFrom .bare w = .ok [w] := by
  induction w with
  | nil => rfl
  | cons c w ih =>
    have ih := ih fun d hd => h d (by simp [hd])
    rw [wordsFrom_take (move_bare (h c (by simp))), ih]
    rfl

theorem move_between_plain {c : Char} (hbare : isBare c) (hhash : c ≠ '#') :
    Mode.move .between c = .take .bare := by
  have hc := isBare_iff.1 hbare
  simp [Mode.move, hc.1, hhash, fragment_bare hbare]

/-- A plain word before a blank is the first word of its line. -/
theorem words_plain {w : List Char} (h : IsPlain w) (rest : List Char) :
    words (w ++ ' ' :: rest) = (words rest).map (w :: ·) := by
  rcases h with ⟨hne, hbare, hhash⟩
  cases w with
  | nil => exact absurd rfl hne
  | cons c w =>
    have hw : ∀ d ∈ w, isBare d := fun d hd => hbare d (by simp [hd])
    have hmove := move_between_plain (hbare c (by simp)) (by simpa using hhash)
    rw [words, List.cons_append, wordsFrom_take hmove, wordsFrom_bare hw]
    cases words rest <;> simp [Except.map, extendFirst]

theorem words_plain_end {w : List Char} (h : IsPlain w) : words w = .ok [w] := by
  rcases h with ⟨hne, hbare, hhash⟩
  cases w with
  | nil => exact absurd rfl hne
  | cons c w =>
    have hw : ∀ d ∈ w, isBare d := fun d hd => hbare d (by simp [hd])
    have hmove := move_between_plain (hbare c (by simp)) (by simpa using hhash)
    rw [words, wordsFrom_take hmove, wordsFrom_bare_end hw]
    rfl

theorem wordsFrom_quoted {v : List Char} (h : '\'' ∉ v) :
    wordsFrom (.quoted .single) (v ++ ['\'']) = .ok [v] := by
  induction v with
  | nil => rfl
  | cons c v ih =>
    have hc : c ≠ '\'' := fun hc => h (by simp [hc])
    have ih := ih fun hmem => h (by simp [hmem])
    have hmove : Mode.move (.quoted .single) c = .take (.quoted .single) := by
      simp [Mode.move, hc]
    rw [List.cons_append, wordsFrom_take hmove, ih]
    rfl

/-- A text without a single quote is read back from between single quotes. -/
theorem words_quoted {v : List Char} (h : '\'' ∉ v) : words ('\'' :: v ++ ['\'']) = .ok [v] := by
  have hmove : Mode.move .between '\'' = .skip (.quoted .single) := by decide
  rw [words, List.cons_append, wordsFrom_skip hmove]
  exact wordsFrom_quoted h

theorem words_withQuoted {w v : List Char} (hw : IsPlain w) (hv : '\'' ∉ v) :
    words (withQuoted w v) = .ok [w, v] := by
  have hquoted : words ('\'' :: (v ++ ['\''])) = .ok [v] := words_quoted hv
  rw [withQuoted, words_plain hw, hquoted]
  rfl

/-- Where neither text holds a single quote, the two texts can be told from the line. -/
theorem withQuoted_inj {w v w' v' : List Char} (hw : '\'' ∉ w') (hv : '\'' ∉ v')
    (h : withQuoted w v = withQuoted w' v') : w = w' ∧ v = v' := by
  -- The line has the two quotes that are put there and no other, so it is cut at the first one.
  have hcount : (withQuoted w v).count '\'' = 2 := by
    rw [h]
    simp [withQuoted, List.count_eq_zero_of_not_mem hw, List.count_eq_zero_of_not_mem hv]
  simp only [withQuoted, List.count_append, List.count_cons, beq_self_eq_true] at hcount
  have hwv : '\'' ∉ w ∧ '\'' ∉ v :=
    ⟨List.count_eq_zero.1 (by simp at hcount; omega),
      List.count_eq_zero.1 (by simp at hcount; omega)⟩
  have hcut : ∀ {a b : List Char}, '\'' ∉ a →
      cut '\'' (withQuoted a b) = (a ++ [' '], some (b ++ ['\''])) := by
    intro a b ha
    exact cut_eq_some_iff.2 ⟨by simpa using ha, by simp [withQuoted]⟩
  have heq := (hcut hwv.1 (b := v)).symm.trans ((congrArg (cut '\'') h).trans (hcut hw))
  simpa using heq

/-! ## Reading drops characters only -/

/-- What one character does to a line that has a reading. -/
theorem wordsFrom_cons_cases {mode : Mode} {c : Char} {rest : List Char} {ws : List (List Char)}
    (h : wordsFrom mode (c :: rest) = .ok ws) :
    (mode.move c = .finish ∧ ws = []) ∨
    (∃ next, mode.move c = .skip next ∧ wordsFrom next rest = .ok ws) ∨
    (∃ next more, mode.move c = .take next ∧ wordsFrom next rest = .ok more ∧
      ws = extendFirst c more) ∨
    (∃ more, mode.move c = .close ∧ wordsFrom .between rest = .ok more ∧ ws = [] :: more) := by
  rw [wordsFrom] at h
  cases hmove : mode.move c with
  | finish => exact .inl ⟨rfl, by simpa [hmove] using h.symm⟩
  | skip next => exact .inr (.inl ⟨next, rfl, by simpa [hmove] using h⟩)
  | take next =>
    obtain ⟨more, hmore, hws⟩ := map_eq_ok_iff.1 (by simpa [hmove] using h)
    exact .inr (.inr (.inl ⟨next, more, rfl, hmore, hws.symm⟩))
  | close =>
    obtain ⟨more, hmore, hws⟩ := map_eq_ok_iff.1 (by simpa [hmove] using h)
    exact .inr (.inr (.inr ⟨more, rfl, hmore, hws.symm⟩))

@[simp] theorem flatten_extendFirst (c : Char) (ws : List (List Char)) :
    (extendFirst c ws).flatten = c :: ws.flatten := by
  cases ws <;> rfl

/-- The words of a line are made of characters of the line, in their order. -/
theorem flatten_sublist_of_wordsFrom {mode : Mode} {s : List Char} {ws : List (List Char)}
    (h : wordsFrom mode s = .ok ws) : ws.flatten.Sublist s := by
  induction s generalizing mode ws with
  | nil =>
    cases mode <;> simp [wordsFrom, Mode.atEnd] at h <;> subst h <;> simp
  | cons c rest ih =>
    rcases wordsFrom_cons_cases h with ⟨-, rfl⟩ | ⟨next, -, hrest⟩ | ⟨next, more, -, hrest, rfl⟩ |
      ⟨more, -, hrest, rfl⟩
    · simp
    · exact (ih hrest).cons c
    · simpa using (ih hrest).cons_cons c
    · simpa using (ih hrest).cons c

/-- A reading is of no more characters than there are. -/
theorem flatten_ne_cons_of_wordsFrom {mode : Mode} {s : List Char} {ws : List (List Char)}
    (h : wordsFrom mode s = .ok ws) (c : Char) : ws.flatten ≠ c :: s := by
  intro hall
  have hlength := (flatten_sublist_of_wordsFrom h).length_le
  rw [hall, List.length_cons] at hlength
  omega

theorem mem_of_mem_words {s w : List Char} {ws : List (List Char)} {c : Char}
    (h : words s = .ok ws) (hw : w ∈ ws) (hc : c ∈ w) : c ∈ s :=
  (flatten_sublist_of_wordsFrom h).subset (List.mem_flatten.2 ⟨w, hw, hc⟩)

/-! ## What is dropped

A line that keeps every `x` has no `x` that only serves its reading, as a quote or a backslash
does. -/

/-- Whether every `x` of a text is in the words that it is read as. -/
def KeepsAll (x : Char) (s : List Char) (ws : List (List Char)) : Prop :=
  s.count x ≤ ws.flatten.count x

theorem KeepsAll.of_dropped {x c : Char} {mode : Mode} {rest : List Char} {ws : List (List Char)}
    (h : KeepsAll x (c :: rest) ws) (hrest : wordsFrom mode rest = .ok ws) :
    c ≠ x ∧ KeepsAll x rest ws := by
  -- What is dropped is not among what is read of the rest.
  have hcount : ws.flatten.count x ≤ rest.count x :=
    (flatten_sublist_of_wordsFrom hrest).count_le x
  unfold KeepsAll at h ⊢
  rw [List.count_cons] at h
  by_cases hc : c = x
  · simp [hc] at h
    omega
  · exact ⟨hc, by simpa [hc] using h⟩

theorem KeepsAll.of_taken {x c : Char} {rest : List Char} {ws : List (List Char)}
    (h : KeepsAll x (c :: rest) (extendFirst c ws)) : KeepsAll x rest ws := by
  unfold KeepsAll at h ⊢
  rw [flatten_extendFirst, List.count_cons, List.count_cons] at h
  omega

theorem KeepsAll.of_closed {x c : Char} {rest : List Char} {ws : List (List Char)}
    (h : KeepsAll x (c :: rest) ([] :: ws)) : KeepsAll x (c :: rest) ws := by
  simpa [KeepsAll] using h

/-- The modes without a double quote or a backslash to remember. -/
def Mode.isSimple : Mode → Bool
  | .between | .bare | .quoted .single => true
  | .escaped | .quoted .double | .quotedEscape => false

theorem Mode.isSimple_of_skip {mode next : Mode} {c : Char} (hmode : mode.isSimple)
    (hmove : mode.move c = .skip next) (hdouble : c ≠ '"') (hescape : c ≠ '\\') :
    next.isSimple := by
  -- Only a double quote or a backslash leads out of these modes.
  rcases mode with _ | _ | _ | (_ | _) | _ <;>
    simp [Mode.isSimple, Mode.move, fragment, hdouble, hescape] at hmode hmove <;>
    grind [Mode.isSimple]

theorem Mode.isSimple_of_take {mode next : Mode} {c : Char} (hmode : mode.isSimple)
    (hmove : mode.move c = .take next) : next.isSimple ∧ c ≠ '\'' := by
  rcases mode with _ | _ | _ | (_ | _) | _ <;>
    simp [Mode.isSimple, Mode.move, fragment] at hmode hmove <;>
    grind [Mode.isSimple]

/-- If a line keeps its double quotes and its backslashes, these are all in single quotes, and so
every single quote is dropped. -/
theorem singleQuote_notMem_words {mode : Mode} {s : List Char} {ws : List (List Char)}
    (h : wordsFrom mode s = .ok ws) (hmode : mode.isSimple) (hdouble : KeepsAll '"' s ws)
    (hescape : KeepsAll '\\' s ws) : '\'' ∉ ws.flatten := by
  induction s generalizing mode ws with
  -- The induction is on the line, as the mode changes along it.
  | nil => exact fun hmem => by simpa using (flatten_sublist_of_wordsFrom h).subset hmem
  | cons c rest ih =>
    rcases wordsFrom_cons_cases h with ⟨-, rfl⟩ | ⟨next, hmove, hrest⟩ |
      ⟨next, more, hmove, hrest, rfl⟩ | ⟨more, -, hrest, rfl⟩
    · simp
    · have hd := hdouble.of_dropped hrest
      have he := hescape.of_dropped hrest
      exact ih hrest (Mode.isSimple_of_skip hmode hmove hd.1 he.1) hd.2 he.2
    · have htake := Mode.isSimple_of_take hmode hmove
      have hmore := ih hrest htake.1 hdouble.of_taken hescape.of_taken
      rw [flatten_extendFirst, List.mem_cons]
      rintro (hc | hmem)
      · exact htake.2 hc.symm
      · exact hmore hmem
    · have hd := hdouble.of_closed.of_dropped hrest
      have he := hescape.of_closed.of_dropped hrest
      simpa using ih hrest rfl hd.2 he.2

/-- A blank that comes after a text without single quotes is dropped, unless a double quote or a
backslash is dropped before it. -/
theorem not_keepsAll_space {mode : Mode} {a b : List Char} {ws : List (List Char)}
    (h : wordsFrom mode (a ++ ' ' :: b) = .ok ws) (hmode : mode = .between ∨ mode = .bare)
    (ha : '\'' ∉ a) (hdouble : KeepsAll '"' (a ++ ' ' :: b) ws)
    (hescape : KeepsAll '\\' (a ++ ' ' :: b) ws) : ¬ KeepsAll ' ' (a ++ ' ' :: b) ws := by
  intro hspace
  induction a generalizing mode ws with
  | nil =>
    -- Outside of quotes a blank is never taken.
    have hmove : mode.move ' ' = .skip .between ∨ mode.move ' ' = .close := by
      rcases hmode with rfl | rfl <;> decide
    rcases wordsFrom_cons_cases h with ⟨hf, -⟩ | ⟨next, -, hrest⟩ | ⟨next, more, ht, -, -⟩ |
      ⟨more, -, hrest, rfl⟩
    · simp [hf] at hmove
    · exact (hspace.of_dropped hrest).1 rfl
    · simp [ht] at hmove
    · exact (hspace.of_closed.of_dropped hrest).1 rfl
  | cons c a ih =>
    have hc : c ≠ '\'' := fun hc => ha (by simp [hc])
    have ha : '\'' ∉ a := fun hmem => ha (by simp [hmem])
    rcases wordsFrom_cons_cases h with ⟨-, rfl⟩ | ⟨next, hmove, hrest⟩ |
      ⟨next, more, hmove, hrest, rfl⟩ | ⟨more, -, hrest, rfl⟩
    · -- A comment would drop the blank as well.
      simp [KeepsAll, List.count_eq_zero] at hspace
    · have hd := hdouble.of_dropped hrest
      have he := hescape.of_dropped hrest
      have hnext : next = .between := by
        rcases hmode with rfl | rfl <;>
          simp [Mode.move, fragment, hc, hd.1, he.1] at hmove <;> grind
      exact ih hrest (.inl hnext) ha hd.2 he.2 (hspace.of_dropped hrest).2
    · have hnext : next = .bare := by
        rcases hmode with rfl | rfl <;> simp [Mode.move, fragment] at hmove <;> grind
      exact ih hrest (.inr hnext) ha hdouble.of_taken hescape.of_taken hspace.of_taken
    · have hd := hdouble.of_closed.of_dropped hrest
      have he := hescape.of_closed.of_dropped hrest
      exact ih hrest (.inl rfl) ha hd.2 he.2 (hspace.of_closed.of_dropped hrest).2

/-! ## Reading back -/

theorem extendFirst_eq_cons {c : Char} {w : List Char} {ws more : List (List Char)} (hws : ws ≠ [])
    (h : extendFirst c more = (c :: w) :: ws) : more = w :: ws := by
  cases more with
  | nil => simp [extendFirst, Ne.symm hws] at h
  | cons m more => simpa [extendFirst] using h

theorem isBare_of_take {mode next : Mode} {c : Char} (hmode : mode = .between ∨ mode = .bare)
    (hmove : mode.move c = .take next) :
    isBare c ∧ next = .bare ∧ (mode = .between → c ≠ '#') := by
  rcases hmode with rfl | rfl <;> simp [Mode.move, fragment, isBare] at hmove ⊢ <;> grind

/-- What is read outside of quotes as the rest of a word is bare, if nothing but single quotes and
blanks is dropped and there is no single quote in it. -/
theorem isBare_of_wordsFrom_bare {w t : List Char} {ws : List (List Char)} (hws : ws ≠ [])
    (h : wordsFrom .bare (w ++ t) = .ok (w :: ws)) (hquote : '\'' ∉ w)
    (hdouble : KeepsAll '"' (w ++ t) (w :: ws)) (hescape : KeepsAll '\\' (w ++ t) (w :: ws)) :
    ∀ c ∈ w, isBare c := by
  induction w with
  | nil => simp
  | cons c w ih =>
    have hc : c ≠ '\'' := fun hc => hquote (by simp [hc])
    rcases wordsFrom_cons_cases h with ⟨-, hnil⟩ | ⟨next, hmove, hrest⟩ |
      ⟨next, more, hmove, hrest, hmore⟩ | ⟨more, -, -, hmore⟩
    · simp at hnil
    · -- Only a quote or a backslash is dropped inside a word.
      have hd := (hdouble.of_dropped hrest).1
      have he := (hescape.of_dropped hrest).1
      simp [Mode.move, fragment, hc, hd, he] at hmove
      grind
    · -- A character that is taken here is bare, and what follows is read the same way.
      have htake := isBare_of_take (.inr rfl) hmove
      have hmore' := extendFirst_eq_cons hws hmore.symm
      rw [hmore] at hdouble hescape
      rw [htake.2.1, hmore'] at hrest
      rw [hmore'] at hdouble hescape
      have ih := ih hrest (fun hmem => hquote (by simp [hmem])) hdouble.of_taken hescape.of_taken
      simpa [htake.1] using ih
    · simp at hmore

/-- A text before a blank and a text in single quotes are read back only if the first is plain and
no single quote is in the second. -/
theorem isPlain_of_words_withQuoted {w v : List Char} (hne : w ≠ [])
    (h : words (withQuoted w v) = .ok [w, v]) : IsPlain w ∧ '\'' ∉ v := by
  unfold withQuoted at h
  -- Nothing is dropped but one blank and two single quotes.
  have hkeeps : ∀ x, x ≠ ' ' → x ≠ '\'' →
      KeepsAll x (w ++ ' ' :: '\'' :: (v ++ ['\''])) [w, v] := by
    intro x hspace hquote
    simp [KeepsAll, hspace.symm, hquote.symm]
  have hdouble := hkeeps '"' (by decide) (by decide)
  have hescape := hkeeps '\\' (by decide) (by decide)
  have hquote := singleQuote_notMem_words h rfl hdouble hescape
  have hw : '\'' ∉ w := fun hmem => hquote (by simp [hmem])
  have hv : '\'' ∉ v := fun hmem => hquote (by simp [hmem])
  refine ⟨?_, hv⟩
  cases w with
  | nil => exact absurd rfl hne
  | cons c w =>
    rw [List.cons_append] at h hdouble hescape hkeeps
    rcases wordsFrom_cons_cases h with ⟨-, hnil⟩ | ⟨next, hmove, hrest⟩ |
      ⟨next, more, hmove, hrest, hmore⟩ | ⟨more, -, -, hmore⟩
    · simp at hnil
    · -- The first character is dropped. It can only be a blank, and then one more blank is.
      have hc : c ≠ '\'' := fun hc => hw (by simp [hc])
      have hd := hdouble.of_dropped hrest
      have he := hescape.of_dropped hrest
      have hspace : c = ' ' := Classical.byContradiction fun hspace =>
        ((hkeeps c hspace hc).of_dropped hrest).1 rfl
      have hnext : next = .between := by
        simpa [hspace, Mode.move, isBlank_space] using hmove.symm
      refine absurd ?_ (not_keepsAll_space hrest (.inl hnext) (fun hmem => hw (by simp [hmem]))
        hd.2 he.2)
      simp [KeepsAll, hspace]
      omega
    · -- The first character is taken, so the word goes on outside of quotes.
      have htake := isBare_of_take (.inl rfl) hmove
      have hmore' := extendFirst_eq_cons (by simp) hmore.symm
      rw [hmore, hmore'] at hdouble hescape
      rw [htake.2.1, hmore'] at hrest
      have hbare := isBare_of_wordsFrom_bare (by simp) hrest (fun hmem => hw (by simp [hmem]))
        hdouble.of_taken hescape.of_taken
      exact ⟨hne, by simpa [htake.1] using hbare, by simpa using htake.2.2 rfl⟩
    · simp at hmore

theorem wordsFrom_bare_lossless {s : List Char} {ws : List (List Char)}
    (h : wordsFrom .bare s = .ok ws) (hall : ws.flatten = s) : (∀ c ∈ s, isBare c) ∧ ws = [s] := by
  induction s generalizing ws with
  | nil =>
    have hws : ws = [[]] := by simpa [wordsFrom, Mode.atEnd] using h.symm
    simp [hws]
  | cons c s ih =>
    rcases wordsFrom_cons_cases h with ⟨-, rfl⟩ | ⟨next, -, hrest⟩ |
      ⟨next, more, hmove, hrest, rfl⟩ | ⟨more, -, hrest, rfl⟩
    · simp at hall
    · exact absurd hall (flatten_ne_cons_of_wordsFrom hrest c)
    · have htake := isBare_of_take (.inr rfl) hmove
      rw [htake.2.1] at hrest
      have ih := ih hrest (by simpa using hall)
      exact ⟨by simpa [htake.1] using ih.1, by rw [ih.2]; rfl⟩
    · -- A blank between two words is dropped.
      exact absurd (by simpa using hall) (flatten_ne_cons_of_wordsFrom hrest c)

/-- If a reading drops nothing, the line is one plain word. -/
theorem isPlain_of_flatten_eq {s : List Char} {ws : List (List Char)} (hne : s ≠ [])
    (h : words s = .ok ws) (hall : ws.flatten = s) : IsPlain s ∧ ws = [s] := by
  cases s with
  | nil => exact absurd rfl hne
  | cons c s =>
    rcases wordsFrom_cons_cases h with ⟨-, rfl⟩ | ⟨next, -, hrest⟩ |
      ⟨next, more, hmove, hrest, rfl⟩ | ⟨more, -, hrest, rfl⟩
    · simp at hall
    · exact absurd hall (flatten_ne_cons_of_wordsFrom hrest c)
    · have htake := isBare_of_take (.inl rfl) hmove
      rw [htake.2.1] at hrest
      have hbare := wordsFrom_bare_lossless hrest (by simpa using hall)
      refine ⟨⟨hne, by simpa [htake.1] using hbare.1, by simpa using htake.2.2 rfl⟩, ?_⟩
      rw [hbare.2]
      rfl
    · exact absurd (by simpa using hall) (flatten_ne_cons_of_wordsFrom hrest c)

end Text

end UnifiedConfig
