import UnifiedConfig.Proofs.Words

/-!
# The grammar of a line

A line is words with blanks between them, and it may end in a comment. A word is a sequence of
fragments: a bare character, a backslash with the character after it, a text in single quotes, or a
text in double quotes. A fragment denotes a text, and a word denotes the texts of its fragments one
after the other. A line without such a reading breaks off in a fragment that is not finished.

The grammar says nothing of how a line is read.

* `wordsFrom_fragments`: what reading makes of fragments, whatever comes after them.
* `isReading_or_isBroken`: each line has a reading or breaks off.
* `words_iff_isReading`: reading finds the one reading that there is, or the place where the line
  breaks off.
-/

namespace UnifiedConfig.Text

/-! ## The grammar -/

/-- A text between double quotes, and the text that it denotes: a backslash gives the character
after it. -/
inductive DoubleQuoted : List Char → List Char → Prop where
  | nil : DoubleQuoted [] []
  | plain {c : Char} {s v : List Char} (hquote : c ≠ '"') (hescape : c ≠ '\\')
      (h : DoubleQuoted s v) : DoubleQuoted (c :: s) (c :: v)
  | pair (c : Char) {s v : List Char} (h : DoubleQuoted s v) :
      DoubleQuoted ('\\' :: c :: s) (c :: v)

/-- A fragment of a word, and the text that it denotes. -/
inductive Fragment : List Char → List Char → Prop where
  | bare {c : Char} (h : isBare c) : Fragment [c] [c]
  | escaped (c : Char) : Fragment ['\\', c] [c]
  | single {v : List Char} (h : '\'' ∉ v) : Fragment ('\'' :: (v ++ ['\''])) v
  | double {s v : List Char} (h : DoubleQuoted s v) : Fragment ('"' :: (s ++ ['"'])) v

/-- A sequence of fragments, and the text that they denote together. -/
inductive Fragments : List Char → List Char → Prop where
  | nil : Fragments [] []
  | cons {s v t w : List Char} (head : Fragment s v) (tail : Fragments t w) :
      Fragments (s ++ t) (v ++ w)

/-- A fragment that the line ends in, and what is wrong with it. -/
inductive Unfinished : List Char → WordError → Prop where
  | escaped : Unfinished ['\\'] .danglingEscape
  | single {v : List Char} (h : '\'' ∉ v) : Unfinished ('\'' :: v) (.openQuote .single)
  | double {s v : List Char} (h : DoubleQuoted s v) : Unfinished ('"' :: s) (.openQuote .double)
  | doubleEscaped {s v : List Char} (h : DoubleQuoted s v) :
      Unfinished ('"' :: (s ++ ['\\'])) .danglingEscape

/-- Whether a text is nothing but blanks. -/
def IsBlanks (s : List Char) : Prop :=
  ∀ c ∈ s, isBlank c = true

/-- Whether a word can end before a text: there is no more of the line, or a blank comes first. -/
def EndsWord (rest : List Char) : Prop :=
  ∀ c, rest.head? = some c → isBlank c = true

/-- A word, and the text that it denotes. -/
structure IsWord (s w : List Char) : Prop where
  fragments : Fragments s w
  ne_nil : s ≠ []
  hash : s.head? ≠ some '#'

/-- A line, and the texts that its words denote. -/
inductive IsReading : List Char → List (List Char) → Prop where
  | blank {blanks : List Char} (hblanks : IsBlanks blanks) : IsReading blanks []
  | comment {blanks : List Char} (hblanks : IsBlanks blanks) (rest : List Char) :
      IsReading (blanks ++ '#' :: rest) []
  | word {blanks s w rest : List Char} {ws : List (List Char)} (hblanks : IsBlanks blanks)
      (hword : IsWord s w) (hend : EndsWord rest) (h : IsReading rest ws) :
      IsReading (blanks ++ s ++ rest) (w :: ws)

/-- A line that breaks off in an unfinished fragment of a word, and what is wrong with that. -/
inductive IsBroken : List Char → WordError → Prop where
  | here {blanks s v t : List Char} {fault : WordError} (hblanks : IsBlanks blanks)
      (hstart : Fragments s v) (hash : s.head? ≠ some '#') (h : Unfinished t fault) :
      IsBroken (blanks ++ s ++ t) fault
  | later {blanks s w rest : List Char} {fault : WordError} (hblanks : IsBlanks blanks)
      (hword : IsWord s w) (hend : EndsWord rest) (h : IsBroken rest fault) :
      IsBroken (blanks ++ s ++ rest) fault

/-! ## What reading makes of a text -/

/-- Puts a text in front of the first part. -/
def prepend (v : List Char) (ws : List (List Char)) : List (List Char) :=
  v.foldr extendFirst ws

@[simp] theorem prepend_nil (ws : List (List Char)) : prepend [] ws = ws := rfl

@[simp] theorem prepend_cons (v w : List Char) (ws : List (List Char)) :
    prepend v (w :: ws) = (v ++ w) :: ws := by
  induction v with
  | nil => rfl
  | cons c v ih => rw [prepend, List.foldr_cons, ← prepend, ih]; rfl

/-- A character that is taken in front of what is read. -/
theorem wordsFrom_take_map {mode next : Mode} {c : Char} (h : mode.move c = .take next)
    {s rest v : List Char} {r : Except WordError (List (List Char))}
    (hs : wordsFrom next (s ++ rest) = r.map (prepend v)) :
    wordsFrom mode (c :: (s ++ rest)) = r.map (prepend (c :: v)) := by
  rw [wordsFrom_take h, hs]
  cases r <;> rfl

theorem wordsFrom_single {v : List Char} (h : '\'' ∉ v) (rest : List Char) :
    wordsFrom (.quoted .single) (v ++ rest) =
      (wordsFrom (.quoted .single) rest).map (prepend v) := by
  induction v with
  | nil => cases hrest : wordsFrom (.quoted .single) rest <;> simp [hrest, Except.map]
  | cons c v ih =>
    have hc : c ≠ '\'' := fun hc => h (by simp [hc])
    have hmove : Mode.move (.quoted .single) c = .take (.quoted .single) := by
      simp [Mode.move, hc]
    exact wordsFrom_take_map hmove (ih fun hmem => h (by simp [hmem]))

theorem wordsFrom_doubleQuoted {s v : List Char} (h : DoubleQuoted s v) (rest : List Char) :
    wordsFrom (.quoted .double) (s ++ rest) =
      (wordsFrom (.quoted .double) rest).map (prepend v) := by
  induction h with
  | nil => cases hrest : wordsFrom (.quoted .double) rest <;> simp [hrest, Except.map]
  | @plain c s v hquote hescape h ih =>
    have hmove : Mode.move (.quoted .double) c = .take (.quoted .double) := by
      simp [Mode.move, hquote, hescape]
    exact wordsFrom_take_map hmove ih
  | @pair c s v h ih =>
    have hskip : Mode.move (.quoted .double) '\\' = .skip .quotedEscape := by decide
    have htake : Mode.move .quotedEscape c = .take (.quoted .double) := rfl
    rw [List.cons_append, wordsFrom_skip hskip]
    exact wordsFrom_take_map htake ih

/-- A fragment adds the text that it denotes to the word that it is in. -/
theorem wordsFrom_fragment {s v : List Char} (h : Fragment s v) (rest : List Char) :
    wordsFrom .bare (s ++ rest) = (wordsFrom .bare rest).map (prepend v) := by
  have hself : wordsFrom .bare ([] ++ rest) = (wordsFrom .bare rest).map (prepend []) := by
    cases hrest : wordsFrom .bare rest <;> simp [hrest, Except.map]
  cases h with
  | bare hc => exact wordsFrom_take_map (move_bare hc) hself
  | escaped c =>
    have hskip : Mode.move .bare '\\' = .skip .escaped := by decide
    have htake : Mode.move .escaped c = .take .bare := rfl
    rw [List.cons_append, wordsFrom_skip hskip]
    exact wordsFrom_take_map htake hself
  | single hv =>
    have hopen : Mode.move .bare '\'' = .skip (.quoted .single) := by decide
    have hclose : Mode.move (.quoted .single) '\'' = .skip .bare := by decide
    rw [List.cons_append, wordsFrom_skip hopen, List.append_assoc, wordsFrom_single hv,
      List.singleton_append, wordsFrom_skip hclose]
  | double hs =>
    have hopen : Mode.move .bare '"' = .skip (.quoted .double) := by decide
    have hclose : Mode.move (.quoted .double) '"' = .skip .bare := by decide
    rw [List.cons_append, wordsFrom_skip hopen, List.append_assoc, wordsFrom_doubleQuoted hs,
      List.singleton_append, wordsFrom_skip hclose]

theorem wordsFrom_fragments {s v : List Char} (h : Fragments s v) (rest : List Char) :
    wordsFrom .bare (s ++ rest) = (wordsFrom .bare rest).map (prepend v) := by
  induction h with
  | nil => cases hrest : wordsFrom .bare rest <;> simp [hrest, Except.map]
  | @cons s v t w head tail ih =>
    rw [List.append_assoc, wordsFrom_fragment head, ih]
    cases wordsFrom .bare rest with
    | error fault => rfl
    | ok ws => simp [Except.map, prepend]

/-- In an unfinished fragment the line is at fault. -/
theorem wordsFrom_unfinished {t : List Char} {fault : WordError} (h : Unfinished t fault) :
    wordsFrom .bare t = .error fault := by
  cases h with
  | escaped => rfl
  | single hv =>
    have hopen : Mode.move .bare '\'' = .skip (.quoted .single) := by decide
    have hread := wordsFrom_single hv []
    rw [List.append_nil] at hread
    rw [wordsFrom_skip hopen, hread]
    rfl
  | double hs =>
    have hopen : Mode.move .bare '"' = .skip (.quoted .double) := by decide
    have hread := wordsFrom_doubleQuoted hs []
    rw [List.append_nil] at hread
    rw [wordsFrom_skip hopen, hread]
    rfl
  | doubleEscaped hs =>
    have hopen : Mode.move .bare '"' = .skip (.quoted .double) := by decide
    rw [wordsFrom_skip hopen, wordsFrom_doubleQuoted hs]
    rfl

/-- Where a word ends, the words of the rest follow. -/
theorem wordsFrom_endsWord {rest : List Char} (h : EndsWord rest) :
    wordsFrom .bare rest = (words rest).map ([] :: ·) := by
  cases rest with
  | nil => rfl
  | cons c rest =>
    have hblank : isBlank c = true := h c rfl
    have hclose : Mode.move .bare c = .close := by simp [Mode.move, hblank]
    have hskip : Mode.move .between c = .skip .between := by simp [Mode.move, hblank]
    rw [words, wordsFrom_skip hskip, wordsFrom, hclose]

theorem words_blanks {blanks : List Char} (h : IsBlanks blanks) (rest : List Char) :
    words (blanks ++ rest) = words rest := by
  induction blanks with
  | nil => rfl
  | cons c blanks ih =>
    have hblank : isBlank c = true := h c (by simp)
    have hskip : Mode.move .between c = .skip .between := by simp [Mode.move, hblank]
    rw [List.cons_append, words, wordsFrom_skip hskip]
    exact ih fun d hd => h d (by simp [hd])

/-- A character that begins a word is read as one inside of a word. -/
theorem words_eq_wordsFrom_bare {c : Char} (hblank : isBlank c = false) (hhash : c ≠ '#')
    (rest : List Char) : words (c :: rest) = wordsFrom .bare (c :: rest) := by
  have hmove : Mode.move .between c = Mode.move .bare c := by simp [Mode.move, hblank, hhash]
  rw [words, wordsFrom, wordsFrom, hmove]

theorem Unfinished.exists_cons {t : List Char} {fault : WordError} (h : Unfinished t fault) :
    ∃ c rest, t = c :: rest ∧ isBlank c = false ∧ c ≠ '#' := by
  cases h with
  | escaped => exact ⟨'\\', [], rfl, by decide, by decide⟩
  | single => exact ⟨'\'', _, rfl, by decide, by decide⟩
  | double => exact ⟨'"', _, rfl, by decide, by decide⟩
  | doubleEscaped => exact ⟨'"', _, rfl, by decide, by decide⟩

theorem Fragment.exists_cons {s v : List Char} (h : Fragment s v) :
    ∃ c rest, s = c :: rest ∧ isBlank c = false := by
  cases h with
  | bare hc => exact ⟨_, [], rfl, (isBare_iff.1 hc).1⟩
  | escaped c => exact ⟨'\\', [c], rfl, by decide⟩
  | single => exact ⟨'\'', _, rfl, by decide⟩
  | double => exact ⟨'"', _, rfl, by decide⟩

/-- Fragments begin with no blank. -/
theorem Fragments.isBlank_head {c : Char} {s v : List Char} (h : Fragments (c :: s) v) :
    isBlank c = false := by
  generalize ht : c :: s = t at h
  cases h with
  | nil => cases ht
  | cons head tail =>
    rcases head.exists_cons with ⟨d, rest, rfl, hd⟩
    rw [List.cons_append] at ht
    exact (List.cons.inj ht).1 ▸ hd

/-- A word is the first one that is read, and after it come the words of the rest. -/
theorem words_word {s w : List Char} (h : IsWord s w) {rest : List Char} (hend : EndsWord rest) :
    words (s ++ rest) = (words rest).map (w :: ·) := by
  rcases h with ⟨hfragments, hne, hhash⟩
  cases s with
  | nil => exact absurd rfl hne
  | cons c s =>
    have hbare := words_eq_wordsFrom_bare hfragments.isBlank_head (by simpa using hhash) (s ++ rest)
    rw [List.cons_append, hbare, ← List.cons_append, wordsFrom_fragments hfragments,
      wordsFrom_endsWord hend]
    cases words rest with
    | error fault => rfl
    | ok ws => simp [Except.map]

theorem words_of_isReading {line : List Char} {ws : List (List Char)} (h : IsReading line ws) :
    words line = .ok ws := by
  induction h with
  | @blank blanks hblanks =>
    have hread := words_blanks hblanks []
    rw [List.append_nil] at hread
    exact hread
  | comment hblanks rest =>
    rw [words_blanks hblanks]
    rfl
  | word hblanks hword hend h ih =>
    rw [List.append_assoc, words_blanks hblanks, words_word hword hend, ih]
    rfl

theorem words_of_isBroken {line : List Char} {fault : WordError} (h : IsBroken line fault) :
    words line = .error fault := by
  induction h with
  | @here blanks s v t fault hblanks hstart hash h =>
    have hbare : words (s ++ t) = wordsFrom .bare (s ++ t) := by
      cases s with
      | nil =>
        rcases h.exists_cons with ⟨c, rest, rfl, hblank, hhash⟩
        exact words_eq_wordsFrom_bare hblank hhash rest
      | cons c s => exact words_eq_wordsFrom_bare hstart.isBlank_head (by simpa using hash) (s ++ t)
    rw [List.append_assoc, words_blanks hblanks, hbare, wordsFrom_fragments hstart,
      wordsFrom_unfinished h]
    rfl
  | later hblanks hword hend h ih =>
    rw [List.append_assoc, words_blanks hblanks, words_word hword hend, ih]
    rfl

/-! ## Each line has a reading or breaks off -/

/-- After a double quote there is another one, or the line ends before it. -/
theorem doubleQuoted_cases (s : List Char) :
    (∃ t v rest, s = t ++ '"' :: rest ∧ DoubleQuoted t v) ∨ (∃ v, DoubleQuoted s v) ∨
      ∃ t v, s = t ++ ['\\'] ∧ DoubleQuoted t v := by
  induction hn : s.length using Nat.strongRecOn generalizing s with
  | _ n ih =>
    cases s with
    | nil => exact .inr (.inl ⟨[], .nil⟩)
    | cons c s =>
      by_cases hquote : c = '"'
      · exact .inl ⟨[], [], s, by simp [hquote], .nil⟩
      · by_cases hescape : c = '\\'
        · subst hescape
          cases s with
          | nil => exact .inr (.inr ⟨[], [], rfl, .nil⟩)
          | cons d s =>
            rcases ih s.length (by simp at hn; omega) s rfl with
              ⟨t, v, rest, rfl, h⟩ | ⟨v, h⟩ | ⟨t, v, rfl, h⟩
            · exact .inl ⟨'\\' :: d :: t, d :: v, rest, rfl, .pair d h⟩
            · exact .inr (.inl ⟨d :: v, .pair d h⟩)
            · exact .inr (.inr ⟨'\\' :: d :: t, d :: v, rfl, .pair d h⟩)
        · rcases ih s.length (by simp at hn; omega) s rfl with
            ⟨t, v, rest, rfl, h⟩ | ⟨v, h⟩ | ⟨t, v, rfl, h⟩
          · exact .inl ⟨c :: t, c :: v, rest, rfl, .plain hquote hescape h⟩
          · exact .inr (.inl ⟨c :: v, .plain hquote hescape h⟩)
          · exact .inr (.inr ⟨c :: t, c :: v, rfl, .plain hquote hescape h⟩)

/-- What begins with no blank begins with a fragment, finished or not. -/
theorem fragment_cases {c : Char} (hblank : isBlank c = false) (s : List Char) :
    (∃ t v rest, c :: s = t ++ rest ∧ Fragment t v) ∨ ∃ fault, Unfinished (c :: s) fault := by
  by_cases hsingle : c = '\''
  · subst hsingle
    by_cases hmem : '\'' ∈ s
    · rcases List.eq_append_cons_of_mem hmem with ⟨v, rest, rfl, hv⟩
      exact .inl ⟨'\'' :: (v ++ ['\'']), v, rest, by simp, .single hv⟩
    · exact .inr ⟨_, .single hmem⟩
  · by_cases hdouble : c = '"'
    · subst hdouble
      rcases doubleQuoted_cases s with ⟨t, v, rest, rfl, h⟩ | ⟨v, h⟩ | ⟨t, v, rfl, h⟩
      · exact .inl ⟨'"' :: (t ++ ['"']), v, rest, by simp, .double h⟩
      · exact .inr ⟨_, .double h⟩
      · exact .inr ⟨_, .doubleEscaped h⟩
    · by_cases hescape : c = '\\'
      · subst hescape
        cases s with
        | nil => exact .inr ⟨_, .escaped⟩
        | cons d s => exact .inl ⟨['\\', d], [d], s, rfl, .escaped d⟩
      · exact .inl ⟨[c], [c], s, rfl, .bare (isBare_iff.2 ⟨hblank, hsingle, hdouble, hescape⟩)⟩

/-- Fragments go on to the end of a word, or to one that is not finished. -/
theorem fragments_cases (s : List Char) :
    ∃ t v rest, s = t ++ rest ∧ Fragments t v ∧
      (EndsWord rest ∨ ∃ fault, Unfinished rest fault) := by
  induction hn : s.length using Nat.strongRecOn generalizing s with
  | _ n ih =>
    by_cases hend : EndsWord s
    · exact ⟨[], [], s, rfl, .nil, .inl hend⟩
    · cases s with
      | nil => exact absurd (fun c hc => nomatch hc) hend
      | cons c s =>
        have hblank : isBlank c = false := by
          apply Classical.byContradiction
          intro hnot
          apply hend
          intro d hd
          cases hd
          simpa using hnot
        rcases fragment_cases hblank s with ⟨t, v, rest, heq, h⟩ | ⟨fault, h⟩
        · have hlength : rest.length < n := by
            rcases h.exists_cons with ⟨d, more, rfl, -⟩
            have hcons := congrArg List.length heq
            simp at hcons hn
            omega
          rcases ih rest.length hlength rest rfl with ⟨u, w, rest', rfl, hu, hrest⟩
          exact ⟨t ++ u, v ++ w, rest', by rw [heq, List.append_assoc], .cons h hu, hrest⟩
        · exact ⟨[], [], c :: s, rfl, .nil, .inr ⟨fault, h⟩⟩

/-- A line begins with blanks, and goes on with a character that is none. -/
theorem blanks_cases (line : List Char) :
    ∃ blanks rest, line = blanks ++ rest ∧ IsBlanks blanks ∧
      ∀ c, rest.head? = some c → isBlank c = false := by
  refine ⟨line.takeWhile isBlank, line.dropWhile isBlank,
    List.takeWhile_append_dropWhile.symm, List.all_eq_true.1 List.all_takeWhile, ?_⟩
  intro c hc
  have hhead := List.head?_dropWhile_not isBlank line
  rw [hc] at hhead
  simpa using hhead

theorem isReading_or_isBroken (line : List Char) :
    (∃ ws, IsReading line ws) ∨ ∃ fault, IsBroken line fault := by
  induction hn : line.length using Nat.strongRecOn generalizing line with
  | _ n ih =>
    rcases blanks_cases line with ⟨blanks, start, rfl, hblanks, hstart⟩
    rcases fragments_cases start with ⟨t, v, rest, rfl, ht, hrest⟩
    by_cases hhash : t.head? = some '#'
    · -- What begins with a hash is no word, although a hash is a bare character.
      rcases List.head?_eq_some_iff.1 hhash with ⟨comment, rfl⟩
      exact .inl ⟨[], .comment hblanks (comment ++ rest)⟩
    · rcases hrest with hend | ⟨fault, h⟩
      · cases t with
        | nil =>
          -- No word begins where one can end, so nothing comes after the blanks.
          cases rest with
          | nil => exact .inl ⟨[], by simpa using .blank hblanks⟩
          | cons c rest =>
            have hblank : isBlank c = true := hend c rfl
            rw [hstart c rfl] at hblank
            cases hblank
        | cons c t =>
          have hword : IsWord (c :: t) v := ⟨ht, by simp, hhash⟩
          have hlength : rest.length < n := by
            simp at hn
            omega
          rw [← List.append_assoc]
          rcases ih rest.length hlength rest rfl with ⟨ws, hws⟩ | ⟨fault, hfault⟩
          · exact .inl ⟨v :: ws, .word hblanks hword hend hws⟩
          · exact .inr ⟨fault, .later hblanks hword hend hfault⟩
      · rw [← List.append_assoc]
        exact .inr ⟨fault, .here hblanks ht hhash h⟩

/-! ## Reading and grammar -/

theorem words_eq_ok_iff {line : List Char} {ws : List (List Char)} :
    words line = .ok ws ↔ IsReading line ws := by
  constructor
  · intro h
    rcases isReading_or_isBroken line with ⟨ws', hreading⟩ | ⟨fault, hbroken⟩
    · have hws := words_of_isReading hreading
      rw [h] at hws
      cases hws
      exact hreading
    · rw [words_of_isBroken hbroken] at h
      cases h
  · exact words_of_isReading

theorem words_eq_error_iff {line : List Char} {fault : WordError} :
    words line = .error fault ↔ IsBroken line fault := by
  constructor
  · intro h
    rcases isReading_or_isBroken line with ⟨ws, hreading⟩ | ⟨fault', hbroken⟩
    · rw [words_of_isReading hreading] at h
      cases h
    · have hfault := words_of_isBroken hbroken
      rw [h] at hfault
      cases hfault
      exact hbroken
  · exact words_of_isBroken

/-- The words of a line are those of its reading, which is the only one. A line without a reading
breaks off, and its fault is that of the fragment it breaks off in: a backslash with nothing after
it, or the quote that is open. -/
theorem words_iff_isReading (line : List Char) :
    (∀ ws, words line = .ok ws ↔ IsReading line ws) ∧
      (∀ ws ws', IsReading line ws → IsReading line ws' → ws = ws') ∧
      (∀ fault, words line = .error fault ↔ IsBroken line fault) ∧
      ((∃ fault, IsBroken line fault) ↔ ¬ ∃ ws, IsReading line ws) := by
  refine ⟨fun ws => words_eq_ok_iff, ?_, fun fault => words_eq_error_iff, ?_⟩
  · intro ws ws' h h'
    have hws := words_of_isReading h
    rw [words_of_isReading h'] at hws
    exact (Except.ok.inj hws).symm
  · constructor
    · rintro ⟨fault, hbroken⟩ ⟨ws, hreading⟩
      have hws := words_of_isReading hreading
      rw [words_of_isBroken hbroken] at hws
      cases hws
    · exact (isReading_or_isBroken line).resolve_left

/-- Adjacent fragments make one word, in which a `#` is a character like any other. -/
theorem words_iff_isReading_adjacent :
    ∃ reading, IsReading "a\\ 'b c'\"\\\"d\"#e # f".toList reading ∧
      ∀ ws, IsReading "a\\ 'b c'\"\\\"d\"#e # f".toList ws → ws = reading := by
  have hall := words_iff_isReading "a\\ 'b c'\"\\\"d\"#e # f".toList
  have hread : IsReading "a\\ 'b c'\"\\\"d\"#e # f".toList ["a b c\"d#e".toList] :=
    (hall.1 _).1 (by cbv)
  exact ⟨_, hread, fun ws hws => hall.2.1 ws _ hws hread⟩

end UnifiedConfig.Text
