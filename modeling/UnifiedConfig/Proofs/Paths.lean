import UnifiedConfig.Disk.Replacement

/-!
# Steps of paths

What the paths around a file say as steps, for an entry name that is joined to the path of a
directory: the file itself, the directory it is in, and the temporary file beside it.

* `steps_join`: the file is one step further than the directory.
* `parent?_join`: the parent of the file says the same steps as the directory, but for some at the
  end that stay where they are.
* `parent?_of_fileName?`: a path with a file name leads down to the file from its parent.
* `steps_prefix_of_mem_stages`: the paths on the way along a path say the first ones of its steps.
-/

namespace UnifiedConfig

/-! ## Parts between separators -/

namespace Text

theorem splitAll_ne_nil (separator : Char) (s : List Char) : splitAll separator s ≠ [] := by
  cases s with
  | nil => simp [splitAll]
  | cons c s =>
    unfold splitAll
    split
    · simp
    · cases splitAll separator s <;> simp [extendFirst]

theorem splitAll_append_cons (separator : Char) (s rest : List Char) :
    splitAll separator (s ++ separator :: rest) =
      splitAll separator s ++ splitAll separator rest := by
  induction s with
  | nil => simp [splitAll]
  | cons c s ih =>
    rw [List.cons_append, splitAll, splitAll, ih]
    split
    · rfl
    · cases hsplit : splitAll separator s with
      | nil => exact absurd hsplit (splitAll_ne_nil separator s)
      | cons part parts => rfl

theorem splitAll_of_notMem {separator : Char} {s : List Char} (h : separator ∉ s) :
    splitAll separator s = [s] := by
  induction s with
  | nil => rfl
  | cons c s ih =>
    have hc : c ≠ separator := fun hc => h (by simp [hc])
    rw [splitAll, if_neg hc, ih fun hmem => h (by simp [hmem])]
    rfl

theorem notMem_of_mem_splitAll {separator : Char} {s part : List Char}
    (h : part ∈ splitAll separator s) : separator ∉ part := by
  induction s generalizing part with
  | nil => simp_all [splitAll]
  | cons c s ih =>
    unfold splitAll at h
    split at h
    · rcases List.mem_cons.1 h with rfl | h
      · simp
      · exact ih h
    · next hc =>
      cases hsplit : splitAll separator s with
      | nil => exact absurd hsplit (splitAll_ne_nil separator s)
      | cons first more =>
        rw [hsplit] at h ih
        rcases List.mem_cons.1 h with rfl | h
        · simpa [Ne.symm hc] using ih (List.mem_cons_self ..)
        · exact ih (by simp [h])

end Text

open Text

namespace Path

/-! ## Pieces -/

/-- Whether a text can be the name of an entry of a directory. -/
def IsEntryName (name : String) : Prop :=
  name ≠ "" ∧ name ≠ "." ∧ name ≠ ".." ∧ '/' ∉ name.toList

/-- The step that a piece says, if it says one. -/
def step? (piece : String) : Option Step :=
  if piece = "" then none
  else if piece = "." then some .here
  else if piece = ".." then some .up
  else some (.down piece)

theorem steps_eq (p : Path) : p.steps = p.pieces.filterMap step? := rfl

theorem IsEntryName.step? {name : String} (h : IsEntryName name) :
    step? name = some (.down name) := by
  simp [Path.step?, h.1, h.2.1, h.2.2.1]

theorem slash_notMem_of_mem_pieces {p : Path} {piece : String} (h : piece ∈ p.pieces) :
    '/' ∉ piece.toList := by
  obtain ⟨part, hpart, rfl⟩ := List.mem_map.1 h
  rw [String.toList_ofList]
  exact notMem_of_mem_splitAll hpart

theorem pieces_ofPieces {pieces : List String} (hne : pieces ≠ [])
    (h : ∀ piece ∈ pieces, '/' ∉ piece.toList) : (ofPieces pieces).pieces = pieces := by
  induction pieces with
  | nil => exact absurd rfl hne
  | cons piece rest ih =>
    have hpiece := splitAll_of_notMem (h piece (by simp))
    cases rest with
    | nil => simp [ofPieces, Path.pieces, hpiece]
    | cons next rest =>
      have ih := ih (by simp) fun q hq => h q (by simp [hq])
      unfold Path.pieces ofPieces at ih ⊢
      simp only [String.intercalate_cons_cons, String.toList_append, List.append_assoc]
      have hslash : "/".toList = ['/'] := by decide
      rw [hslash, List.singleton_append, splitAll_append_cons, hpiece, List.map_append, ih]
      simp

/-- The pieces of a joined path end in the name, and those before it say the steps of the path. -/
theorem pieces_join (p : Path) {name : String} (h : IsEntryName name) :
    ∃ before, (p.join name).pieces = before ++ [name] ∧ before.filterMap step? = p.steps := by
  have hname := splitAll_of_notMem h.2.2.2
  have hslash : "/".toList = ['/'] := by decide
  by_cases hempty : p.text = ""
  · refine ⟨[], ?_, ?_⟩
    · simp [join, hempty, pieces, hname]
    · simp [steps_eq, pieces, hempty, splitAll, step?]
  · by_cases hend : p.endsInSlash
    · obtain ⟨front, hfront⟩ : ∃ front, p.text.toList = front ++ ['/'] := by
        rw [endsInSlash, String.endsWith_char_eq_getLast?, beq_iff_eq,
          List.getLast?_eq_some_iff] at hend
        exact hend
      refine ⟨(splitAll '/' front).map String.ofList, ?_, ?_⟩
      · simp [join, hempty, hend, pieces, hfront, splitAll_append_cons, hname]
      · simp [steps_eq, pieces, hfront, splitAll_append_cons, splitAll, step?]
    · refine ⟨p.pieces, ?_, rfl⟩
      simp [join, hempty, hend, pieces, hslash, splitAll_append_cons, hname]

/-! ## Joined paths -/

/-- A joined path says one step more. -/
theorem steps_join (p : Path) {name : String} (h : IsEntryName name) :
    (p.join name).steps = p.steps ++ [.down name] := by
  obtain ⟨before, hpieces, hsteps⟩ := p.pieces_join h
  rw [steps_eq, hpieces, List.filterMap_append, hsteps]
  simp [h.step?]

/-- A name says something, so nothing is trimmed after it. -/
theorem trim_concat (before : List String) {name : String} (h : IsEntryName name) :
    trim (before ++ [name]) = before ++ [name] := by
  cases before with
  | nil => rfl
  | cons first more => simp [trim, h.1, h.2.1]

theorem fileName?_join (p : Path) {name : String} (h : IsEntryName name) :
    (p.join name).fileName? = some name := by
  obtain ⟨before, hpieces, -⟩ := p.pieces_join h
  simp [fileName?, hpieces, trim_concat before h, h.1, h.2.1, h.2.2.1]

/-- What is trimmed from pieces stays where it is. -/
theorem filterMap_trim (pieces : List String) :
    ∃ k, pieces.filterMap step? = (trim pieces).filterMap step? ++ List.replicate k .here := by
  have hstay : ∀ more : List String, (∀ piece ∈ more, piece = "" ∨ piece = ".") →
      ∃ k, more.filterMap step? = List.replicate k .here := by
    intro more hmore
    induction more with
    | nil => exact ⟨0, rfl⟩
    | cons piece more ih =>
      obtain ⟨k, hk⟩ := ih fun q hq => hmore q (by simp [hq])
      rcases hmore piece (by simp) with rfl | rfl
      · exact ⟨k, by simpa [step?] using hk⟩
      · exact ⟨k + 1, by simpa [step?, List.replicate_succ] using hk⟩
  cases pieces with
  | nil => exact ⟨0, rfl⟩
  | cons first more =>
    obtain ⟨k, hk⟩ := hstay (more.reverse.takeWhile fun piece => piece = "" || piece = ".").reverse
      fun piece hpiece => by
        simpa using List.all_eq_true.1 List.all_takeWhile piece (List.mem_reverse.1 hpiece)
    refine ⟨k, ?_⟩
    have hsplit := congrArg List.reverse (@List.takeWhile_append_dropWhile _
      (fun piece : String => piece = "" || piece = ".") more.reverse)
    rw [List.reverse_append, List.reverse_reverse] at hsplit
    rw [← hk, ← List.filterMap_append, trim, List.cons_append, hsplit]

theorem slash_notMem_of_mem_trim {pieces : List String} (h : ∀ piece ∈ pieces, '/' ∉ piece.toList) :
    ∀ piece ∈ trim pieces, '/' ∉ piece.toList := by
  cases pieces with
  | nil => simp [trim]
  | cons first more =>
    intro piece hpiece
    rcases List.mem_cons.1 hpiece with rfl | hpiece
    · exact h piece (by simp)
    · have hmem := (List.dropWhile_suffix _).subset (List.mem_reverse.1 hpiece)
      exact h piece (by simp [List.mem_reverse.1 hmem])

/-- The parent of a path says what comes before the last piece that counts. -/
theorem parent?_of_trim {p : Path} {before : List String} {name : String}
    (htrim : trim p.pieces = before ++ [name]) (hne : name ≠ "") :
    ∃ parent k, p.parent? = some parent ∧
      before.filterMap step? = parent.steps ++ List.replicate k .here := by
  have hslash := slash_notMem_of_mem_trim fun piece => @slash_notMem_of_mem_pieces p piece
  unfold parent?
  rw [htrim] at hslash ⊢
  cases before with
  | nil => exact ⟨⟨""⟩, 0, by simp [hne], by simp [steps_eq, pieces, splitAll, step?]⟩
  | cons first more =>
    obtain ⟨k, hk⟩ := filterMap_trim (first :: more)
    have htrim := slash_notMem_of_mem_trim fun piece hpiece =>
      hslash piece (List.mem_append_left [name] hpiece)
    have hdrop : (first :: more ++ [name]).dropLast = first :: more := List.dropLast_concat
    refine ⟨if trim (first :: more) = [""] then ⟨"/"⟩ else ofPieces (trim (first :: more)), k,
      ?_, ?_⟩
    · cases more with
      | nil => simp
      | cons second more => simp only [List.cons_append] at hdrop ⊢; simp [hdrop]
    · rw [hk]
      congr 1
      split
      · next hroot =>
        rw [hroot]
        decide
      · rw [steps_eq, pieces_ofPieces (by simp [trim]) htrim]

/-- A joined path has a parent, which leads where the path does. -/
theorem parent?_join (p : Path) {name : String} (h : IsEntryName name) :
    ∃ parent k, (p.join name).parent? = some parent ∧
      p.steps = parent.steps ++ List.replicate k .here := by
  obtain ⟨before, hpieces, hsteps⟩ := p.pieces_join h
  rw [← hsteps]
  exact parent?_of_trim (hpieces ▸ trim_concat before h) h.1

/-- A path with a file name leads to its file by its parent and one step down. -/
theorem parent?_of_fileName? {p : Path} {name : String} (h : p.fileName? = some name) :
    IsEntryName name ∧ ∃ parent k m, p.parent? = some parent ∧
      p.steps = parent.steps ++ List.replicate k .here ++ .down name :: List.replicate m .here := by
  unfold fileName? at h
  split at h
  · cases h
  · next last hlast =>
    split at h
    · cases h
    · next hor =>
      cases h
      obtain ⟨before, htrim⟩ := List.getLast?_eq_some_iff.1 hlast
      simp only [not_or] at hor
      have hslash := slash_notMem_of_mem_trim fun piece => @slash_notMem_of_mem_pieces p piece
      have hname : IsEntryName name := ⟨hor.1, hor.2.1, hor.2.2, hslash name (by simp [htrim])⟩
      obtain ⟨parent, k, hparent, hbefore⟩ := parent?_of_trim htrim hor.1
      obtain ⟨m, hm⟩ := filterMap_trim p.pieces
      refine ⟨hname, parent, k, m, hparent, ?_⟩
      rw [steps_eq, hm, htrim, List.filterMap_append, hbefore]
      simp [hname.step?]

/-! ## The way along a path -/

/-- The paths on the way along a path say the first ones of its steps. -/
theorem steps_prefix_of_mem_stages {p stage : Path} (h : stage ∈ p.stages) :
    stage.steps <+: p.steps := by
  have hmem := (List.mem_filter.1 h).1
  have hpaths : ∀ walked rest : List String, (∀ piece ∈ walked ++ rest, '/' ∉ piece.toList) →
      stage ∈ pathsFrom walked rest →
        stage.steps <+: (walked ++ rest).filterMap step? := by
    intro walked rest
    induction rest generalizing walked with
    | nil => simp [pathsFrom]
    | cons piece rest ih =>
      intro hslash hmem
      rcases List.mem_cons.1 hmem with rfl | hmem
      · have hwalked : ∀ q ∈ walked ++ [piece], '/' ∉ q.toList := fun q hq =>
          hslash q (by rw [List.append_cons]; exact List.mem_append_left _ hq)
        rw [steps_eq, pieces_ofPieces (by simp) hwalked, List.append_cons walked piece rest]
        exact (List.prefix_append _ rest).filterMap step?
      · rw [List.append_cons]
        exact ih (walked ++ [piece]) (by rwa [← List.append_cons]) hmem
  exact hpaths [] p.pieces (fun _ hq => slash_notMem_of_mem_pieces hq) hmem

end Path

end UnifiedConfig
