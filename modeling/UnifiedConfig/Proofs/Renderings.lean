import UnifiedConfig.Json

/-!
# The text of a JSON value

The text of a value that holds no numbers, no truth values and no nulls tells the value. Whatever
comes after such a text, it is known where the text ends: a string ends at the first double quote
that is not escaped, and after each item of an array or field of an object comes a comma or a
closing bracket, with nothing but blanks before it.

* `unescape_escapedChar`: a character is told by its escape.
* `renderAt_tells`: where it stands, a value is told by its text.
* `render_inj`: no two values have the same text.
-/

namespace UnifiedConfig.Json

/-! ## Strings -/

/-- The value of a hexadecimal digit. -/
def hexValue (c : Char) : Nat :=
  if c.isDigit then c.toNat - '0'.toNat else c.toNat - 'a'.toNat + 10

/-- The character that an escape stands for, by the character after the backslash. -/
def namedEscape (c : Char) : Char :=
  match c with
  | 'b' => '\x08'
  | 'f' => '\x0c'
  | 'n' => '\n'
  | 'r' => '\r'
  | 't' => '\t'
  | c => c

/-- The first character of a text with escapes, and what comes after it. -/
def unescape : List Char → Option (Char × List Char)
  | '\\' :: 'u' :: _ :: _ :: high :: low :: rest =>
    some (Char.ofNat (16 * hexValue high + hexValue low), rest)
  | '\\' :: c :: rest => some (namedEscape c, rest)
  | c :: rest => some (c, rest)
  | [] => none

/-- A control character is written by its two last hexadecimal digits. -/
theorem unescape_controlEscape {c : Char} (h : c < ' ') (rest : List Char) :
    unescape ((controlEscape c).toList ++ rest) = some (c, rest) := by
  have hcode : ∀ n < 32, (controlEscape (Char.ofNat n)).toList =
      ['\\', 'u', '0', '0', (n / 16).digitChar, (n % 16).digitChar] := by decide +kernel
  have hvalue : ∀ n < 16, hexValue n.digitChar = n := by decide +kernel
  have hn : c.toNat < 32 := h
  have hchar := hcode c.toNat hn
  rw [Char.ofNat_toNat] at hchar
  rw [hchar]
  have hhigh := hvalue (c.toNat / 16) (by omega)
  have hlow := hvalue (c.toNat % 16) (by omega)
  simp only [List.cons_append, List.nil_append, unescape, hhigh, hlow, Nat.div_add_mod,
    Char.ofNat_toNat]

/-- A character is read back from its escape. -/
theorem unescape_escapedChar (c : Char) (rest : List Char) :
    unescape ((escapedChar c).toList ++ rest) = some (c, rest) := by
  unfold escapedChar
  split
  · rfl
  · rfl
  · rfl
  · rfl
  · rfl
  · rfl
  · rfl
  · next hescape _ _ _ _ _ =>
    split
    · next hcontrol => exact unescape_controlEscape hcontrol rest
    · -- The character stands for itself, as it is no backslash.
      rw [Char.toString, String.toList_singleton, List.singleton_append, unescape]
      · intro _ _ _ _ _ hc
        exact (hescape hc).elim
      · intro _ _ hc
        exact (hescape hc).elim

/-- Whatever comes after the texts of two things, the things and what comes after are the same if
the whole is the same. -/
def Tells {α : Type} (text : α → String) (x y : α) : Prop :=
  ∀ rest more, (text x).toList ++ rest = (text y).toList ++ more → x = y ∧ rest = more

/-- A quote that stands for itself ends a string. -/
theorem escapedChars_inj {s t rest more : List Char}
    (h : s.flatMap (fun c => (escapedChar c).toList) ++ '"' :: rest =
      t.flatMap (fun c => (escapedChar c).toList) ++ '"' :: more) : s = t ∧ rest = more := by
  -- The quote at the end is read as itself, so no escape begins with it.
  have hne (c : Char) (after before : List Char) :
      '"' :: before ≠ (escapedChar c).toList ++ after := by
    intro h
    have hread := unescape_escapedChar c after
    rw [← h] at hread
    obtain ⟨rfl, -⟩ : '"' = c ∧ before = after := by simpa [unescape] using hread
    simp [escapedChar] at h
  induction s generalizing t with
  | nil =>
    cases t with
    | nil => simpa using h
    | cons d t => exact (hne _ _ _ (by simpa using h)).elim
  | cons c s ih =>
    cases t with
    | nil => exact (hne _ _ _ (by simpa using h.symm)).elim
    | cons d t =>
      simp only [List.flatMap_cons, List.append_assoc] at h
      have hread := congrArg unescape h
      rw [unescape_escapedChar, unescape_escapedChar] at hread
      obtain ⟨rfl, hmore⟩ := Prod.mk.inj (Option.some.inj hread)
      obtain ⟨rfl, hrest⟩ := ih hmore
      exact ⟨rfl, hrest⟩

theorem toList_quoted (s : String) : (quoted s).toList =
    '"' :: (s.toList.flatMap (fun c => (escapedChar c).toList) ++ ['"']) := by
  simp [quoted, String.toList_join, List.flatMap_def, Function.comp_def]

theorem quoted_tells (s t : String) : Tells quoted s t := by
  intro rest more h
  simp only [toList_quoted, List.cons_append, List.append_assoc, List.cons.injEq, true_and,
    List.nil_append] at h
  obtain ⟨hchars, hrest⟩ := escapedChars_inj h
  exact ⟨String.toList_inj.mp hchars, hrest⟩

/-! ## Brackets -/

/-- Nothing but blanks stands before an item or a closing bracket. -/
def Layout.IsBlank (layout : Layout) : Prop :=
  ∀ depth, ∀ c ∈ (layout.lineBreak depth).toList, c = ' ' ∨ c = '\n'

theorem Layout.isBlank_compact : Layout.compact.IsBlank := by
  simp [IsBlank, compact]

theorem Layout.isBlank_pretty : Layout.pretty.IsBlank := by
  intro depth c hc
  simp only [pretty, String.toList_append, String.toList_ofList, List.mem_append,
    List.mem_replicate] at hc
  rcases hc with hbreak | ⟨-, rfl⟩
  · exact .inr (by simpa using hbreak)
  · exact .inl rfl

/-- Where a text begins with another character, no blanks are before it. -/
theorem Layout.IsBlank.eq_of_cons_eq {layout : Layout} (hlayout : layout.IsBlank) {depth : Nat}
    {c : Char} {before after : List Char} (hc : c ≠ ' ' ∧ c ≠ '\n')
    (h : c :: before = (layout.lineBreak depth).toList ++ after) : c :: before = after := by
  cases hbreak : (layout.lineBreak depth).toList with
  | nil => simpa [hbreak] using h
  | cons b blanks =>
    rw [hbreak] at h
    obtain ⟨rfl, -⟩ := List.cons.inj h
    have hblank := hlayout depth c (by simp [hbreak])
    exact absurd hblank (not_or.mpr hc)

/-- What comes after the first item: the others, with a comma before each, and the bracket. -/
def Layout.closing (layout : Layout) (depth : Nat) (right : Char) (items : List String) :
    List Char :=
  items.flatMap (fun item => ',' :: ((layout.lineBreak (depth + 1)).toList ++ item.toList)) ++
    ((layout.lineBreak depth).toList ++ [right])

section Brackets

variable {layout : Layout} {depth : Nat} {left right : Char}

theorem toList_enclose_nil :
    (layout.enclose depth left.toString right.toString []).toList = [left, right] := by
  simp [Layout.enclose]

theorem toList_enclose_cons {item : String} {more : List String} :
    (layout.enclose depth left.toString right.toString (item :: more)).toList =
      left :: ((layout.lineBreak (depth + 1)).toList ++ (item.toList ++
        layout.closing depth right more)) := by
  have hcommas : ∀ (first : List Char) (more : List (List Char)),
      [','].intercalate (first :: more) = first ++ more.flatMap (',' :: ·) := by
    intro first more
    induction more generalizing first with
    | nil => simp
    | cons second more ih => simp [List.intercalate_cons_cons, ih]
  simp [Layout.enclose, Layout.closing, String.toList_intercalate, hcommas, List.flatMap_map]

variable {α : Type} {text : α → String} {xs ys : List α}

/-- After an item comes a comma or the closing bracket, so it is known how many there are. -/
theorem closing_inj (hlayout : layout.IsBlank) (hright : right = ']' ∨ right = '\x7d')
    (hitems : ∀ x ∈ xs, ∀ y ∈ ys, Tells text x y) {rest more : List Char}
    (h : layout.closing depth right (xs.map text) ++ rest =
      layout.closing depth right (ys.map text) ++ more) : xs = ys ∧ rest = more := by
  -- A comma is neither a blank nor a bracket.
  have hne (after before : List Char) :
      ',' :: before ≠ (layout.lineBreak depth).toList ++ right :: after := by
    intro h
    obtain ⟨rfl, -⟩ := List.cons.inj (hlayout.eq_of_cons_eq (by decide) h)
    simp at hright
  induction xs generalizing ys with
  | nil =>
    cases ys with
    | nil => simpa [Layout.closing] using h
    | cons y ys => exact (hne _ _ (by simpa [Layout.closing] using h.symm)).elim
  | cons x xs ih =>
    cases ys with
    | nil => exact (hne _ _ (by simpa [Layout.closing] using h)).elim
    | cons y ys =>
      have hafter : (text x).toList ++ (layout.closing depth right (xs.map text) ++ rest) =
          (text y).toList ++ (layout.closing depth right (ys.map text) ++ more) := by
        simpa [Layout.closing] using h
      obtain ⟨rfl, hclosing⟩ := hitems x (by simp) y (by simp) _ _ hafter
      have hothers : ∀ x ∈ xs, ∀ y ∈ ys, Tells text x y := fun x hx y hy =>
        hitems x (List.mem_cons_of_mem _ hx) y (List.mem_cons_of_mem _ hy)
      obtain ⟨rfl, hrest⟩ := ih hothers hclosing
      exact ⟨rfl, hrest⟩

/-- The items are known by the text between the brackets if none of them begins with a bracket that
closes. -/
theorem enclose_tells (hlayout : layout.IsBlank) (hright : right = ']' ∨ right = '\x7d')
    (hitems : ∀ x ∈ xs, ∀ y ∈ ys, Tells text x y)
    (hheads : ∀ x ∈ xs ++ ys, ∃ c chars, (text x).toList = c :: chars ∧ c ≠ right) :
    Tells (fun xs => layout.enclose depth left.toString right.toString (xs.map text)) xs ys := by
  -- Neither a blank nor the beginning of an item is the closing bracket.
  have hne {x : α} (hx : x ∈ xs ++ ys) (after before : List Char) : right :: before ≠
      (layout.lineBreak (depth + 1)).toList ++ ((text x).toList ++ after) := by
    intro h
    obtain ⟨c, chars, hchars, hc⟩ := hheads x hx
    have hnonblank : right ≠ ' ' ∧ right ≠ '\n' := by
      rcases hright with rfl | rfl <;> decide
    have hfirst := hlayout.eq_of_cons_eq hnonblank h
    rw [hchars] at hfirst
    exact hc (List.cons.inj hfirst).1.symm
  intro rest more h
  dsimp only at h
  cases xs with
  | nil =>
    cases ys with
    | nil => simpa [toList_enclose_nil] using h
    | cons y ys =>
      rw [List.map_nil, List.map_cons, toList_enclose_nil, toList_enclose_cons] at h
      exact (hne (x := y) (by simp) _ _ (by simpa using h)).elim
  | cons x xs =>
    cases ys with
    | nil =>
      rw [List.map_nil, List.map_cons, toList_enclose_nil, toList_enclose_cons] at h
      exact (hne (x := x) (by simp) _ _ (by simpa using h.symm)).elim
    | cons y ys =>
      -- With a comma before them, the first items are as the others.
      rw [List.map_cons, List.map_cons, toList_enclose_cons, toList_enclose_cons] at h
      have hclosing : layout.closing depth right ((x :: xs).map text) ++ rest =
          layout.closing depth right ((y :: ys).map text) ++ more := by
        simpa [Layout.closing] using h
      exact closing_inj hlayout hright hitems hclosing

end Brackets

/-! ## Values -/

/-- A value without numbers, truth values and nulls. -/
inductive IsTextual : Json → Prop
  | string (s : String) : IsTextual (.string s)
  | array {items : List Json} (h : ∀ item ∈ items, IsTextual item) : IsTextual (.array items)
  | object {fields : List (String × Json)} (h : ∀ field ∈ fields, IsTextual field.2) :
      IsTextual (.object fields)

/-- The text of a field. -/
def renderField (layout : Layout) (depth : Nat) (field : String × Json) : String :=
  quoted field.1 ++ layout.colon ++ renderAt layout depth field.2

theorem renderItems_eq_map (layout : Layout) (depth : Nat) (items : List Json) :
    renderItems layout depth items = items.map (renderAt layout depth) := by
  induction items with
  | nil => rfl
  | cons item items ih => rw [renderItems, ih, List.map_cons]

theorem renderFields_eq_map (layout : Layout) (depth : Nat) (fields : List (String × Json)) :
    renderFields layout depth fields = fields.map (renderField layout depth) := by
  induction fields with
  | nil => rfl
  | cons field fields ih => rw [renderFields, ih, List.map_cons, renderField]

theorem renderAt_array (layout : Layout) (depth : Nat) (items : List Json) :
    renderAt layout depth (.array items) =
      layout.enclose depth '['.toString ']'.toString (items.map (renderAt layout (depth + 1))) := by
  rw [renderAt, renderItems_eq_map]
  rfl

theorem renderAt_object (layout : Layout) (depth : Nat) (fields : List (String × Json)) :
    renderAt layout depth (.object fields) =
      layout.enclose depth '\x7b'.toString '\x7d'.toString
        (fields.map (renderField layout (depth + 1))) := by
  rw [renderAt, renderFields_eq_map]
  rfl

/-- The character that the text of a value without numbers, truth values and nulls begins with. -/
def opening : Json → Char
  | .array _ => '['
  | .object _ => '\x7b'
  | _ => '"'

theorem opening_ne (j : Json) : j.opening ≠ ']' := by
  cases j <;> simp [opening]

/-- The text between brackets begins with the first of them. -/
theorem enclose_cons (layout : Layout) (depth : Nat) (left right : Char) (items : List String) :
    ∃ chars, (layout.enclose depth left.toString right.toString items).toList = left :: chars := by
  cases items with
  | nil => exact ⟨_, toList_enclose_nil⟩
  | cons item items => exact ⟨_, toList_enclose_cons⟩

theorem IsTextual.renderAt_cons {j : Json} (h : j.IsTextual) (layout : Layout) (depth : Nat) :
    ∃ chars, (renderAt layout depth j).toList = j.opening :: chars := by
  cases h with
  | string s => exact ⟨_, by rw [renderAt, toList_quoted]; rfl⟩
  | array => exact renderAt_array layout depth _ ▸ enclose_cons layout depth '[' ']' _
  | object => exact renderAt_object layout depth _ ▸ enclose_cons layout depth '\x7b' '\x7d' _

theorem IsTextual.opening_eq {j k : Json} (hj : j.IsTextual) (hk : k.IsTextual) {layout : Layout}
    {depth : Nat} {rest more : List Char}
    (h : (renderAt layout depth j).toList ++ rest = (renderAt layout depth k).toList ++ more) :
    j.opening = k.opening := by
  obtain ⟨chars, hchars⟩ := hj.renderAt_cons layout depth
  obtain ⟨others, hothers⟩ := hk.renderAt_cons layout depth
  rw [hchars, hothers] at h
  exact (List.cons.inj h).1

/-- The text of a field tells its name and its value if the text of the value tells the value. -/
theorem renderField_tells {layout : Layout} {depth : Nat} {field other : String × Json}
    (h : Tells (renderAt layout depth) field.2 other.2) :
    Tells (renderField layout depth) field other := by
  intro rest more heq
  simp only [renderField, String.toList_append, List.append_assoc] at heq
  obtain ⟨hname, hvalue⟩ := quoted_tells _ _ _ _ heq
  obtain ⟨hvalue, hrest⟩ := h _ _ (List.append_cancel_left hvalue)
  exact ⟨Prod.ext hname hvalue, hrest⟩

/-- Where it stands, a value is told by its text. -/
theorem renderAt_tells {layout : Layout} (hlayout : layout.IsBlank) {j k : Json}
    (hj : j.IsTextual) (hk : k.IsTextual) (depth : Nat) : Tells (renderAt layout depth) j k := by
  intro rest more h
  have hopening := hj.opening_eq hk h
  induction hj generalizing k depth rest more with
  | string s =>
    cases hk with
    | string t =>
      rw [renderAt, renderAt] at h
      obtain ⟨rfl, hrest⟩ := quoted_tells s t _ _ h
      exact ⟨rfl, hrest⟩
    | array | object => simp [opening] at hopening
  | @array items hitems ih =>
    cases hk with
    | @array others hothers =>
      rw [renderAt_array, renderAt_array] at h
      have htells : ∀ x ∈ items, ∀ y ∈ others, Tells (renderAt layout (depth + 1)) x y :=
        fun x hx y hy _ _ h =>
          ih x hx (hothers y hy) _ _ _ h ((hitems x hx).opening_eq (hothers y hy) h)
      have hheads : ∀ x ∈ items ++ others, ∃ c chars,
          (renderAt layout (depth + 1) x).toList = c :: chars ∧ c ≠ ']' := by
        intro x hx
        have hx : x.IsTextual := (List.mem_append.mp hx).elim (hitems x) (hothers x)
        obtain ⟨chars, hchars⟩ := hx.renderAt_cons layout (depth + 1)
        exact ⟨x.opening, chars, hchars, x.opening_ne⟩
      obtain ⟨rfl, hrest⟩ := enclose_tells hlayout (.inl rfl) htells hheads _ _ h
      exact ⟨rfl, hrest⟩
    | string | object => simp [opening] at hopening
  | @object fields hfields ih =>
    cases hk with
    | @object others hothers =>
      rw [renderAt_object, renderAt_object] at h
      have htells : ∀ x ∈ fields, ∀ y ∈ others, Tells (renderField layout (depth + 1)) x y :=
        fun x hx y hy => renderField_tells fun _ _ h =>
          ih x hx (hothers y hy) _ _ _ h ((hfields x hx).opening_eq (hothers y hy) h)
      have hheads : ∀ x ∈ fields ++ others, ∃ c chars,
          (renderField layout (depth + 1) x).toList = c :: chars ∧ c ≠ '\x7d' := fun x _ =>
        ⟨'"', _, by simp only [renderField, String.toList_append, toList_quoted]; rfl, by decide⟩
      obtain ⟨rfl, hrest⟩ := enclose_tells hlayout (.inr rfl) htells hheads _ _ h
      exact ⟨rfl, hrest⟩
    | string | array => simp [opening] at hopening

/-- No two values have the same text. -/
theorem render_inj {layout : Layout} (hlayout : layout.IsBlank) {j k : Json} (hj : j.IsTextual)
    (hk : k.IsTextual) : j.render layout = k.render layout ↔ j = k := by
  refine ⟨fun h => ?_, fun h => h ▸ rfl⟩
  have hchars := congrArg (fun text => text.toList ++ []) h
  exact (renderAt_tells hlayout hj hk 0 [] [] hchars).1

end UnifiedConfig.Json
