/-
  SassImports/Proofs/Json/Injectivity.lean
  ========================================
  A printed value tells which value it is.  On one line the text of a value ends where it must,
  whatever stands behind it, so that no value is written as another or as the beginning of another;
  and the form on many lines becomes the one on one line when the blanks between its parts are
  deleted.

    * `Legible`: what is written can be told from everything else that is written the same way, with
      any text behind it;
    * `legible_quote`, `legible_toDigits` and `Legible.list`: this holds of quoted texts, of digits
      and of lists with commas, from which `legible_render` puts it together for values;
    * `deleteBlanks`: a text without its blanks, those in quoted texts excepted;
    * `deleteBlanks_pretty`, `compact_injective` and `pretty_injective`.
-/
import SassImports.Proofs.Json.Printing

namespace SassImports.Json

variable {α : Type} {t rest rest' : Text} {c : Char} {l : Layout}

/-! ### Induction on values -/

theorem sizeOf_lt_of_mem_fields {field : Text × Json} {fields : List (Text × Json)}
    (h : field ∈ fields) : sizeOf field.2 < sizeOf (Json.object fields) := by
  have hfield : sizeOf field < sizeOf fields := List.sizeOf_lt_of_mem h
  obtain ⟨key, value⟩ := field
  simp only [Prod.mk.sizeOf_spec, object.sizeOf_spec] at hfield ⊢
  omega

/-- What is true of lists and objects when it is true of all values in them is true of every
    value. -/
@[elab_as_elim]
theorem induction {motive : Json → Prop} (null : motive .null)
    (number : ∀ n, motive (.number n)) (text : ∀ t, motive (.text t))
    (array : ∀ items, (∀ item ∈ items, motive item) → motive (.array items))
    (object : ∀ fields, (∀ field ∈ fields, motive field.2) → motive (.object fields)) :
    ∀ j, motive j
  | .null => null
  | .number n => number n
  | .text t => text t
  | .array items => array items fun item _ =>
    induction null number text array object item
  | .object fields => object fields fun field _ =>
    induction null number text array object field.2
termination_by j => sizeOf j
decreasing_by
  · have hitem : sizeOf item < sizeOf items := List.sizeOf_lt_of_mem ‹_›
    simp only [Json.array.sizeOf_spec]
    omega
  · exact sizeOf_lt_of_mem_fields ‹_›

/-! ### Lists with commas -/

def renderItem (l : Layout) (level : Nat) (item : Json) : Text :=
  l.lineBreak level ++ item.render l level

def renderField (l : Layout) (level : Nat) (field : Text × Json) : Text :=
  l.lineBreak level ++ (quote field.1 ++ (l.colon ++ field.2.render l level))

/-- A list behind its first element, every element with a comma before it. -/
def further (f : α → Text) (xs : List α) : Text := xs.flatMap fun x => ',' :: f x

theorem intercalate_map_cons (f : α → Text) (x : α) (xs : List α) :
    List.intercalate [','] ((x :: xs).map f) = f x ++ further f xs := by
  induction xs generalizing x with
  | nil => simp [further]
  | cons y xs ih =>
    have hmore : List.intercalate [','] (f y :: xs.map f) = f y ++ further f xs := ih y
    rw [List.map_cons, List.map_cons, List.intercalate_cons_cons, hmore]
    simp [further]

theorem renderItems_eq_intercalate (l : Layout) (level : Nat) (items : List Json) :
    renderItems l level items = List.intercalate [','] (items.map (renderItem l level)) := by
  induction items with
  | nil => rfl
  | cons item items ih =>
    cases items with
    | nil => simp [renderItems, renderItem]
    | cons next items =>
      rw [renderItems, ih, intercalate_map_cons, intercalate_map_cons]
      rfl

theorem renderFields_eq_intercalate (l : Layout) (level : Nat) (fields : List (Text × Json)) :
    renderFields l level fields = List.intercalate [','] (fields.map (renderField l level)) := by
  induction fields with
  | nil => rfl
  | cons field fields ih =>
    obtain ⟨key, value⟩ := field
    cases fields with
    | nil => simp [renderFields, renderField]
    | cons next fields =>
      rw [renderFields, ih, intercalate_map_cons, intercalate_map_cons]
      simp [renderField, further]

theorem render_compact_array (level : Nat) (items : List Json) (rest : Text) :
    render .compact level (.array items) ++ rest =
      '[' :: (List.intercalate [','] (items.map (renderItem .compact (level + 1))) ++
        ']' :: rest) := by
  rw [← renderItems_eq_intercalate]
  cases items <;> simp [render, renderItems, Layout.compact]

theorem render_compact_object (level : Nat) (fields : List (Text × Json)) (rest : Text) :
    render .compact level (.object fields) ++ rest =
      '{' :: (List.intercalate [','] (fields.map (renderField .compact (level + 1))) ++
        '}' :: rest) := by
  rw [← renderFields_eq_intercalate]
  cases fields <;> simp [render, renderFields, Layout.compact]

/-! ### Legible texts -/

/-- What is written for `x` is written for nothing else, even with something behind it that no
    numeral goes on with. -/
def Legible (f : α → Text) (x : α) : Prop :=
  ∀ y rest rest', EndsNumeral rest → EndsNumeral rest' → f x ++ rest = f y ++ rest' →
    x = y ∧ rest = rest'

theorem legible_quote (t : Text) : Legible quote t := by
  intro u rest rest' _ _ h
  have hbody : t.flatMap escape ++ '"' :: rest = u.flatMap escape ++ '"' :: rest' := by
    simpa [quote] using h
  have hpieces := congrArg pieces hbody
  rw [pieces_quote, pieces_quote] at hpieces
  obtain ⟨hmap, hrest⟩ := Prod.mk.inj hpieces
  have hdecode := congrArg (decode none) hmap
  rw [decode_map_piece, decode_map_piece] at hdecode
  exact ⟨Except.ok.inj hdecode, Except.ok.inj hrest⟩

theorem legible_toDigits (n : Nat) : Legible (Nat.toDigits 10) n := by
  intro m rest rest' hrest hrest' h
  have hscan := congrArg Numeral.scan h
  rw [scan_toDigits n hrest, scan_toDigits m hrest'] at hscan
  obtain ⟨hnumeral, hrest⟩ := Prod.mk.inj (Except.ok.inj hscan)
  have hdigits : Nat.toDigits 10 n = Nat.toDigits 10 m := congrArg Numeral.whole hnumeral
  have hdecimal := congrArg (decimal 0) hdigits
  rw [decimal_toDigits, decimal_toDigits] at hdecimal
  exact ⟨hdecimal, hrest⟩

section Lists

variable {f : α → Text} {closing : Char} {xs ys : List α}

theorem endsNumeral_further (hclosing : isMark closing = true) (f : α → Text) (xs : List α)
    (rest : Text) : EndsNumeral (further f xs ++ closing :: rest) := by
  cases xs with
  | nil => exact endsNumeral_mark hclosing rest
  | cons x xs => exact endsNumeral_mark rfl _

/-- Behind an element the next ones and the end of the list can be told. -/
theorem further_append_inj (hclosing : isMark closing = true) (hcomma : closing ≠ ',')
    (hxs : ∀ x ∈ xs, Legible f x)
    (h : further f xs ++ closing :: rest = further f ys ++ closing :: rest') :
    xs = ys ∧ rest = rest' := by
  induction xs generalizing ys with
  | nil =>
    cases ys with
    | nil => exact ⟨rfl, (List.cons.inj h).2⟩
    | cons y ys => exact absurd (List.cons.inj h).1 hcomma
  | cons x xs ih =>
    cases ys with
    | nil => exact absurd (List.cons.inj h).1.symm hcomma
    | cons y ys =>
      obtain ⟨hx, hxs⟩ := List.forall_mem_cons.1 hxs
      have hfirst : f x ++ (further f xs ++ closing :: rest) =
          f y ++ (further f ys ++ closing :: rest') := by
        simpa [further] using h
      obtain ⟨rfl, hfurther⟩ := hx y _ _ (endsNumeral_further hclosing f xs rest)
        (endsNumeral_further hclosing f ys rest') hfirst
      obtain ⟨rfl, hrest⟩ := ih hxs hfurther
      exact ⟨rfl, hrest⟩

/-- The elements of a list and its end can be told, if the elements can and none starts like the
    end. -/
theorem intercalate_append_inj (hclosing : isMark closing = true) (hcomma : closing ≠ ',')
    (hstart : ∀ x rest t, f x ++ rest ≠ closing :: t) (hxs : ∀ x ∈ xs, Legible f x)
    (h : List.intercalate [','] (xs.map f) ++ closing :: rest =
      List.intercalate [','] (ys.map f) ++ closing :: rest') :
    xs = ys ∧ rest = rest' := by
  cases xs with
  | nil =>
    cases ys with
    | nil => exact ⟨rfl, (List.cons.inj h).2⟩
    | cons y ys =>
      rw [intercalate_map_cons, List.append_assoc] at h
      exact absurd h.symm (hstart y _ _)
  | cons x xs =>
    cases ys with
    | nil =>
      rw [intercalate_map_cons, List.append_assoc] at h
      exact absurd h (hstart x _ _)
    | cons y ys =>
      rw [intercalate_map_cons, intercalate_map_cons, List.append_assoc, List.append_assoc] at h
      obtain ⟨hx, hxs⟩ := List.forall_mem_cons.1 hxs
      obtain ⟨rfl, hfurther⟩ := hx y _ _ (endsNumeral_further hclosing f xs rest)
        (endsNumeral_further hclosing f ys rest') h
      obtain ⟨rfl, hrest⟩ := further_append_inj hclosing hcomma hxs hfurther
      exact ⟨rfl, hrest⟩

end Lists

/-! ### Values on one line -/

/-- No value starts like the end of a list. -/
theorem renderItem_ne_bracket (level : Nat) (j : Json) (rest t : Text) :
    renderItem .compact level j ++ rest ≠ ']' :: t := by
  intro h
  cases j with
  | number n =>
    obtain ⟨d, ds, hds⟩ := List.exists_cons_of_ne_nil (@Nat.toDigits_ne_nil n 10)
    have hd : d.isDigit = true := isDigit_of_mem_toDigits (hds ▸ List.mem_cons_self)
    have h : Nat.toDigits 10 n ++ rest = ']' :: t := h
    rw [hds] at h
    exact ne_of_isDigit hd rfl (List.cons.inj h).1
  | null => cases (List.cons.inj h).1
  | text u => cases (List.cons.inj h).1
  | array items =>
    have h : render .compact level (.array items) ++ rest = ']' :: t := h
    rw [render_compact_array] at h
    cases (List.cons.inj h).1
  | object fields =>
    have h : render .compact level (.object fields) ++ rest = ']' :: t := h
    rw [render_compact_object] at h
    cases (List.cons.inj h).1

theorem renderField_ne_brace (level : Nat) (field : Text × Json) (rest t : Text) :
    renderField .compact level field ++ rest ≠ '}' :: t := by
  intro h
  cases (List.cons.inj h).1

/-- A field can be told if its value can. -/
theorem Legible.field {level : Nat} {field : Text × Json}
    (hvalue : Legible (render .compact level) field.2) :
    Legible (renderField .compact level) field := by
  intro other rest rest' hrest hrest' h
  have hkey : quote field.1 ++ (':' :: (field.2.render .compact level ++ rest)) =
      quote other.1 ++ (':' :: (other.2.render .compact level ++ rest')) := by
    simpa [renderField, Layout.compact] using h
  obtain ⟨hname, hbehind⟩ := legible_quote _ _ _ _ (endsNumeral_mark rfl _)
    (endsNumeral_mark rfl _) hkey
  obtain ⟨hvalue, hrest⟩ := hvalue _ _ _ hrest hrest' (List.cons.inj hbehind).2
  exact ⟨Prod.ext hname hvalue, hrest⟩

/-- Values that start with different tokens are written differently. -/
theorem head?_written_of_eq {level : Nat} {j k : Json} (hrest : EndsNumeral rest)
    (hrest' : EndsNumeral rest')
    (h : render .compact level j ++ rest = render .compact level k ++ rest') :
    (j.written ++ tokens rest).head? = (k.written ++ tokens rest').head? := by
  rw [← tokens_render Layout.loose_compact level j hrest, h,
    tokens_render Layout.loose_compact level k hrest']

/-- A value on one line can be told from every other. -/
theorem legible_render (level : Nat) (j : Json) : Legible (render .compact level) j := by
  induction j using Json.induction generalizing level with
  | null =>
    intro k rest rest' hrest hrest' h
    have hfirst := head?_written_of_eq hrest hrest' h
    cases k with
    | null => exact ⟨rfl, List.append_cancel_left h⟩
    | _ => simp [written] at hfirst
  | number n =>
    intro k rest rest' hrest hrest' h
    have hfirst := head?_written_of_eq hrest hrest' h
    cases k with
    | number m =>
      obtain ⟨rfl, hrest⟩ := legible_toDigits n m rest rest' hrest hrest' h
      exact ⟨rfl, hrest⟩
    | _ => simp [written] at hfirst
  | text t =>
    intro k rest rest' hrest hrest' h
    have hfirst := head?_written_of_eq hrest hrest' h
    cases k with
    | text u =>
      obtain ⟨rfl, hrest⟩ := legible_quote t u rest rest' hrest hrest' h
      exact ⟨rfl, hrest⟩
    | _ => simp [written] at hfirst
  | array items ih =>
    intro k rest rest' hrest hrest' h
    have hfirst := head?_written_of_eq hrest hrest' h
    cases k with
    | array others =>
      rw [render_compact_array, render_compact_array] at h
      obtain ⟨rfl, hrest⟩ := intercalate_append_inj rfl (by decide)
        (renderItem_ne_bracket (level + 1)) (fun item hitem => ih item hitem (level + 1))
        (List.cons.inj h).2
      exact ⟨rfl, hrest⟩
    | _ => simp [written] at hfirst
  | object fields ih =>
    intro k rest rest' hrest hrest' h
    have hfirst := head?_written_of_eq hrest hrest' h
    cases k with
    | object others =>
      rw [render_compact_object, render_compact_object] at h
      obtain ⟨rfl, hrest⟩ := intercalate_append_inj rfl (by decide)
        (renderField_ne_brace (level + 1))
        (fun field hfield => (ih field hfield (level + 1)).field) (List.cons.inj h).2
      exact ⟨rfl, hrest⟩
    | _ => simp [written] at hfirst

theorem compact_injective : Function.Injective compact := by
  intro j k h
  have hnil : EndsNumeral [] := fun _ hc => by cases hc
  exact (legible_render 0 j k [] [] hnil hnil (congrArg (· ++ []) h)).1

/-! ### Deleting blanks -/

mutual
/-- The text without its blanks, those in quoted texts excepted. -/
def deleteBlanks : Text → Text
  | [] => []
  | '"' :: rest => '"' :: keepQuoted rest
  | c :: rest => if isSpace c then deleteBlanks rest else c :: deleteBlanks rest

/-- The same from the inside of a quoted text on. -/
def keepQuoted : Text → Text
  | [] => []
  | '"' :: rest => '"' :: deleteBlanks rest
  | '\\' :: c :: rest => '\\' :: c :: keepQuoted rest
  | c :: rest => c :: keepQuoted rest
end

theorem keepQuoted_cons (hquote : c ≠ '"') (hescape : c ≠ '\\') (rest : Text) :
    keepQuoted (c :: rest) = c :: keepQuoted rest := by
  rw [keepQuoted.eq_def]
  split <;> simp_all

theorem keepQuoted_append (ht : ∀ c ∈ t, c ≠ '"' ∧ c ≠ '\\') (rest : Text) :
    keepQuoted (t ++ rest) = t ++ keepQuoted rest := by
  induction t with
  | nil => rfl
  | cons c t ih =>
    obtain ⟨hc, ht⟩ := List.forall_mem_cons.1 ht
    rw [List.cons_append, keepQuoted_cons hc.1 hc.2, ih ht, List.cons_append]

theorem digitChar_ne : ∀ n < 16, Nat.digitChar n ≠ '"' ∧ Nat.digitChar n ≠ '\\' := by
  decide

theorem digits_ne {n : Nat} (hn : n < 0x20) :
    ∀ c ∈ ['0', '0', Nat.digitChar (n / 16), Nat.digitChar (n % 16)], c ≠ '"' ∧ c ≠ '\\' := by
  have hhigh := digitChar_ne (n / 16) (by omega)
  have hlow := digitChar_ne (n % 16) (by omega)
  simp [hhigh, hlow]

theorem keepQuoted_escape (c : Char) (rest : Text) :
    keepQuoted (escape c ++ rest) = escape c ++ keepQuoted rest := by
  rcases escape_cases c with hshort | ⟨hcontrol, -, hwritten⟩ | ⟨hquote, hescape, -, hwritten⟩
  · simp only [List.mem_cons, List.not_mem_nil, or_false] at hshort
    rcases hshort with rfl | rfl | rfl | rfl | rfl | rfl | rfl <;> rfl
  · rw [hwritten, List.cons_append, List.cons_append, keepQuoted,
      keepQuoted_append (digits_ne hcontrol)]
    rfl
  · rw [hwritten]
    exact keepQuoted_cons hquote hescape rest

theorem deleteBlanks_quote (t rest : Text) :
    deleteBlanks (quote t ++ rest) = quote t ++ deleteBlanks rest := by
  have hbody : keepQuoted (t.flatMap escape ++ '"' :: rest) =
      t.flatMap escape ++ '"' :: deleteBlanks rest := by
    induction t with
    | nil => rfl
    | cons c t ih =>
      rw [List.flatMap_cons, List.append_assoc, keepQuoted_escape, ih, List.append_assoc]
  have hquote : ∀ rest, quote t ++ rest = '"' :: (t.flatMap escape ++ '"' :: rest) := by
    intro rest
    simp [quote]
  rw [hquote, hquote, deleteBlanks, hbody]

theorem deleteBlanks_cons (hquote : c ≠ '"') (rest : Text) :
    deleteBlanks (c :: rest) = if isSpace c then deleteBlanks rest else c :: deleteBlanks rest := by
  rw [deleteBlanks.eq_def]
  split <;> simp_all

theorem deleteBlanks_spaces (ht : ∀ c ∈ t, isSpace c = true) (rest : Text) :
    deleteBlanks (t ++ rest) = deleteBlanks rest := by
  induction t with
  | nil => rfl
  | cons c t ih =>
    obtain ⟨hc, ht⟩ := List.forall_mem_cons.1 ht
    have hquote : c ≠ '"' := by
      rintro rfl
      cases hc
    rw [List.cons_append, deleteBlanks_cons hquote, if_pos hc, ih ht]

theorem deleteBlanks_append (ht : ∀ c ∈ t, c ≠ '"' ∧ isSpace c = false) (rest : Text) :
    deleteBlanks (t ++ rest) = t ++ deleteBlanks rest := by
  induction t with
  | nil => rfl
  | cons c t ih =>
    obtain ⟨⟨hquote, hc⟩, ht⟩ := List.forall_mem_cons.1 ht
    rw [List.cons_append, deleteBlanks_cons hquote, if_neg (by simp [hc]), ih ht, List.cons_append]

theorem deleteBlanks_toDigits (n : Nat) (rest : Text) :
    deleteBlanks (Nat.toDigits 10 n ++ rest) = Nat.toDigits 10 n ++ deleteBlanks rest := by
  apply deleteBlanks_append
  intro d hd
  have hd : d.isDigit = true := isDigit_of_mem_toDigits hd
  have hne : ∀ e : Char, e.isDigit = false → d ≠ e := fun _ => ne_of_isDigit hd
  exact ⟨hne '"' rfl, by simp [isSpace, hne ' ' rfl, hne '\t' rfl, hne '\n' rfl, hne '\r' rfl]⟩

theorem deleteBlanks_mark (hc : isMark c = true) (rest : Text) :
    deleteBlanks (c :: rest) = c :: deleteBlanks rest := by
  simp only [isMark, Bool.or_eq_true, decide_eq_true_eq] at hc
  rcases hc with ((((rfl | rfl) | rfl) | rfl) | rfl) | rfl <;> rfl

section Lists

variable {f g : α → Text} {xs : List α}

theorem deleteBlanks_further
    (hxs : ∀ x ∈ xs, ∀ rest, deleteBlanks (f x ++ rest) = g x ++ deleteBlanks rest)
    (rest : Text) :
    deleteBlanks (further f xs ++ rest) = further g xs ++ deleteBlanks rest := by
  induction xs with
  | nil => rfl
  | cons x xs ih =>
    obtain ⟨hx, hxs⟩ := List.forall_mem_cons.1 hxs
    have hcons : ∀ (h : α → Text) (rest : Text),
        further h (x :: xs) ++ rest = ',' :: (h x ++ (further h xs ++ rest)) := by
      intro h rest
      simp [further]
    rw [hcons, hcons, deleteBlanks_mark rfl, hx, ih hxs]

/-- Deleting blanks goes through a list into its elements. -/
theorem deleteBlanks_intercalate
    (hxs : ∀ x ∈ xs, ∀ rest, deleteBlanks (f x ++ rest) = g x ++ deleteBlanks rest)
    (rest : Text) :
    deleteBlanks (List.intercalate [','] (xs.map f) ++ rest) =
      List.intercalate [','] (xs.map g) ++ deleteBlanks rest := by
  cases xs with
  | nil => rfl
  | cons x xs =>
    obtain ⟨hx, hxs⟩ := List.forall_mem_cons.1 hxs
    rw [intercalate_map_cons, intercalate_map_cons, List.append_assoc, hx,
      deleteBlanks_further hxs, List.append_assoc]

/-- The brackets stay, and the line break before the second one goes. -/
theorem Layout.Loose.deleteBlanks_brackets (hl : l.Loose) {opening closing : Char}
    (hopening : isMark opening = true) (hclosing : isMark closing = true)
    (hxs : ∀ x ∈ xs, ∀ rest, deleteBlanks (f x ++ rest) = g x ++ deleteBlanks rest)
    (level : Nat) (rest : Text) :
    deleteBlanks (opening :: (List.intercalate [','] (xs.map f) ++
        (l.lineBreak level ++ closing :: rest))) =
      opening :: (List.intercalate [','] (xs.map g) ++ closing :: deleteBlanks rest) := by
  rw [deleteBlanks_mark hopening, deleteBlanks_intercalate hxs,
    deleteBlanks_spaces (hl.lineBreak level), deleteBlanks_mark hclosing]

end Lists

theorem deleteBlanks_renderItem (hl : l.Loose) {level : Nat} {item : Json}
    (h : ∀ rest, deleteBlanks (item.render l level ++ rest) =
      item.render .compact level ++ deleteBlanks rest) (rest : Text) :
    deleteBlanks (renderItem l level item ++ rest) =
      renderItem .compact level item ++ deleteBlanks rest := by
  rw [renderItem, List.append_assoc, deleteBlanks_spaces (hl.lineBreak level), h]
  rfl

theorem deleteBlanks_renderField (hl : l.Loose) {level : Nat} {field : Text × Json}
    (h : ∀ rest, deleteBlanks (field.2.render l level ++ rest) =
      field.2.render .compact level ++ deleteBlanks rest) (rest : Text) :
    deleteBlanks (renderField l level field ++ rest) =
      renderField .compact level field ++ deleteBlanks rest := by
  obtain ⟨gap, hcolon, hgap⟩ := hl.colon
  simp only [renderField, List.append_assoc]
  rw [deleteBlanks_spaces (hl.lineBreak level), deleteBlanks_quote, hcolon, List.cons_append,
    deleteBlanks_mark rfl, deleteBlanks_spaces hgap, h]
  rfl

/-- A value in any loose layout becomes the value on one line. -/
theorem deleteBlanks_render (hl : l.Loose) (level : Nat) (j : Json) (rest : Text) :
    deleteBlanks (j.render l level ++ rest) = j.render .compact level ++ deleteBlanks rest := by
  induction j using Json.induction generalizing level rest with
  | null => rfl
  | number n => exact deleteBlanks_toDigits n rest
  | text t => exact deleteBlanks_quote t rest
  | array items ih =>
    rw [render_compact_array]
    cases items with
    | nil => rfl
    | cons item items =>
      have hrender : render l level (.array (item :: items)) ++ rest =
          '[' :: (List.intercalate [','] ((item :: items).map (renderItem l (level + 1))) ++
            (l.lineBreak level ++ ']' :: rest)) := by
        rw [← renderItems_eq_intercalate]
        simp [render]
      rw [hrender]
      exact hl.deleteBlanks_brackets rfl rfl
        (fun x hx => deleteBlanks_renderItem hl (ih x hx (level + 1))) level rest
  | object fields ih =>
    rw [render_compact_object]
    cases fields with
    | nil => rfl
    | cons field fields =>
      have hrender : render l level (.object (field :: fields)) ++ rest =
          '{' :: (List.intercalate [','] ((field :: fields).map (renderField l (level + 1))) ++
            (l.lineBreak level ++ '}' :: rest)) := by
        rw [← renderFields_eq_intercalate]
        simp [render]
      rw [hrender]
      exact hl.deleteBlanks_brackets rfl rfl
        (fun x hx => deleteBlanks_renderField hl (ih x hx (level + 1))) level rest

theorem deleteBlanks_pretty (j : Json) : deleteBlanks j.pretty = j.compact := by
  have h := deleteBlanks_render Layout.loose_pretty 0 j []
  rwa [deleteBlanks, List.append_nil, List.append_nil] at h

/-- Quoted texts keep their blanks, also behind a quotation mark that does not end them. -/
example : deleteBlanks (pretty (.array [.text "a \" b".toList, .text "\\ ".toList])) =
    "[\"a \\\" b\",\"\\\\ \"]".toList := by
  decide

/-- Many lines tell a value as well as one: without their blanks they are that one. -/
theorem pretty_injective : Function.Injective pretty := by
  intro j k h
  apply compact_injective
  rw [← deleteBlanks_pretty j, h, deleteBlanks_pretty k]

end SassImports.Json
