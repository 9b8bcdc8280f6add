/-
  SassImports/Proofs/Stylesheet/Script.lean
  =========================================
  Import statements as they are written, and read back.  A `Script` is a sequence of import
  statements with everything that an author may put between their parts: blanks of any script,
  block comments, and line comments where a line may end.  Its parts carry the proofs that they
  contain nothing that ends them early, so that every script has a text.

    * `Script.text` is what is written, `Script.bare` the same without comments, and
      `Script.targets` what is imported;
    * `stripComments_text`, `bodies_bare` and `ofBody_bare` follow a script through the three passes
      of the extractor: comments, statements, targets;
    * `importReferences_text`: extraction inverts writing.
-/
import SassImports.Proofs.Stylesheet.Body
import SassImports.Proofs.Stylesheet.Strip
import SassImports.Stylesheet.Import

namespace SassImports.Stylesheet

open Comment (Leaves)
open Statement (Within isGap isEnd)
open Text (isBlank)

namespace Script

/-! ### Gaps -/

/-- Where a gap is: behind the keyword, before a comma or the end of a body, or in a place where
    lines may end, which is after a comma and between statements. -/
inductive Room where
  | keyword
  | inline
  | free
  deriving DecidableEq, Repr

def Room.admits : Room → Char → Bool
  | .keyword, c => isGap c
  | .inline, c => isBlank c && c ≠ '\n'
  | .free, c => isBlank c

/-- A blank or a comment, without the marks around its text. -/
inductive Filler (room : Room) where
  | blank (c : Char) (admitted : room.admits c = true)
  | block (comment : Text) (plain : ¬"*/".toList <:+: comment)
  | line (comment : Text) (plain : '\n' ∉ comment) (free : room = .free)

namespace Filler

variable {room : Room}

def text : Filler room → Text
  | .blank c _ => [c]
  | .block comment _ => "/*".toList ++ comment ++ "*/".toList
  | .line comment _ _ => "//".toList ++ comment ++ ['\n']

def bare : Filler room → Text
  | .blank c _ => [c]
  | .block _ _ => []
  | .line _ _ _ => ['\n']

def isComment : Filler room → Bool
  | .blank _ _ => false
  | _ => true

end Filler

/-- Blanks and comments one after the other. -/
abbrev Gap (room : Room) := List (Filler room)

namespace Gap

variable {room : Room}

def text (g : Gap room) : Text := g.flatMap Filler.text

def bare (g : Gap room) : Text := g.flatMap Filler.bare

end Gap

/-- A gap behind a word.  A comment there has a blank before it: without one the word could end in a
    slash that makes another comment of the two. -/
structure Margin (room : Room) where
  gap : Gap room
  detached : ∀ f ∈ gap.head?, f.isComment = false

/-! ### Items -/

structure Quoted where
  quote : Char
  isQuote : quote = '"' ∨ quote = '\''
  content : Text
  plain : ∀ c ∈ content, isEnd c = false ∧ c ≠ '\n' ∧ c ≠ '\\' ∧ c ≠ quote

structure Unquoted where
  content : Text
  plain : ∀ c ∈ content, isEnd c = false ∧ Target.isUrlChar c = true

inductive Item where
  | string (s : Quoted)
  | url (u : Unquoted)
  | urlString (s : Quoted)

structure Name where
  text : Text
  nonempty : text ≠ []
  plain : ∀ c ∈ text, isEnd c = false ∧ isBlank c = false ∧ c ≠ ',' ∧ c ≠ '"' ∧ c ≠ '\'' ∧
    c ≠ '(' ∧ c ≠ ')'
  noBlock : ¬"/*".toList <:+: text
  noLine : ¬"//".toList <:+: text

def Quoted.text (s : Quoted) : Text := s.quote :: s.content ++ [s.quote]

def Item.text : Item → Text
  | .string s => s.text
  | .url u => "url(".toList ++ u.content ++ [')']
  | .urlString s => "url(".toList ++ s.text ++ [')']

def Item.target : Item → Text
  | .string s | .urlString s => s.content
  | .url u => u.content

/-! ### Lists, statements and scripts -/

/-- Items with commas between them. -/
inductive Listing (ι : Type) where
  | last (item : ι) (margin : Margin .inline)
  | more (item : ι) (margin : Margin .inline) (gap : Gap .free) (rest : Listing ι)

namespace Listing

variable {ι : Type}

def items : Listing ι → List ι
  | .last i _ => [i]
  | .more i _ _ rest => i :: rest.items

def text (item : ι → Text) : Listing ι → Text
  | .last i margin => item i ++ margin.gap.text
  | .more i margin gap rest =>
    item i ++ (margin.gap.text ++ ',' :: (gap.text ++ rest.text item))

def bare (item : ι → Text) : Listing ι → Text
  | .last i margin => item i ++ margin.gap.bare
  | .more i margin gap rest =>
    item i ++ (margin.gap.bare ++ ',' :: (gap.bare ++ rest.bare item))

end Listing

/-- A body names its targets with quotes or `url(...)`, or by bare words. -/
inductive Body where
  | items (list : Listing Item)
  | names (list : Listing Name)

namespace Body

def text : Body → Text
  | .items list => list.text Item.text
  | .names list => list.text Name.text

def bare : Body → Text
  | .items list => list.bare Item.text
  | .names list => list.bare Name.text

def targets : Body → List Text
  | .items list => list.items.map Item.target
  | .names list => list.items.map Name.text

end Body

structure Import where
  lead : Margin .keyword
  spaced : lead.gap ≠ []
  body : Body
  terminator : Char
  ends : terminator = ';' ∨ terminator = '\n'
  gap : Gap .free

namespace Import

def text (i : Import) : Text :=
  Statement.keyword ++
    (i.lead.gap.text ++ (i.body.text ++ i.terminator :: i.gap.text))

def bare (i : Import) : Text :=
  Statement.keyword ++
    (i.lead.gap.bare ++ (i.body.bare ++ i.terminator :: i.gap.bare))

end Import
end Script

/-- Import statements as an author writes them. -/
structure Script where
  lead : Script.Gap .free
  imports : List Script.Import

namespace Script

def text (s : Script) : Text := s.lead.text ++ s.imports.flatMap Import.text

def bare (s : Script) : Text := s.lead.bare ++ s.imports.flatMap Import.bare

def targets (s : Script) : List Text := s.imports.flatMap fun i => i.body.targets

/-! ### Gaps hold blanks -/

variable {room : Room} {c : Char} {rest : Text} {ι : Type} {item : ι → Text}

theorem isBlank_of_admits (h : room.admits c = true) : isBlank c = true := by
  cases room with
  | keyword =>
    simp only [Room.admits, isGap, Bool.or_eq_true, decide_eq_true_eq] at h
    rcases h with rfl | rfl <;> decide
  | inline =>
    simp only [Room.admits, Bool.and_eq_true] at h
    exact h.1
  | free => exact h

theorem Filler.admits_of_mem_bare {f : Filler room} (hc : c ∈ f.bare) : room.admits c = true := by
  cases f with
  | blank d admitted =>
    obtain rfl := List.mem_singleton.1 hc
    exact admitted
  | block comment plain => cases hc
  | line comment plain free =>
    obtain rfl := List.mem_singleton.1 hc
    rw [free]
    decide

theorem Gap.admits_of_mem_bare {g : Gap room} (hc : c ∈ g.bare) : room.admits c = true := by
  obtain ⟨f, -, hc⟩ := List.mem_flatMap.1 hc
  exact f.admits_of_mem_bare hc

theorem Gap.isBlank_of_mem_bare {g : Gap room} (hc : c ∈ g.bare) : isBlank c = true :=
  isBlank_of_admits (g.admits_of_mem_bare hc)

theorem Gap.newline_notMem_bare {g : Gap .inline} : '\n' ∉ g.bare :=
  fun hc => absurd (g.admits_of_mem_bare hc) (by decide)

theorem Margin.eq_nil_or_blank (m : Margin room) :
    m.gap = [] ∨ ∃ c admitted g, m.gap = .blank c admitted :: g := by
  obtain ⟨gap, detached⟩ := m
  cases gap with
  | nil => exact Or.inl rfl
  | cons f g =>
    have hf := detached f rfl
    cases f with
    | blank c admitted => exact Or.inr ⟨c, admitted, g, rfl⟩
    | block => cases hf
    | line => cases hf

theorem Margin.bare_ne_nil (m : Margin room) (h : m.gap ≠ []) : m.gap.bare ≠ [] := by
  rcases m.eq_nil_or_blank with hnil | ⟨c, admitted, g, hgap⟩
  · exact absurd hnil h
  · rw [hgap]
    exact List.cons_ne_nil c _

/-! ### The first pass: comments -/

/-- Nothing that makes a comment of a slash before it. -/
def Apart (rest : Text) : Prop := ∀ c ∈ rest.head?, c ≠ '*' ∧ c ≠ '/'

theorem Filler.leaves (f : Filler room) : Leaves f.text f.bare rest := by
  cases f with
  | blank c admitted =>
    have hne : ∀ d, isBlank d = false → c ≠ d := fun d =>
      ne_of_isBlank (isBlank_of_admits admitted)
    apply Leaves.plain
    · intro d hd
      obtain rfl := List.mem_singleton.1 hd
      exact ⟨hne _ rfl, hne _ rfl, hne _ rfl⟩
    · intro hd
      exact hne '/' rfl (List.mem_singleton.1 hd).symm
  | block comment plain => exact Leaves.block plain
  | line comment plain free => exact Leaves.line plain

theorem Gap.leaves (g : Gap room) : Leaves g.text g.bare rest := by
  induction g with
  | nil => exact Leaves.nil
  | cons f g ih => exact f.leaves.append ih

theorem Margin.apart (m : Margin room) (h : Apart rest) : Apart (m.gap.text ++ rest) := by
  rcases m.eq_nil_or_blank with hnil | ⟨c, admitted, g, hgap⟩
  · rw [hnil]
    exact h
  · rw [hgap]
    intro d hd
    obtain rfl := Option.some.inj hd
    have hblank := isBlank_of_admits admitted
    exact ⟨ne_of_isBlank hblank rfl, ne_of_isBlank hblank rfl⟩

theorem Item.leaves (i : Item) : Leaves i.text i.text rest := by
  have hquoted : ∀ s : Quoted, ∀ c ∈ s.content, c ≠ '\\' ∧ c ≠ s.quote := fun s c hc =>
    (s.plain c hc).2.2
  cases i with
  | string s => exact Leaves.string s.isQuote (hquoted s)
  | url u =>
    apply Leaves.url
    intro c hc
    obtain ⟨hclose, hdouble, hsingle, -⟩ := Target.isUrlChar_iff.1 (u.plain c hc).2
    exact ⟨hdouble, hsingle, hclose⟩
  | urlString s => exact Leaves.urlString s.isQuote (hquoted s)

theorem Name.leaves (n : Name) (h : Apart rest) : Leaves n.text n.text rest := by
  apply Leaves.word _ n.noBlock n.noLine h
  intro c hc
  obtain ⟨-, -, -, hdouble, hsingle, hopen, -⟩ := n.plain c hc
  exact ⟨hdouble, hsingle, hopen⟩

theorem leaves_comma : Leaves [','] [','] rest := Leaves.plain (by simp) (by simp)

theorem Listing.leaves (hitem : ∀ i rest, Apart rest → Leaves (item i) (item i) rest)
    (l : Listing ι) (h : Apart rest) : Leaves (l.text item) (l.bare item) rest := by
  induction l with
  | last i margin => exact (hitem i _ (margin.apart h)).append margin.gap.leaves
  | more i margin gap others ih =>
    apply Leaves.append
    · apply hitem
      rw [List.append_assoc]
      apply margin.apart
      intro d hd
      obtain rfl := Option.some.inj hd
      decide
    · exact margin.gap.leaves.append (leaves_comma.append (gap.leaves.append ih))

theorem Body.leaves (b : Body) (h : Apart rest) : Leaves b.text b.bare rest := by
  cases b with
  | items list => exact list.leaves (fun i _ _ => i.leaves) h
  | names list => exact list.leaves (fun n _ => n.leaves) h

theorem leaves_keyword : Leaves Statement.keyword Statement.keyword rest := by
  have hplain : Statement.keyword.all (fun c => c ≠ '"' ∧ c ≠ '\'' ∧ c ≠ '(') = true := by decide
  exact Leaves.plain (by simpa using hplain) (by decide)

theorem Import.leaves (i : Import) : Leaves i.text i.bare rest := by
  obtain ⟨lead, spaced, body, terminator, ends, gap⟩ := i
  have hterminator : ∀ rest, Leaves [terminator] [terminator] rest := by
    intro rest
    rcases ends with rfl | rfl
    · exact Leaves.plain (by simp) (by simp)
    · exact Leaves.plain (by simp) (by simp)
  have hbody : Apart (terminator :: gap.text ++ rest) := by
    intro d hd
    obtain rfl := Option.some.inj hd
    rcases ends with rfl | rfl <;> decide
  exact leaves_keyword.append
    (lead.gap.leaves.append ((body.leaves hbody).append ((hterminator _).append gap.leaves)))

theorem leaves_imports (is : List Import) :
    Leaves (is.flatMap Import.text) (is.flatMap Import.bare) rest := by
  induction is with
  | nil => exact Leaves.nil
  | cons i is ih => exact i.leaves.append ih

/-- The comments of a script are removed, and nothing else. -/
theorem stripComments_text (s : Script) : stripComments s.text = s.bare := by
  have h : Leaves s.text s.bare [] := s.lead.leaves.append (leaves_imports s.imports)
  have hstrip := h []
  rw [List.append_nil] at hstrip
  rw [stripComments, hstrip]
  exact List.append_nil _

/-! ### The second pass: statements -/

theorem isPlain_quote {quote : Char} (h : quote = '"' ∨ quote = '\'') :
    isEnd quote = false ∧ quote ≠ '\n' ∧ isBlank quote = false ∧ quote ≠ ',' := by
  rcases h with rfl | rfl <;> decide

theorem Quoted.plain_text (s : Quoted) : ∀ c ∈ s.text, isEnd c = false ∧ c ≠ '\n' := by
  obtain ⟨hend, hline, -⟩ := isPlain_quote s.isQuote
  intro c hc
  rcases List.mem_append.1 hc with hc | hc
  · rcases List.mem_cons.1 hc with rfl | hc
    · exact ⟨hend, hline⟩
    · exact ⟨(s.plain c hc).1, (s.plain c hc).2.1⟩
  · obtain rfl := List.mem_singleton.1 hc
    exact ⟨hend, hline⟩

theorem plain_url {t : Text} (h : ∀ c ∈ t, isEnd c = false ∧ c ≠ '\n') :
    ∀ c ∈ "url(".toList ++ t ++ [')'], isEnd c = false ∧ c ≠ '\n' := by
  intro c hc
  rcases List.mem_append.1 hc with hc | hc
  · rcases List.mem_append.1 hc with hc | hc
    · have hname : ∀ c ∈ "url(".toList, isEnd c = false ∧ c ≠ '\n' := by
        simp [isEnd]
      exact hname c hc
    · exact h c hc
  · obtain rfl := List.mem_singleton.1 hc
    decide

theorem Item.within (i : Item) {afterComma : Bool} : Within afterComma i.text false := by
  cases i with
  | string s =>
    obtain ⟨-, -, hblank, hcomma⟩ := isPlain_quote s.isQuote
    exact Statement.within_of_getLast s.plain_text hblank hcomma
  | url u =>
    refine Statement.within_of_getLast (plain_url fun c hc => ?_) (by decide) (by decide)
    obtain ⟨hend, hchar⟩ := u.plain c hc
    obtain ⟨-, -, -, hblank⟩ := Target.isUrlChar_iff.1 hchar
    exact ⟨hend, fun hline => absurd hblank (by rw [hline]; decide)⟩
  | urlString s =>
    exact Statement.within_of_getLast (plain_url s.plain_text) (by decide) (by decide)

theorem Name.within (n : Name) {afterComma : Bool} : Within afterComma n.text false := by
  have hplain : ∀ c ∈ n.text, isEnd c = false ∧ c ≠ '\n' := by
    intro c hc
    obtain ⟨hend, hblank, -⟩ := n.plain c hc
    exact ⟨hend, fun hline => absurd hblank (by rw [hline]; decide)⟩
  obtain ⟨t, c, ht⟩ := (List.eq_nil_or_concat n.text).resolve_left n.nonempty
  rw [List.concat_eq_append] at ht
  obtain ⟨-, hblank, hcomma, -⟩ := n.plain c (by rw [ht]; simp)
  rw [ht] at hplain ⊢
  exact Statement.within_of_getLast hplain hblank hcomma

theorem Listing.within (hitem : ∀ i afterComma, Within afterComma (item i) false)
    (l : Listing ι) (afterComma : Bool) : Within afterComma (l.bare item) false := by
  have hmargin : ∀ margin : Margin .inline, Within false margin.gap.bare false := fun margin =>
    Statement.within_blanks (fun _ => margin.gap.isBlank_of_mem_bare)
      fun hline => absurd hline Gap.newline_notMem_bare
  induction l generalizing afterComma with
  | last i margin => exact (hitem i afterComma).append (hmargin margin)
  | more i margin gap rest ih =>
    -- the gap comes after a comma, where lines may end
    have hgap : Within true gap.bare true :=
      Statement.within_blanks (fun _ => gap.isBlank_of_mem_bare) fun _ => rfl
    exact (hitem i afterComma).append
      ((hmargin margin).append (Statement.within_comma.append (hgap.append (ih true))))

theorem Listing.exists_head (hitem : ∀ i, ∃ c t, item i = c :: t ∧ isBlank c = false)
    (l : Listing ι) : ∃ c t, l.bare item = c :: t ∧ isBlank c = false := by
  cases l with
  | last i margin =>
    obtain ⟨c, t, hi, hc⟩ := hitem i
    exact ⟨c, t ++ margin.gap.bare, by rw [Listing.bare, hi]; rfl, hc⟩
  | more i margin gap rest =>
    obtain ⟨c, t, hi, hc⟩ := hitem i
    exact ⟨c, _, by rw [Listing.bare, hi]; rfl, hc⟩

theorem Item.exists_head (i : Item) : ∃ c t, i.text = c :: t ∧ isBlank c = false := by
  cases i with
  | string s => exact ⟨_, _, rfl, (isPlain_quote s.isQuote).2.2.1⟩
  | url u => exact ⟨'u', _, rfl, by decide⟩
  | urlString s => exact ⟨'u', _, rfl, by decide⟩

theorem Name.exists_head (n : Name) : ∃ c t, n.text = c :: t ∧ isBlank c = false := by
  obtain ⟨c, t, ht⟩ := List.exists_cons_of_ne_nil n.nonempty
  exact ⟨c, t, ht, (n.plain c (by rw [ht]; exact List.mem_cons_self)).2.1⟩

theorem Body.within (b : Body) : Within false b.bare false := by
  cases b with
  | items list => exact list.within (fun i _ => i.within) false
  | names list => exact list.within (fun n _ => n.within) false

theorem Body.exists_head (b : Body) : ∃ c t, b.bare = c :: t ∧ isBlank c = false := by
  cases b with
  | items list => exact list.exists_head Item.exists_head
  | names list => exact list.exists_head Name.exists_head

theorem bodies_gap (g : Gap room) (rest : Text) :
    Statement.bodies (g.bare ++ rest) = Statement.bodies rest :=
  Statement.bodies_append (fun _ hc => ne_of_isBlank (g.isBlank_of_mem_bare hc) rfl) rest

theorem Import.bodies_bare (i : Import) (rest : Text) :
    Statement.bodies (i.bare ++ rest) = i.body.bare :: Statement.bodies rest := by
  obtain ⟨c, t, hbare, hc⟩ := i.body.exists_head
  have hgap : isGap c = false := by
    apply Bool.eq_false_iff.2
    intro h
    rw [@isBlank_of_admits .keyword c h] at hc
    cases hc
  have hbodies := Statement.bodies_of_within (i.lead.bare_ne_nil i.spaced)
    (fun _ => i.lead.gap.admits_of_mem_bare) (by rw [hbare]; simpa using hgap) i.body.within
    (by rw [hbare]; exact List.cons_ne_nil c t) i.ends (i.gap.bare ++ rest)
  rw [bodies_gap] at hbodies
  rw [Import.bare]
  simpa using hbodies

/-- Every statement is found with its whole body. -/
theorem bodies_bare (s : Script) :
    Statement.bodies s.bare = s.imports.map fun i => i.body.bare := by
  have himports : ∀ is : List Import,
      Statement.bodies (is.flatMap Import.bare) = is.map fun i => i.body.bare := by
    intro is
    induction is with
    | nil => exact Statement.bodies_nil
    | cons i is ih => rw [List.flatMap_cons, i.bodies_bare, ih, List.map_cons]
  rw [bare, bodies_gap, himports]

/-! ### The third pass: targets -/

theorem Item.target?_text (i : Item) (rest : Text) :
    Target.target? (i.text ++ rest) = some (i.target, rest) := by
  have hquoted : ∀ s : Quoted, ∀ c ∈ s.content, c ≠ s.quote := fun s c hc =>
    (s.plain c hc).2.2.2
  cases i with
  | string s => exact Target.target?_string s.isQuote (hquoted s) rest
  | url u =>
    show Target.target? ("url(".toList ++ u.content ++ [')'] ++ rest) = some (u.content, rest)
    rw [List.append_assoc, List.append_assoc]
    exact Target.target?_url (fun c hc => (u.plain c hc).2) rest
  | urlString s =>
    show Target.target? ("url(".toList ++ s.text ++ [')'] ++ rest) = some (s.content, rest)
    rw [List.append_assoc, List.append_assoc]
    exact Target.target?_urlString s.isQuote (hquoted s) rest

theorem quotedTargets_gap (g : Gap room) (rest : Text) :
    Target.quotedTargets (g.bare ++ rest) = Target.quotedTargets rest := by
  apply Target.quotedTargets_append
  intro c hc
  have hblank := g.isBlank_of_mem_bare hc
  exact ⟨ne_of_isBlank hblank rfl, ne_of_isBlank hblank rfl, ne_of_isBlank hblank rfl⟩

theorem quotedTargets_items (l : Listing Item) :
    Target.quotedTargets (l.bare Item.text) = l.items.map Item.target := by
  induction l with
  | last i margin =>
    have hmargin := quotedTargets_gap margin.gap []
    rw [List.append_nil, @Target.quotedTargets_of_plain [] (by simp)] at hmargin
    rw [Listing.bare, Target.quotedTargets_of_target (i.target?_text _), hmargin]
    rfl
  | more i margin gap rest ih =>
    have hcomma : Target.quotedTargets (',' :: (gap.bare ++ rest.bare Item.text)) =
        Target.quotedTargets (gap.bare ++ rest.bare Item.text) :=
      Target.quotedTargets_cons_of_none rfl
    rw [Listing.bare, Target.quotedTargets_of_target (i.target?_text _), quotedTargets_gap, hcomma,
      quotedTargets_gap, ih]
    rfl

theorem Listing.forall_mem_bare {p : Char → Prop} (hitem : ∀ i, ∀ c ∈ item i, p c)
    (hcomma : p ',') (hblank : ∀ c, isBlank c = true → p c) (l : Listing ι) :
    ∀ c ∈ l.bare item, p c := by
  have hgap : ∀ {room : Room} (g : Gap room), ∀ c ∈ g.bare, p c := fun g c hc =>
    hblank c (g.isBlank_of_mem_bare hc)
  induction l with
  | last i margin => exact List.forall_mem_append.2 ⟨hitem i, hgap margin.gap⟩
  | more i margin gap rest ih =>
    have hrest := List.forall_mem_cons.2 ⟨hcomma, List.forall_mem_append.2 ⟨hgap gap, ih⟩⟩
    exact List.forall_mem_append.2 ⟨hitem i, List.forall_mem_append.2 ⟨hgap margin.gap, hrest⟩⟩

/-- Here the list stands behind the blanks that are left of the gap before it. -/
theorem bareTargets_names (l : Listing Name) {lead : Text} (hlead : ∀ c ∈ lead, isBlank c = true) :
    Target.bareTargets (lead ++ l.bare Name.text) = l.items.map Name.text := by
  have hpiece : ∀ (lead : Text) (n : Name) (margin : Margin .inline),
      (∀ c ∈ lead, isBlank c = true) → ',' ∉ lead ++ (n.text ++ margin.gap.bare) ∧
        Text.firstWord? (lead ++ (n.text ++ margin.gap.bare)) = some n.text := by
    intro lead n margin hlead
    have hmargin : ∀ c ∈ margin.gap.bare, isBlank c = true := fun _ =>
      margin.gap.isBlank_of_mem_bare
    constructor
    · intro hcomma
      rcases List.mem_append.1 hcomma with hcomma | hcomma
      · exact absurd (hlead _ hcomma) (by decide)
      · rcases List.mem_append.1 hcomma with hcomma | hcomma
        · exact (n.plain _ hcomma).2.2.1 rfl
        · exact absurd (hmargin _ hcomma) (by decide)
    · exact Target.firstWord?_append hlead n.nonempty (fun c hc => (n.plain c hc).2.1)
        fun c hc => hmargin c (List.mem_of_mem_head? hc)
  induction l generalizing lead with
  | last n margin =>
    obtain ⟨hcomma, hword⟩ := hpiece lead n margin hlead
    rw [Listing.bare, Target.bareTargets_of_notMem hcomma, hword]
    rfl
  | more n margin gap rest ih =>
    obtain ⟨hcomma, hword⟩ := hpiece lead n margin hlead
    have hsplit := Target.bareTargets_cons hcomma (gap.bare ++ rest.bare Name.text)
    rw [hword, ih fun _ => gap.isBlank_of_mem_bare] at hsplit
    rw [Listing.bare, Listing.items, List.map_cons]
    simpa using hsplit

theorem quotedTargets_names (l : Listing Name) :
    Target.quotedTargets (l.bare Name.text) = [] := by
  apply Target.quotedTargets_of_plain
  refine Listing.forall_mem_bare (p := fun c => c ≠ '"' ∧ c ≠ '\'' ∧ c ≠ '(') ?_ ?_ ?_ l
  · intro n c hc
    obtain ⟨-, -, -, hdouble, hsingle, hopen, -⟩ := n.plain c hc
    exact ⟨hdouble, hsingle, hopen⟩
  · decide
  · intro c hc
    exact ⟨ne_of_isBlank hc rfl, ne_of_isBlank hc rfl, ne_of_isBlank hc rfl⟩

/-- A body is read as what it names. -/
theorem Body.ofBody_bare (b : Body) : Target.ofBody b.bare = b.targets := by
  cases b with
  | items list =>
    rw [Body.bare, Target.ofBody, quotedTargets_items, Body.targets]
    cases list <;> rfl
  | names list =>
    rw [Body.bare, Target.ofBody, quotedTargets_names]
    exact @bareTargets_names list [] (by simp)

/-- **Extraction inverts writing.**  The references of a script are its targets in order, without
    empty ones and without repetitions. -/
theorem importReferences_text (s : Script) :
    importReferences s.text = (s.targets.filter (!·.isEmpty)).eraseDups := by
  have htargets : Stylesheet.targets s.bare = s.targets := by
    rw [Stylesheet.targets, bodies_bare, List.flatMap_map]
    unfold Script.targets
    congr
    funext i
    exact i.body.ofBody_bare
  rw [importReferences, stripComments_text, htargets]

/-- A list that goes on behind a comment, and a target that looks like one. -/
example : ∃ s : Script, s.text = "@import 'a' , // b\n url(c//d);".toList ∧
    s.targets = ["a".toList, "c//d".toList] :=
  ⟨⟨[], [⟨⟨[.blank ' ' rfl], by decide⟩, by decide,
    .items (.more (.string ⟨'\'', .inr rfl, "a".toList, by simp [isEnd]⟩)
      ⟨[.blank ' ' rfl], by decide⟩
      [.blank ' ' rfl, .line " b".toList (by decide) rfl, .blank ' ' rfl]
      (.last (.url ⟨"c//d".toList, by simp [isEnd, Target.isUrlChar, isBlank, Text.blankRanges]⟩)
        ⟨[], by decide⟩)),
    ';', .inl rfl, []⟩]⟩, by decide, by decide⟩

end Script
end SassImports.Stylesheet
