/-
  SassImports/Proofs/Resolve/Candidates.lean
  ==========================================
  The candidates of a reference as paths below a directory.  A reference is cut into what stands
  before its base name, the base name, and slashes at its end; a partial has an underscore before the
  base name and no slashes behind it, and what stands before it leads to the same directory.

    * `Cut.toPartial_text` and `Cut.hasExtension_text`: partial and extension of a reference in
      pieces;
    * `components_placeIn`: the components of a place are those of the directory and of the candidate;
    * `nodup_fileNames`: the candidates of a reference have different file names;
    * `candidates_paired`: plain names and their partials come in pairs, side by side in one
      directory.
-/
import Mathlib.Data.List.Nodup
import SassImports.Proofs.Path.Components
import SassImports.Proofs.Resolve.Spelling

namespace SassImports

/-! ### Texts cut at the end -/

namespace Text

variable {c : Char} {t u : Text}

theorem splitLast?_append (h : c ∉ u) : splitLast? c (t ++ c :: u) = some (t, u) := by
  induction t with
  | nil => simp [splitLast?, splitLast?_eq_none_iff.2 h]
  | cons d t ih => rw [List.cons_append, splitLast?, ih]

theorem trimEnd_append_replicate (h : t.getLast? ≠ some c) (n : Nat) :
    trimEnd c (t ++ List.replicate n c) = t := by
  have hhead : t.reverse.dropWhile (· = c) = t.reverse := by
    cases ht : t.reverse with
    | nil => rfl
    | cons d u =>
      have hd : d ≠ c := by
        rintro rfl
        exact h (by rw [List.getLast?_eq_head?_reverse, ht]; rfl)
      rw [List.dropWhile_cons_of_neg (by simpa using hd)]
  rw [trimEnd, List.reverse_append, List.reverse_replicate,
    List.dropWhile_append_of_pos (by simp), hhead, List.reverse_reverse]

theorem exists_append_replicate (c : Char) (t : Text) :
    ∃ (u : Text) (n : Nat), t = u ++ List.replicate n c ∧ u.getLast? ≠ some c := by
  have hrun : t.reverse.takeWhile (· = c) =
      List.replicate (t.reverse.takeWhile (· = c)).length c := by
    refine List.eq_replicate_iff.2 ⟨rfl, fun d hd => ?_⟩
    simpa using List.all_eq_true.1 List.all_takeWhile d hd
  refine ⟨trimEnd c t, (t.reverse.takeWhile (· = c)).length, ?_, fun hlast => ?_⟩
  · rw [trimEnd, ← List.reverse_replicate, ← hrun, ← List.reverse_append,
      List.takeWhile_append_dropWhile, List.reverse_reverse]
  · rw [trimEnd, List.getLast?_reverse] at hlast
    have hhead := List.head?_dropWhile_not (· = c) t.reverse
    rw [hlast] at hhead
    simp at hhead

end Text

/-! ### Parts of a reference -/

namespace Reference

/-! Of a base name alone. -/

def HasExtension (base : Text) : Prop :=
  ∃ stem extension : Text, base = stem ++ '.' :: extension ∧ extension ≠ [] ∧ '.' ∉ extension

section BaseName

variable {directory? : Option Text} {base : Text}

theorem directory?_ofBaseName : (Parts.ofBaseName directory? base).directory? = directory? := by
  unfold Parts.ofBaseName
  split <;> rfl

theorem stem_append_extensionText :
    (Parts.ofBaseName directory? base).stem ++
      (Parts.ofBaseName directory? base).extensionText = base := by
  unfold Parts.ofBaseName
  split
  · next h => exact (Text.splitLast?_eq_some h).1.symm
  · exact List.append_nil base

theorem hasExtension_ofBaseName :
    (Parts.ofBaseName directory? base).hasExtension = true ↔ HasExtension base := by
  unfold Parts.ofBaseName
  constructor
  · intro h
    split at h
    · next stem extension hsplit =>
      obtain ⟨hbase, hdot⟩ := Text.splitLast?_eq_some hsplit
      exact ⟨stem, extension, hbase, by simpa [Parts.hasExtension] using h, hdot⟩
    · cases h
  · rintro ⟨stem, extension, rfl, hne, hdot⟩
    rw [Text.splitLast?_append hdot]
    simpa [Parts.hasExtension] using hne

end BaseName

/-- A reference in pieces: what stands before its base name, the base name, and the number of slashes
    at its end.  Without a base name nothing stands before it. -/
structure Cut where
  lead : Text
  base : Text
  slashes : Nat
  lead_ends : lead = [] ∨ ∃ t : Text, lead = t ++ ['/']
  slash_notMem : '/' ∉ base
  lead_eq_nil : base = [] → lead = []

namespace Cut

variable {extension : Text}

def text (k : Cut) : Reference := k.lead ++ k.base ++ List.replicate k.slashes '/'

/-- What stands before the base name of the partial: a dot alone is left out, and of two slashes one
    is enough. -/
def partialLead (k : Cut) : Text :=
  if k.lead = ['.', '/'] then [] else if k.lead = ['/', '/'] then ['/'] else k.lead

theorem getLast?_ne (k : Cut) : (k.lead ++ k.base).getLast? ≠ some '/' := by
  intro h
  by_cases hbase : k.base = []
  · simp [hbase, k.lead_eq_nil hbase] at h
  · rw [List.getLast?_append_of_ne_nil _ hbase] at h
    exact k.slash_notMem (List.mem_of_getLast? h)

theorem exists_ofReference (k : Cut) : ∃ directory?,
    Parts.ofReference k.text = .ofBaseName directory? k.base ∧
      ∀ parts : Parts, parts.directory? = directory? → parts.directoryText = k.partialLead := by
  have htrim : Text.trimEnd '/' k.text = k.lead ++ k.base :=
    Text.trimEnd_append_replicate k.getLast?_ne k.slashes
  unfold Parts.ofReference Parts.directoryText partialLead
  rw [htrim]
  dsimp only
  rcases k.lead_ends with hlead | ⟨t, hlead⟩
  · rw [hlead, List.nil_append, Text.splitLast?_eq_none_iff.2 k.slash_notMem]
    exact ⟨none, rfl, fun parts h => by rw [h]; rfl⟩
  · rw [hlead, List.append_assoc, List.singleton_append, Text.splitLast?_append k.slash_notMem]
    by_cases hnil : t = []
    · subst hnil
      exact ⟨some ['/'], rfl, fun parts h => by rw [h]; rfl⟩
    by_cases hdot : t = ['.']
    · subst hdot
      exact ⟨none, rfl, fun parts h => by rw [h]; rfl⟩
    refine ⟨some t, ?_, fun parts h => ?_⟩
    · split <;> simp_all
    · rw [h]
      by_cases hslash : t = ['/']
      · subst hslash
        rfl
      · have hone : t ++ ['/'] ≠ ['.', '/'] := fun heq => hdot (List.append_inj_left' heq rfl)
        have hboth : t ++ ['/'] ≠ ['/', '/'] := fun heq => hslash (List.append_inj_left' heq rfl)
        rw [if_neg hone, if_neg hboth]
        split <;> simp_all

theorem toPartial_text (k : Cut) : toPartial k.text = k.partialLead ++ '_' :: k.base := by
  obtain ⟨directory?, hparts, hdirectory⟩ := k.exists_ofReference
  rw [toPartial, hparts, hdirectory _ directory?_ofBaseName, List.append_assoc, List.cons_append,
    stem_append_extensionText]

theorem hasExtension_text (k : Cut) :
    (Parts.ofReference k.text).hasExtension = true ↔ HasExtension k.base := by
  obtain ⟨directory?, hparts, -⟩ := k.exists_ofReference
  rw [hparts, hasExtension_ofBaseName]

/-- The reference with a dot and an extension behind it: they make a base name of their own where it
    ends in slashes. -/
def withExtension (k : Cut) (extension : Text) (h : '/' ∉ extension) : Cut where
  lead := if k.slashes = 0 then k.lead else k.text
  base := (if k.slashes = 0 then k.base else []) ++ '.' :: extension
  slashes := 0
  lead_ends := by
    split
    · exact k.lead_ends
    · next hslashes =>
      obtain ⟨n, hn⟩ := Nat.exists_eq_succ_of_ne_zero hslashes
      exact .inr ⟨k.lead ++ k.base ++ List.replicate n '/', by simp [text, hn, List.replicate_succ']⟩
  slash_notMem := by
    have hbase := k.slash_notMem
    split <;> simp [h, hbase]
  lead_eq_nil := by simp

theorem text_withExtension (k : Cut) (h : '/' ∉ extension) :
    (k.withExtension extension h).text = k.text ++ '.' :: extension := by
  by_cases hslashes : k.slashes = 0
  · simp [text, withExtension, hslashes]
  · simp [text, withExtension, hslashes]

def toPartial (k : Cut) : Cut where
  lead := k.partialLead
  base := '_' :: k.base
  slashes := 0
  lead_ends := by
    unfold partialLead
    split
    · exact .inl rfl
    · split
      · exact .inr ⟨[], rfl⟩
      · exact k.lead_ends
  slash_notMem := by simp [k.slash_notMem]
  lead_eq_nil := by simp

theorem text_toPartial (k : Cut) : k.toPartial.text = Reference.toPartial k.text := by
  rw [toPartial_text]
  simp [text, toPartial]

end Cut

theorem exists_cut (r : Reference) : ∃ k : Cut, k.text = r := by
  obtain ⟨t, n, rfl, hlast⟩ := Text.exists_append_replicate '/' r
  cases hsplit : Text.splitLast? '/' t with
  | none => exact ⟨⟨[], t, n, .inl rfl, Text.splitLast?_eq_none_iff.1 hsplit, fun _ => rfl⟩, rfl⟩
  | some p =>
    obtain ⟨before, base⟩ := p
    obtain ⟨rfl, hslash⟩ := Text.splitLast?_eq_some hsplit
    refine ⟨⟨before ++ ['/'], base, n, .inr ⟨before, rfl⟩, hslash, fun hnil => ?_⟩, ?_⟩
    · simp [hnil] at hlast
    · simp [Cut.text]

/-- The last segment of the reference has an extension that is not empty; slashes at the end do not
    count. -/
def Extended (r : Reference) : Prop :=
  ∃ (before extension : Text) (slashes : Nat),
    r = before ++ '.' :: extension ++ List.replicate slashes '/' ∧ extension ≠ [] ∧
      '.' ∉ extension ∧ '/' ∉ extension

theorem hasExtension_iff (r : Reference) :
    (Parts.ofReference r).hasExtension = true ↔ Extended r := by
  constructor
  · intro h
    obtain ⟨k, rfl⟩ := exists_cut r
    obtain ⟨stem, extension, hbase, hne, hdot⟩ := k.hasExtension_text.1 h
    refine ⟨k.lead ++ stem, extension, k.slashes, by simp [Cut.text, hbase], hne, hdot, ?_⟩
    intro hslash
    exact k.slash_notMem (by simp [hbase, hslash])
  · rintro ⟨before, extension, n, rfl, hne, hdot, hslash⟩
    obtain ⟨k, rfl⟩ := exists_cut before
    have htext : { k.withExtension extension hslash with slashes := n }.text =
        k.text ++ '.' :: extension ++ List.replicate n '/' := by
      rw [← k.text_withExtension hslash]
      simp [Cut.text, Cut.withExtension]
    rw [← htext, Cut.hasExtension_text]
    exact ⟨_, extension, rfl, hne, hdot⟩

end Reference

/-! ### Components below a directory -/

namespace Path

variable {p : Path} {n : Text}

/-- What the pieces of a text stand for, below a directory. -/
def componentsBelow (t : Text) : List Component :=
  (t.splitOn '/').filterMap Component.ofSegment?

theorem componentsBelow_append_slash (t u : Text) :
    componentsBelow (t ++ '/' :: u) = componentsBelow t ++ componentsBelow u := by
  rw [componentsBelow, List.splitOn_append_cons_self, List.filterMap_append]
  rfl

theorem componentsBelow_lead_append {lead : Text} (h : lead = [] ∨ ∃ t : Text, lead = t ++ ['/'])
    (t : Text) : componentsBelow (lead ++ t) = componentsBelow lead ++ componentsBelow t := by
  rcases h with rfl | ⟨u, rfl⟩
  · rfl
  · have hlead : componentsBelow (u ++ ['/']) = componentsBelow u := by
      rw [componentsBelow_append_slash]
      exact List.append_nil _
    rw [hlead, List.append_assoc]
    exact componentsBelow_append_slash u t

theorem componentsBelow_append_replicate (t : Text) (n : Nat) :
    componentsBelow (t ++ List.replicate n '/') = componentsBelow t := by
  induction n generalizing t with
  | zero => rw [List.replicate_zero, List.append_nil]
  | succ n ih =>
    have hone : t ++ List.replicate (n + 1) '/' = t ++ ['/'] ++ List.replicate n '/' := by
      simp [List.replicate_succ]
    rw [hone, ih, componentsBelow_append_slash]
    exact List.append_nil _

theorem componentsBelow_trimStart (t : Text) :
    componentsBelow (Text.trimStart '/' t) = componentsBelow t := by
  induction t with
  | nil => rfl
  | cons c t ih =>
    by_cases hc : c = '/'
    · subst hc
      exact ih.trans (componentsBelow_append_slash [] t).symm
    · rw [Text.trimStart, List.dropWhile_cons_of_neg (by simpa using hc)]

theorem componentsBelow_of_isName (h : IsName n) : componentsBelow n = [.name n] := by
  rw [componentsBelow, List.splitOn_eq_singleton h.2, List.filterMap_cons_some h.1]
  rfl

theorem isName_of_ne (hne : n ≠ []) (hdot : n ≠ ['.']) (hup : n ≠ ['.', '.']) (hslash : '/' ∉ n) :
    IsName n := by
  refine ⟨?_, hslash⟩
  unfold Component.ofSegment?
  split <;> simp_all

theorem fileName?_eq_some {above : List Component} (h : p.components = above ++ [.name n]) :
    p.fileName? = some n := by
  rw [fileName?, h, List.getLast?_concat]

end Path

section Places

variable {directory : Path} {candidate : Reference} {k : Reference.Cut} {extension : Text}

theorem components_placeIn (hdirectory : directory.text ≠ []) (candidate : Reference) :
    (placeIn directory candidate).components =
      directory.components ++ Path.componentsBelow candidate := by
  rw [placeIn, Path.components_join hdirectory (isAbsolute_trimStart candidate),
    ← Path.componentsBelow_trimStart candidate]
  rfl

theorem components_placeIn_text (hdirectory : directory.text ≠ []) (h : Path.IsName k.base) :
    (placeIn directory k.text).components =
      directory.components ++ Path.componentsBelow k.lead ++ [.name k.base] := by
  rw [components_placeIn hdirectory, Reference.Cut.text, Path.componentsBelow_append_replicate,
    Path.componentsBelow_lead_append k.lead_ends, Path.componentsBelow_of_isName h,
    List.append_assoc]

end Places

namespace Reference

variable {directory : Path} {k : Cut} {extension : Text}

theorem isName_of_hasExtension (h : HasExtension k.base) : Path.IsName k.base := by
  obtain ⟨stem, extension, hbase, hne, hdot⟩ := h
  -- an extension has a character that is no dot
  obtain ⟨c, hc⟩ := List.exists_mem_of_ne_nil extension hne
  have hmem : c ∈ k.base := by simp [hbase, hc]
  have hcdot : c ≠ '.' := ne_of_mem_of_not_mem hc hdot
  refine Path.isName_of_ne (List.ne_nil_of_mem hmem) ?_ ?_ k.slash_notMem <;>
    · intro h
      rw [h] at hmem
      simp [hcdot] at hmem

theorem isName_cons_underscore (k : Cut) : Path.IsName ('_' :: k.base) :=
  Path.isName_of_ne (by simp) (by simp) (by simp) (by simp [k.slash_notMem])

theorem componentsBelow_partialLead (k : Cut) :
    Path.componentsBelow k.partialLead = Path.componentsBelow k.lead := by
  unfold Cut.partialLead
  split
  · next h =>
    rw [h]
    rfl
  · split
    · next h =>
      rw [h]
      rfl
    · rfl

/-- The partial lies beside the plain name. -/
theorem components_placeIn_toPartial (hdirectory : directory.text ≠ []) (k : Cut) :
    (placeIn directory (toPartial k.text)).components =
      directory.components ++ Path.componentsBelow k.lead ++ [.name ('_' :: k.base)] := by
  rw [← k.text_toPartial, components_placeIn_text hdirectory (isName_cons_underscore k)]
  show _ ++ Path.componentsBelow k.partialLead ++ _ = _
  rw [componentsBelow_partialLead]
  rfl

theorem toPartial_withExtension (h : k.slashes = 0) (hslash : '/' ∉ extension) :
    toPartial (k.text ++ '.' :: extension) = toPartial k.text ++ '.' :: extension := by
  rw [← k.text_withExtension hslash, Cut.toPartial_text, Cut.toPartial_text]
  simp [Cut.partialLead, Cut.withExtension, h]

/-! ### File names -/

theorem styleExtensions_plain {extension : Text} (h : extension ∈ styleExtensions) :
    extension ≠ [] ∧ '.' ∉ extension ∧ '/' ∉ extension := by
  revert extension
  decide

theorem fileName?_withExtension (hdirectory : directory.text ≠ []) (k : Cut)
    (h : extension ∈ styleExtensions) :
    (placeIn directory (k.text ++ '.' :: extension)).fileName? =
      some ((if k.slashes = 0 then k.base else []) ++ '.' :: extension) := by
  obtain ⟨hne, hdot, hslash⟩ := styleExtensions_plain h
  have hname : Path.IsName (k.withExtension extension hslash).base :=
    isName_of_hasExtension ⟨_, extension, rfl, hne, hdot⟩
  rw [← k.text_withExtension hslash]
  exact Path.fileName?_eq_some (components_placeIn_text hdirectory hname)

theorem styleExtensions_eq : styleExtensions = [['s', 'c', 's', 's'], ['s', 'a', 's', 's']] := by
  simp [styleExtensions]

theorem nodup_withExtensions {n m : Text} (h : n ≠ m) :
    (withExtensions n ++ withExtensions m).Nodup := by
  have hne : ∀ t u : Text, t ++ ['.', 's', 'c', 's', 's'] ≠ u ++ ['.', 's', 'a', 's', 's'] :=
    fun t u heq => absurd (List.append_inj_right' heq rfl) (by decide)
  have hne' : ∀ t u : Text, t ++ ['.', 's', 'a', 's', 's'] ≠ u ++ ['.', 's', 'c', 's', 's'] :=
    fun t u heq => hne u t heq.symm
  unfold withExtensions
  simp only [styleExtensions_eq, List.map_cons, List.map_nil, List.cons_append, List.nil_append,
    List.nodup_cons, List.mem_cons, List.append_left_inj, List.not_mem_nil, hne, hne', h, or_self,
    not_false_eq_true, List.nodup_nil, and_self]

/-- The candidates of a reference have different file names. -/
theorem nodup_fileNames (hdirectory : directory.text ≠ []) (r : Reference) :
    ((candidates r).map fun c => (placeIn directory c).fileName?).Nodup := by
  obtain ⟨k, rfl⟩ := exists_cut r
  unfold candidates
  split
  · next h =>
    have hname := isName_of_hasExtension (k.hasExtension_text.1 h)
    have hplain := Path.fileName?_eq_some (components_placeIn_text hdirectory hname)
    have hpartial := Path.fileName?_eq_some (components_placeIn_toPartial hdirectory k)
    simp [hplain, hpartial]
  · have hplain : (withExtensions k.text).map (fun c => (placeIn directory c).fileName?) =
        (withExtensions (if k.slashes = 0 then k.base else [])).map some := by
      rw [withExtensions, withExtensions, List.map_map, List.map_map]
      exact List.map_congr_left fun extension h => fileName?_withExtension hdirectory k h
    have hpartial : (withExtensions (toPartial k.text)).map
        (fun c => (placeIn directory c).fileName?) = (withExtensions ('_' :: k.base)).map some := by
      rw [withExtensions, withExtensions, List.map_map, List.map_map, ← k.text_toPartial]
      exact List.map_congr_left fun extension h => fileName?_withExtension hdirectory k.toPartial h
    have hne : (if k.slashes = 0 then k.base else []) ≠ '_' :: k.base := by
      split
      · exact fun h => absurd (congrArg List.length h) (by simp)
      · exact (List.cons_ne_nil _ _).symm
    rw [List.map_append, hplain, hpartial, ← List.map_append]
    exact (nodup_withExtensions hne).map fun _ _ => Option.some.inj

/-! ### Pairs -/

theorem candidates_of_extended {r : Reference} (h : Extended r) :
    candidates r = [r, toPartial r] :=
  if_pos ((hasExtension_iff r).2 h)

theorem candidates_of_not_extended {r : Reference} (h : ¬Extended r) :
    candidates r = withExtensions r ++ withExtensions (toPartial r) :=
  if_neg (mt (hasExtension_iff r).1 h)

theorem extended_of_mem_withExtensions {r c : Reference} (h : c ∈ withExtensions r) :
    Extended c := by
  obtain ⟨extension, hextension, rfl⟩ := List.mem_map.1 h
  obtain ⟨hne, hdot, hslash⟩ := styleExtensions_plain hextension
  exact ⟨r, extension, 0, (List.append_nil _).symm, hne, hdot, hslash⟩

theorem extended_toPartial {r : Reference} (h : Extended r) : Extended (toPartial r) := by
  obtain ⟨k, rfl⟩ := exists_cut r
  obtain ⟨stem, extension, hbase, hne, hdot⟩ := k.hasExtension_text.1 ((hasExtension_iff _).2 h)
  rw [← k.text_toPartial, ← hasExtension_iff, Cut.hasExtension_text]
  exact ⟨'_' :: stem, extension, congrArg ('_' :: ·) hbase, hne, hdot⟩

/-- What is looked for has an extension, whatever the reference is. -/
theorem extended_of_mem_candidates {r c : Reference} (h : c ∈ candidates r) : Extended c := by
  by_cases hr : Extended r
  · rw [candidates_of_extended hr, List.mem_pair] at h
    rcases h with rfl | rfl
    · exact hr
    · exact extended_toPartial hr
  · rw [candidates_of_not_extended hr, List.mem_append] at h
    exact h.elim extended_of_mem_withExtensions extended_of_mem_withExtensions

/-- The plain names come first, then their partials. -/
theorem exists_plain {r : Reference} (h : r.getLast? ≠ some '/') :
    ∃ plain, candidates r = plain ++ plain.map toPartial ∧
      plain = if (Parts.ofReference r).hasExtension then [r] else withExtensions r := by
  by_cases hr : Extended r
  · exact ⟨[r], candidates_of_extended hr, (if_pos ((hasExtension_iff r).2 hr)).symm⟩
  · refine ⟨withExtensions r, ?_, (if_neg (mt (hasExtension_iff r).1 hr)).symm⟩
    obtain ⟨k, rfl⟩ := exists_cut r
    have hslashes : k.slashes = 0 := by
      by_contra hne
      obtain ⟨n, hn⟩ := Nat.exists_eq_succ_of_ne_zero hne
      exact h (by simp [Cut.text, hn, List.replicate_succ', ← List.append_assoc])
    rw [candidates_of_not_extended hr, withExtensions, withExtensions, List.map_map]
    congr 1
    exact List.map_congr_left fun extension hextension =>
      (toPartial_withExtension hslashes (styleExtensions_plain hextension).2.2).symm

/-- A candidate and its partial lie side by side. -/
theorem exists_components_pair (hdirectory : directory.text ≠ []) {c : Reference}
    (h : Extended c) : ∃ above name,
      (placeIn directory c).components = above ++ [.name name] ∧
        (placeIn directory (toPartial c)).components = above ++ [.name ('_' :: name)] := by
  obtain ⟨k, rfl⟩ := exists_cut c
  have hname := isName_of_hasExtension (k.hasExtension_text.1 ((hasExtension_iff _).2 h))
  exact ⟨_, _, components_placeIn_text hdirectory hname, components_placeIn_toPartial hdirectory k⟩

/-- The candidates of a reference that does not end in a slash are plain names and, in the same
    order, their partials, each in the directory of its plain name and named after it; there is one
    plain name where the reference has an extension and otherwise one for each extension.  Whatever
    the reference is, no two candidates are the same path below a directory, and each has an
    extension, so its own candidates are itself and its partial. -/
theorem candidates_paired {directory : Path} (hdirectory : directory.text ≠ []) (r : Reference) :
    (r.getLast? ≠ some '/' → ∃ plain,
      candidates r = plain ++ plain.map toPartial ∧
      (Extended r → plain = [r]) ∧
      (¬Extended r → plain = [r ++ ".scss".toList, r ++ ".sass".toList]) ∧
      ∀ c ∈ plain, ∃ above name,
        (placeIn directory c).components = above ++ [.name name] ∧
        (placeIn directory (toPartial c)).components = above ++ [.name ('_' :: name)]) ∧
    ((candidates r).Pairwise fun c c' =>
      (placeIn directory c).components ≠ (placeIn directory c').components) ∧
    ∀ c ∈ candidates r, Extended c ∧ candidates c = [c, toPartial c] := by
  refine ⟨fun hr => ?_, ?_, fun c hc => ?_⟩
  · obtain ⟨plain, hcandidates, hplain⟩ := exists_plain hr
    refine ⟨plain, hcandidates, fun h => ?_, fun h => ?_, fun c hc => ?_⟩
    · rw [hplain, if_pos ((hasExtension_iff r).2 h)]
    · rw [hplain, if_neg (mt (hasExtension_iff r).1 h)]
      simp [withExtensions, styleExtensions]
    · have hmem : c ∈ candidates r := hcandidates ▸ List.mem_append_left _ hc
      exact exists_components_pair hdirectory (extended_of_mem_candidates hmem)
  · -- different file names, and a file name is read off the components
    have hnames := List.pairwise_map.1 (nodup_fileNames hdirectory r)
    refine hnames.imp fun hne h => hne ?_
    unfold Path.fileName?
    rw [h]
  · have hextended := extended_of_mem_candidates hc
    exact ⟨hextended, candidates_of_extended hextended⟩

/-- Dots, doubled slashes and an underscore that is there already, below a directory spelled with
    dots. -/
theorem candidates_paired_nested :
    (⟨".//lib/.".toList⟩ : Path).text ≠ [] ∧
    "..//theme/./_button.v".toList.getLast? ≠ some '/' ∧
    candidates "..//theme/./_button.v".toList =
      ["..//theme/./_button.v".toList, "..//theme/./__button.v".toList] ∧
    ∃ plain, candidates "..//theme/./_button.v".toList = plain ++ plain.map toPartial ∧
      ∀ c ∈ plain, ∃ above name,
        (placeIn ⟨".//lib/.".toList⟩ c).components = above ++ [.name name] ∧
        (placeIn ⟨".//lib/.".toList⟩ (toPartial c)).components = above ++ [.name ('_' :: name)] := by
  have hdirectory : (⟨".//lib/.".toList⟩ : Path).text ≠ [] := by decide
  have hreference : "..//theme/./_button.v".toList.getLast? ≠ some '/' := by decide
  obtain ⟨plain, hplain, -, -, hpair⟩ :=
    (candidates_paired hdirectory "..//theme/./_button.v".toList).1 hreference
  exact ⟨hdirectory, hreference, by decide, plain, hplain, hpair⟩

end Reference
end SassImports
