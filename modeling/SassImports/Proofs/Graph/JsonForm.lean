/-
  SassImports/Proofs/Graph/JsonForm.lean
  ======================================
  The JSON form of a graph tells which graph it is.  A record is told by its fields and a list by its
  items, so the value that a graph is turned into tells the graph, and what is printed tells the value.
-/
import SassImports.Graph
import SassImports.Proofs.Json.Injectivity

namespace SassImports

theorem Path.text_injective : Function.Injective Path.text := by
  rintro ⟨t⟩ ⟨u⟩ rfl
  rfl

theorem FilterId.name_injective : Function.Injective FilterId.name := by
  rintro ⟨t⟩ ⟨u⟩ rfl
  rfl

theorem map_text_injective {α : Type} {f : α → Text} (hf : Function.Injective f) :
    Function.Injective (List.map fun x => Json.text (f x)) := by
  intro xs ys h
  exact (List.map_inj_right fun _ _ h => hf (Json.text.inj h)).1 h

theorem Dependency.toJson_injective : Function.Injective Dependency.toJson := by
  rintro ⟨path, root, filters⟩ ⟨path', root', filters'⟩ h
  simp only [toJson, Json.object.injEq, List.cons.injEq, Prod.mk.injEq, true_and, and_true,
    Json.text.injEq, Json.array.injEq] at h
  obtain ⟨hpath, hroot, hfilters⟩ := h
  rw [Path.text_injective hpath, Path.text_injective hroot,
    map_text_injective FilterId.name_injective hfilters]

theorem Edge.toJson_injective : Function.Injective Edge.toJson := by
  rintro ⟨parent, children⟩ ⟨parent', children'⟩ h
  simp only [toJson, Json.object.injEq, List.cons.injEq, Prod.mk.injEq, true_and, and_true,
    Json.text.injEq, Json.array.injEq] at h
  obtain ⟨hparent, hchildren⟩ := h
  rw [Path.text_injective hparent,
    (List.map_inj_right fun _ _ h => Dependency.toJson_injective h).1 hchildren]

namespace Graph

theorem toJson_injective : Function.Injective Graph.toJson := by
  rintro ⟨entry, edges, files⟩ ⟨entry', edges', files'⟩ h
  simp only [toJson, Json.object.injEq, List.cons.injEq, Prod.mk.injEq, true_and, and_true,
    Json.text.injEq, Json.array.injEq] at h
  obtain ⟨hentry, hedges, hfiles⟩ := h
  rw [Path.text_injective hentry,
    (List.map_inj_right fun _ _ h => Edge.toJson_injective h).1 hedges,
    map_text_injective Path.text_injective hfiles]

/-- **The JSON form is unambiguous.**  Two graphs that are printed alike, on many lines or on one,
    are the same graph, with the same texts in the same places; and what is printed on many lines is
    what is printed on one line but for blanks outside of quoted texts. -/
theorem json_unambiguous :
    (∀ g g' : Graph, g.toJson.pretty = g'.toJson.pretty ↔ g = g') ∧
    (∀ g g' : Graph, g.toJson.compact = g'.toJson.compact ↔ g = g') ∧
    ∀ g : Graph, Json.deleteBlanks g.toJson.pretty = g.toJson.compact :=
  ⟨fun _ _ => (Json.pretty_injective.comp toJson_injective).eq_iff,
    fun _ _ => (Json.compact_injective.comp toJson_injective).eq_iff,
    fun g => Json.deleteBlanks_pretty g.toJson⟩

end Graph
end SassImports
