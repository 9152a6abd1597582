/-
# Look-ups in the document cache

What each operation of the cache does to the three look-ups: under the name it
is about, and under every other name. A cache is valid when its names are
distinct, each document is kept under its own name and no more trees are kept
than there is room for; every operation keeps it valid.
-/

import StyleSense.Proofs.Dictionary
import StyleSense.Service.Cache

namespace StyleSense.Service.Cache

open Dictionary (keys)

/-- What holds of a cache between two requests. -/
structure Valid (c : Cache) : Prop where
  documents : (keys c.documents).Nodup
  trees : (keys c.trees).Nodup
  swatches : (keys c.swatches).Nodup
  room : c.trees.length ≤ treeCapacity
  named : ∀ uri document, c.document? uri = some document → document.uri = uri

/-- The tree that is kept for a document. Asking for it this way does not count
as a use. -/
def kept? (c : Cache) (uri : String) : Option Node :=
  Dictionary.get? uri c.trees

variable {c next : Cache} {uri other : String}

theorem valid_empty : empty.Valid where
  documents := List.nodup_nil
  trees := List.nodup_nil
  swatches := List.nodup_nil
  room := Nat.zero_le _
  named uri document h := absurd h (by simp [empty, document?, Dictionary.get?])

theorem document?_openDocument_self (c : Cache) (document : Document) :
    (c.openDocument document).document? document.uri = some document :=
  Dictionary.get?_put_self _ _ _

theorem document?_openDocument_of_ne {document : Document} (h : uri ≠ document.uri) (c : Cache) :
    (c.openDocument document).document? uri = c.document? uri :=
  Dictionary.get?_put_of_ne h _ _

theorem kept?_openDocument_self (hc : c.Valid) (document : Document) :
    (c.openDocument document).kept? document.uri = none :=
  Dictionary.get?_erase_self hc.trees _

theorem kept?_openDocument_of_ne {document : Document} (h : uri ≠ document.uri) (c : Cache) :
    (c.openDocument document).kept? uri = c.kept? uri :=
  Dictionary.get?_erase_of_ne h _

theorem swatches?_openDocument_self (hc : c.Valid) (document : Document) :
    (c.openDocument document).swatches? document.uri = none :=
  Dictionary.get?_erase_self hc.swatches _

theorem swatches?_openDocument_of_ne {document : Document} (h : uri ≠ document.uri) (c : Cache) :
    (c.openDocument document).swatches? uri = c.swatches? uri :=
  Dictionary.get?_erase_of_ne h _

theorem valid_openDocument (hc : c.Valid) (document : Document) :
    (c.openDocument document).Valid where
  documents := Dictionary.nodup_keys_put hc.documents _ _
  trees := Dictionary.nodup_keys_erase hc.trees _
  swatches := Dictionary.nodup_keys_erase hc.swatches _
  room := Nat.le_trans (Dictionary.length_erase_le _ _) hc.room
  named uri found h := by
    by_cases huri : uri = document.uri
    · subst huri
      rw [document?_openDocument_self] at h
      cases h
      rfl
    · rw [document?_openDocument_of_ne huri] at h
      exact hc.named uri found h

theorem document?_close_self (hc : c.Valid) (uri : String) :
    (c.close uri).document? uri = none :=
  Dictionary.get?_erase_self hc.documents _

theorem document?_close_of_ne (h : other ≠ uri) (c : Cache) :
    (c.close uri).document? other = c.document? other :=
  Dictionary.get?_erase_of_ne h _

theorem kept?_close_self (hc : c.Valid) (uri : String) : (c.close uri).kept? uri = none :=
  Dictionary.get?_erase_self hc.trees _

theorem kept?_close_of_ne (h : other ≠ uri) (c : Cache) :
    (c.close uri).kept? other = c.kept? other :=
  Dictionary.get?_erase_of_ne h _

theorem swatches?_close_self (hc : c.Valid) (uri : String) :
    (c.close uri).swatches? uri = none :=
  Dictionary.get?_erase_self hc.swatches _

theorem swatches?_close_of_ne (h : other ≠ uri) (c : Cache) :
    (c.close uri).swatches? other = c.swatches? other :=
  Dictionary.get?_erase_of_ne h _

theorem valid_close (hc : c.Valid) (uri : String) : (c.close uri).Valid where
  documents := Dictionary.nodup_keys_erase hc.documents _
  trees := Dictionary.nodup_keys_erase hc.trees _
  swatches := Dictionary.nodup_keys_erase hc.swatches _
  room := Nat.le_trans (Dictionary.length_erase_le _ _) hc.room
  named other found h := by
    by_cases hother : other = uri
    · rw [hother, document?_close_self hc] at h
      exact absurd h (by simp)
    · rw [document?_close_of_ne hother] at h
      exact hc.named other found h

/-- A change of the kept trees alone. -/
theorem valid_of_trees (hc : c.Valid) (hdocuments : next.documents = c.documents)
    (hswatches : next.swatches = c.swatches) (htrees : (keys next.trees).Nodup)
    (hroom : next.trees.length ≤ treeCapacity) : next.Valid where
  documents := hdocuments ▸ hc.documents
  trees := htrees
  swatches := hswatches ▸ hc.swatches
  room := hroom
  named uri document h := hc.named uri document (by rwa [document?, ← hdocuments])

/-- The look-up that counts as a use finds the kept tree. -/
theorem tree?_eq (c : Cache) (uri : String) :
    c.tree? uri = (c.kept? uri).map fun tree =>
      (tree, { c with trees := (uri, tree) :: Dictionary.erase uri c.trees }) := rfl

/-- A use moves a tree to the front, and that is all. -/
theorem tree?_spec (hc : c.Valid) {tree : Node} (h : c.tree? uri = some (tree, next)) :
    c.kept? uri = some tree ∧ next.Valid ∧ next.documents = c.documents ∧
      next.swatches = c.swatches ∧ ∀ other, next.kept? other = c.kept? other := by
  rw [tree?_eq, Option.map_eq_some_iff] at h
  obtain ⟨found, hfound, heq⟩ := h
  cases heq
  refine ⟨hfound, ?_, rfl, rfl, ?_⟩
  · refine valid_of_trees hc rfl rfl (Dictionary.nodup_keys_cons_erase hc.trees _ _) ?_
    have hlength : (Dictionary.erase uri c.trees).length < c.trees.length :=
      Dictionary.length_erase_lt hfound
    exact Nat.le_trans hlength hc.room
  · intro other
    by_cases hother : other = uri
    · rw [hother, kept?, Dictionary.get?_cons_self]
      exact hfound.symm
    · exact Dictionary.get?_cons_erase_of_ne hother _ _

theorem kept?_storeTree_self (c : Cache) (uri : String) (tree : Node) :
    (c.storeTree uri tree).kept? uri = some tree :=
  Dictionary.get?_cons_self _ _ _

/-- Storing a tree may push out others, and adds none but that one. -/
theorem kept?_of_kept?_storeTree (h : other ≠ uri) {tree found : Node}
    (hfound : (c.storeTree uri tree).kept? other = some found) : c.kept? other = some found := by
  rw [kept?, ← Dictionary.get?_cons_erase_of_ne h tree c.trees]
  exact Dictionary.get?_of_get?_take hfound

theorem valid_storeTree (hc : c.Valid) (uri : String) (tree : Node) :
    (c.storeTree uri tree).Valid :=
  valid_of_trees hc rfl rfl
    (Dictionary.nodup_keys_take (Dictionary.nodup_keys_cons_erase hc.trees _ _) _)
    (List.length_take_le _ _)

theorem swatches?_storeSwatches_self (c : Cache) (uri : String) (swatches : List Swatch) :
    (c.storeSwatches uri swatches).swatches? uri =
      some (swatches.mergeSort Assist.Coloring.startsNoLater) :=
  Dictionary.get?_put_self _ _ _

theorem swatches?_storeSwatches_of_ne (h : other ≠ uri) (c : Cache) (swatches : List Swatch) :
    (c.storeSwatches uri swatches).swatches? other = c.swatches? other :=
  Dictionary.get?_put_of_ne h _ _

theorem valid_storeSwatches (hc : c.Valid) (uri : String) (swatches : List Swatch) :
    (c.storeSwatches uri swatches).Valid where
  documents := hc.documents
  trees := hc.trees
  swatches := Dictionary.nodup_keys_put hc.swatches _ _
  room := hc.room
  named := hc.named

end StyleSense.Service.Cache
