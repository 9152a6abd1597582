/-
# Document cache

What is kept between requests: the open documents, the trees used last, and the
swatches last answered. Trees and swatches belong to the text of an open
document, so both go when the document is opened anew, changed or closed.
-/

import StyleSense.Assist.Swatches
import StyleSense.Dictionary

namespace StyleSense.Service

/-- Trees that are kept at once. -/
def treeCapacity : Nat := 20

/-- What is kept, by the names of documents. -/
structure Cache where
  documents : Dictionary Document
  /-- The tree used last comes first. -/
  trees : Dictionary Node
  swatches : Dictionary (List Swatch)

namespace Cache

/-- Nothing is kept. -/
def empty : Cache :=
  ⟨[], [], []⟩

/-- Drops what was derived from a document's text. -/
def invalidate (c : Cache) (uri : String) : Cache :=
  { c with trees := Dictionary.erase uri c.trees, swatches := Dictionary.erase uri c.swatches }

/-- Opens a document, in place of one of the same name. -/
def openDocument (c : Cache) (document : Document) : Cache :=
  let c := c.invalidate document.uri
  { c with documents := Dictionary.put document.uri document c.documents }

/-- Closes a document. -/
def close (c : Cache) (uri : String) : Cache :=
  { c with documents := Dictionary.erase uri c.documents }.invalidate uri

/-- An open document. -/
def document? (c : Cache) (uri : String) : Option Document :=
  Dictionary.get? uri c.documents

/-- The tree of a document, which becomes the one used last. -/
def tree? (c : Cache) (uri : String) : Option (Node × Cache) :=
  (Dictionary.get? uri c.trees).map fun tree =>
    (tree, { c with trees := (uri, tree) :: Dictionary.erase uri c.trees })

/-- Keeps a tree as the one used last. The tree that was not used for longest
makes room. -/
def storeTree (c : Cache) (uri : String) (tree : Node) : Cache :=
  { c with trees := ((uri, tree) :: Dictionary.erase uri c.trees).take treeCapacity }

/-- The swatches last kept for a document. -/
def swatches? (c : Cache) (uri : String) : Option (List Swatch) :=
  Dictionary.get? uri c.swatches

/-- Keeps swatches by where they start. -/
def storeSwatches (c : Cache) (uri : String) (swatches : List Swatch) : Cache :=
  { c with
    swatches := Dictionary.put uri (swatches.mergeSort Assist.Coloring.startsNoLater) c.swatches }

/-- The number of open documents. -/
def size (c : Cache) : Nat :=
  c.documents.length

/-- Whether no document is open. -/
def isEmpty (c : Cache) : Bool :=
  c.documents.isEmpty

end Cache

end StyleSense.Service
