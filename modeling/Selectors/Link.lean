import Selectors.Cursor
import Selectors.Readers
import Selectors.View

/-!
# Links and their targets

A link is an element that leads somewhere by an address. The address of the document completes it,
and the fragment of that address names the part of the document that is its target.

* `TreeView.isLink` and `TreeView.isLocalLink` are the states of links.
* `TreeView.target?` is the target in the document.
-/

namespace Selectors.TreeView

variable (t : TreeView) (readers : Readers)

def isLink (n : NodeId) : Bool :=
  (t.isHtml n "a" || t.isHtml n "area") && t.hasAttribute n "href"

/-- The address of the document that a node belongs to. -/
def documentUrl? (n : NodeId) : Option Url :=
  (t.stateOfDocument n).url.bind readers.address

/-- Whether a link leads to the document itself, its query and fragment aside. -/
def isLocalLink (n : NodeId) : Bool :=
  t.isLink n &&
    match t.documentUrl? readers n, t.attribute? n "href" with
    | some base, some href => (readers.join base href).any (readers.samePlace · base)
    | _, _ => false

/-- The element that the fragment of the document's address names: one with that id, or else a link
with that name. -/
def target? (n : NodeId) : Option NodeId := do
  let url ← t.documentUrl? readers n
  let name ← url.fragment.filter (· ≠ "")
  let document ← t.ownerDocument n
  let nodes := t.descendants document
  (nodes.find? fun m => t.isElement m && t.attribute? m "id" == some name).or
    (nodes.find? fun m => t.isHtml m "a" && t.attribute? m "name" == some name)

end Selectors.TreeView
