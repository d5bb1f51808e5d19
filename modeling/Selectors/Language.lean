import Selectors.Cursor
import Selectors.Text.Blank

/-!
# Languages

A language tag is a row of subtags, and a range asks for some of them in order.

* `Language.includes` filters tags by a range, going through both from left to right.
* `TreeView.languageOf` is the tag that holds for an element.
-/

namespace Selectors

namespace Language

/-- The subtags of a tag or a range in small letters. -/
def subtags (s : String) : List String :=
  (Text.splitOn '-' s).map Text.lower

/-- A subtag of one letter or digit, after which others are not to be skipped. -/
def isSingleton (s : String) : Bool :=
  s.utf8ByteSize == 1

/-- Whether the subtags asked for stand in the tag in order. A star asks for nothing, and a tag's
subtag that is not asked for is skipped unless it is a singleton. -/
def accepts : List String → List String → Bool
  | [], _ => true
  | r :: range, tag =>
    if r = "*" then accepts range tag
    else skipTo r range tag
where
  /-- Looks for the subtag `r` in the tag, and goes on behind it. -/
  skipTo (r : String) (range : List String) : List String → Bool
    | [] => false
    | s :: tag =>
      if s = r then accepts range tag
      else if isSingleton s then false
      else skipTo r range tag

/-- Whether a range asks for a tag: the first subtags are equal or the range's is a star, and the
others stand in order. An empty range asks for the empty tag only. -/
def includes (range tag : String) : Bool :=
  if range.isEmpty || tag.isEmpty then
    range.isEmpty && tag.isEmpty
  else
    match subtags range, subtags tag with
    | r :: range, s :: tag => (r == "*" || r == s) && accepts range tag
    | _, _ => false

end Language

namespace TreeView

variable (t : TreeView)

/-- The language that a document declares for all of itself: what stands before the first comma of a
declaration, unless that is blank. -/
def declaredLanguage? (n : NodeId) : Option String :=
  (t.ownerDocument n).bind fun document =>
    (t.descendants document).findSome? fun m =>
      if t.isHtml m "meta"
          && (t.attribute? m "http-equiv").any (Text.sameLetters · "content-language") then
        (t.attribute? m "content").bind fun content =>
          let lang := Text.trim (content.toList.takeWhile (· != ','))
          if lang.isEmpty then none else some (String.ofList lang)
      else none

/-- The language attribute of an element; the one in the XML namespace goes first. -/
def ownLanguage? (n : NodeId) : Option String :=
  if t.isElement n then
    (t.attributeIn? n Namespace.xml "lang").or (t.attribute? n "lang")
  else none

/-- The language of an element: its own, that of the nearest element around it, or the document's.
-/
def languageOf (n : NodeId) : Option String :=
  ((t.hostingAncestors n).findSome? t.ownLanguage?).or (t.declaredLanguage? n)

end TreeView

end Selectors
