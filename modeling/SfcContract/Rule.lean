import SfcContract.Diagnostic
import SfcContract.Markup.Attribute
import SfcContract.Markup.Tag

/-!
# Rules on markup

A rule looks at the tags of one name and decides on each by its attributes alone.
-/

namespace SfcContract

structure MarkupRule where
  id : RuleId
  tag : Text
  message : Text
  violates : List Attribute → Bool

namespace MarkupRule

def imgAlt : MarkupRule where
  id := .imgAlt
  tag := "img".toList
  message := "<img> missing alt attribute".toList
  violates attributes := !Attribute.given attributes "alt".toList

def buttonType : MarkupRule where
  id := .buttonType
  tag := "button".toList
  message := "<button> missing type attribute".toList
  violates attributes := !Attribute.given attributes "type".toList

def linkHash : MarkupRule where
  id := .linkHash
  tag := "a".toList
  message := "<a href=\"#\"> without role is an anti-pattern".toList
  violates attributes := Attribute.static? attributes "href".toList == some ['#'] &&
    !Attribute.given attributes "role".toList

def inputLabel : MarkupRule where
  id := .inputLabel
  tag := "input".toList
  message := "<input> missing aria-label/aria-labelledby (heuristic)".toList
  violates attributes := !Attribute.given attributes "aria-label".toList &&
    !Attribute.given attributes "aria-labelledby".toList

/-- The rules in the order of their findings. -/
def all : List MarkupRule := [imgAlt, buttonType, linkHash, inputLabel]

def check (rule : MarkupRule) (markup : Text) : List Diagnostic :=
  ((Text.findAll (Tag.named rule.tag) markup).filter fun tag => rule.violates (Attribute.ofTag tag)).map
    (Diagnostic.onTag rule.id rule.message)

def checkAll (markup : Text) : List Diagnostic := all.flatMap (check · markup)

end MarkupRule

end SfcContract
