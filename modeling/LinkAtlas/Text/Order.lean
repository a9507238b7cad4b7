/-!
# Order of texts

Texts are sorted by the code points of their characters, which is also the order of their bytes.
-/

namespace LinkAtlas

namespace Text

def atMost (first second : String) : Bool := decide (first ≤ second)

def sort (texts : List String) : List String := texts.mergeSort atMost

/-- The texts in order, each once. -/
def sortDistinct (texts : List String) : List String := sort texts.eraseDups

end Text

end LinkAtlas
