import Scriptlet.Paint.Overlay
import Scriptlet.Paint.Tokens
import Scriptlet.Paint.Names
import Scriptlet.Session

/-!
# Painting a text

A text is painted in two passes over one overlay: the tokens first, then the names. A text that
cannot be read completely is painted as far as it can.
-/

namespace Scriptlet

/-- The overlay of a text. -/
def paint (text : String) : Overlay :=
  let source := Source.ofText .file text
  (Overlay.ofText text).tagAll (tokenTags source.tokens ++ nameTags source.statements)

end Scriptlet
