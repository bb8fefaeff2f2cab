import Mathlib.Data.List.TakeWhile
import Scriptlet.Bytecode.Assembly
import Scriptlet.Proofs.Sequence
import Scriptlet.Proofs.Text.Cutting

namespace Scriptlet

namespace Assembly

open Text

/-- The diagnostic for the same text with `n` bytes in front of it. -/
def behind (n : Nat) (d : Diagnostic) : Diagnostic := ⟨d.fault, position (n + d.position.offset)⟩

end Assembly

open Assembly Text

end Scriptlet
